import SexpEditing.Proofs.Expr.Corresponding

/-!
# Trees are read from their own tokens

An expression that the parser has built can be read once more: its tokens, on their own, make one
expression, and it is that one. In the middle of other tokens, reading those of a complete
expression is adding it at the innermost level; those of an open expression have the same effect
once the input ends.

## Main results

* `Expr.Whole.run_tokens`: the tokens of a complete expression
* `Expr.Unclosed.run_tokens`: the tokens of an open expression
* `Expr.parseMany_tokens`, `Expr.ofText_of_tokens`: an expression from its own tokens
-/

namespace SexpEditing

open SexpEditing.Expr

namespace Parser

theorem run_append (p : Parser) (ts us : List Token) :
    p.run (ts ++ us) = (p.run ts >>= fun q => q.run us) := by
  induction ts generalizing p with
  | nil => rfl
  | cons t ts ih =>
    rw [List.cons_append, run, run]
    cases p.step t with
    | error x => rfl
    | ok q => exact ih q

theorem run_singleton (p : Parser) (t : Token) : p.run [t] = p.step t := by
  rw [run]
  cases p.step t <;> rfl

theorem run_cons_of_mark (p : Parser) {t : Token} (ht : t.kind = .mark) (ts : List Token) :
    p.run (t :: ts) = (p.addMark t).run ts := by
  rw [run, step, ht]
  rfl

/-- An expression takes the newest mark first. -/
theorem add_addMark (p : Parser) {mark : Token} {style : QuoteStyle}
    (hs : QuoteStyle.ofMark? mark.text = some style) (e : Expr) :
    (p.addMark mark).add e = p.add (.quoted style mark e) := by
  have hl (l : PartialList) : (l.addMark mark).add e = l.add (.quoted style mark e) := by
    rw [PartialList.add, PartialList.addMark, PartialList.wrap, hs]
    rfl
  obtain ⟨top, lists⟩ := p
  cases lists with
  | nil => simp only [addMark, add, hl]
  | cons x outer => simp only [addMark, add, hl]

/-- What is read in an open list: complete items, each of which takes no mark. -/
theorem run_tokensOf {items : List Expr}
    (hi : ∀ e ∈ items, ∀ p : Parser, p.run e.tokens = p.add e) (top : PartialList) (opener : Token)
    (before : List Expr) (outer : List (Token × PartialList)) :
    Parser.run ⟨top, (opener, ⟨before, []⟩) :: outer⟩ (tokensOf items) =
      .ok ⟨top, (opener, ⟨items.reverse ++ before, []⟩) :: outer⟩ := by
  induction items generalizing before with
  | nil => rfl
  | cons e items ih =>
    rw [tokensOf_cons, run_append, hi e (by simp)]
    have hadd : Parser.add ⟨top, (opener, ⟨before, []⟩) :: outer⟩ e =
        .ok ⟨top, (opener, ⟨e :: before, []⟩) :: outer⟩ := rfl
    rw [hadd, List.reverse_cons, List.append_assoc]
    exact ih (fun f hf => hi f (by simp [hf])) (e :: before)

/-- What is read in an open list: marks, which wait. -/
theorem run_marks {marks : List Token} (hm : ∀ t ∈ marks, t.kind = .mark) (top : PartialList)
    (opener : Token) (items : List Expr) (before : List Token)
    (outer : List (Token × PartialList)) :
    Parser.run ⟨top, (opener, ⟨items, before⟩) :: outer⟩ marks =
      .ok ⟨top, (opener, ⟨items, marks.reverse ++ before⟩) :: outer⟩ := by
  induction marks generalizing before with
  | nil => rfl
  | cons t marks ih =>
    rw [run_cons_of_mark _ (hm t (by simp)), List.reverse_cons, List.append_assoc]
    exact ih (fun u hu => hm u (by simp [hu])) (t :: before)

/-- The front of a list: its opener, and complete items. -/
theorem run_list {opener : Token} (ho : opener.kind = .opener) {items : List Expr}
    (hi : ∀ e ∈ items, ∀ p : Parser, p.run e.tokens = p.add e) (p : Parser) (ts : List Token) :
    p.run (opener :: (tokensOf items ++ ts)) =
      Parser.run ⟨p.top, (opener, ⟨items.reverse, []⟩) :: p.lists⟩ ts := by
  have hstep : p.step opener = .ok ⟨p.top, (opener, .empty) :: p.lists⟩ := by
    rw [step, ho]
  have hitems := run_tokensOf hi p.top opener [] p.lists
  rw [List.append_nil] at hitems
  rw [run, hstep]
  show Parser.run ⟨p.top, (opener, ⟨[], []⟩) :: p.lists⟩ (tokensOf items ++ ts) = _
  rw [run_append, hitems]
  rfl

/-- At the end of the input the innermost open list goes to the level around it. -/
theorem finish_cons (top : PartialList) (opener : Token) (l : PartialList)
    (outer : List (Token × PartialList)) :
    finish ⟨top, (opener, l) :: outer⟩ =
      (Parser.add ⟨top, outer⟩ (.list opener l.contents none) >>= finish) := by
  cases outer with
  | nil =>
    rw [finish, closeAll, add]
    cases top.add (.list opener l.contents none) with
    | error x => rfl
    | ok top' =>
      show _ = finish ⟨top', []⟩
      rw [finish, closeAll]
  | cons x outer =>
    obtain ⟨opener', l'⟩ := x
    rw [finish, closeAll, add]
    dsimp only
    cases l'.add (.list opener l.contents none) <;> rfl

end Parser

namespace Expr

open SexpEditing.Parser

theorem contents_reverse (items : List Expr) (marks : List Token) :
    PartialList.contents ⟨items.reverse, marks.reverse⟩ = items ++ marks.map .stray := by
  rw [PartialList.contents_eq, List.reverse_reverse, List.reverse_reverse]

/-- **The tokens of a complete expression** add it at the innermost level. -/
theorem Whole.run_tokens {e : Expr} (h : e.Whole) (p : Parser) : p.run e.tokens = p.add e := by
  induction h generalizing p with
  | @closed opener closer items marks ho hc hi hm ih =>
    have hmarks := run_marks hm p.top opener items.reverse [] p.lists
    rw [List.append_nil] at hmarks
    rw [tokens, tokensOf_append, tokensOf_map_stray, List.append_assoc, run_list ho ih, run_append,
      hmarks]
    show Parser.run _ [closer] = _
    rw [run_singleton, step, hc]
    simp only [contents_reverse]
  | quoted hm hs _ ih =>
    rw [tokens, run_cons_of_mark p hm, ih, add_addMark p hs]
  | atom h =>
    rw [tokens, run_singleton, step, h]
  | string h =>
    rw [tokens, run_singleton, step, h]

/-- **The tokens of an open expression** add it at the innermost level when the input ends. -/
theorem Unclosed.run_tokens {e : Expr} (h : e.Unclosed) (p : Parser) :
    (p.run e.tokens >>= finish) = (p.add e >>= finish) := by
  induction h generalizing p with
  | @outermost opener items last ho hi h ih =>
    have hadd : Parser.add ⟨p.top, (opener, ⟨items.reverse, []⟩) :: p.lists⟩ last =
        .ok ⟨p.top, (opener, ⟨last :: items.reverse, []⟩) :: p.lists⟩ := rfl
    have hcontents := contents_reverse (items ++ [last]) []
    rw [List.reverse_append] at hcontents
    rw [tokens, tokensOf_append, tokensOf_cons, tokensOf_nil, List.append_nil, Option.toList_none,
      List.append_nil, run_list ho fun f hf => (hi f hf).run_tokens, ih, hadd]
    show finish _ = _
    rw [finish_cons]
    exact congrArg (fun es => p.add (.list opener es none) >>= finish)
      (hcontents.trans (List.append_nil _))
  | @innermost opener items marks ho hi hm =>
    have hmarks := run_marks hm p.top opener items.reverse [] p.lists
    rw [List.append_nil] at hmarks
    rw [tokens, tokensOf_append, tokensOf_map_stray, Option.toList_none, List.append_nil,
      run_list ho fun f hf => (hi f hf).run_tokens, hmarks]
    show finish _ = _
    rw [finish_cons, contents_reverse]
  | quoted hm hs _ ih =>
    rw [tokens, run_cons_of_mark p hm, ih, add_addMark p hs]

/-- **An expression from its own tokens.** -/
theorem parseMany_tokens {e : Expr} (h : e.Built) :
    parseMany e.tokens = .ok [e] := by
  have hadd : (Parser.empty.add e >>= finish) = .ok [e] := by
    show finish ⟨⟨[e], []⟩, []⟩ = _
    rw [finish, closeAll]
    rfl
  rcases h with (h | ⟨t, rfl, hk⟩) | h
  · rw [parseMany, h.run_tokens, hadd]
  · rw [parseMany, tokens, run_singleton, step]
    rcases hk with hk | hk
    · rw [hk]
      show finish ⟨⟨[], [t]⟩, []⟩ = _
      rw [finish, closeAll]
      rfl
    · rw [hk]
      show finish ⟨⟨[.stray t], []⟩, []⟩ = _
      rw [finish, closeAll]
      rfl
  · rw [parseMany, h.run_tokens, hadd]

/-- A text that has the tokens of an expression is read as that expression. -/
theorem ofText_of_tokens {t : Text} {e : Expr} (h : e.Built) (ht : significantTokens t = e.tokens) :
    ofText t = .ok [e] := by
  rw [← parseMany_significantTokens, ht]
  exact parseMany_tokens h

end Expr

end SexpEditing
