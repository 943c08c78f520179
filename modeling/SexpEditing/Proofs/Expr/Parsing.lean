import SexpEditing.Expr.Parser
import SexpEditing.Proofs.Expr.Shape

/-!
# What the parser reads

Whatever its tokens are, the parser keeps all of them: those of the finished items, of the marks
that wait, and of the lists that are open make up what was read. So the trees at the end hold the
significant tokens of a text, each one once and in order.

## Main definitions

* `PartialList.tokens`, `Parser.tokens`: the tokens that were read
* `Parser.Reads`: what holds of a parser that has read some tokens

## Main results

* `Parser.Reads.step`, `Parser.Reads.run`: one token, and some of them
* `Expr.exists_parseMany`: the trees hold the significant tokens, and only the last one may be open
* `Expr.exists_ofText`: the trees of a text
-/

namespace SexpEditing

open SexpEditing.Expr

/-- A mark whose text says how it quotes. -/
def Token.Quotes (t : Token) : Prop :=
  t.kind = .mark ∧ ∃ style, QuoteStyle.ofMark? t.text = some style

namespace PartialList

/-- The tokens that were read of a list. -/
def tokens (l : PartialList) : List Token := tokensOf l.items.reverse ++ l.marks.reverse

/-- What holds of the items that were read, and marks that can be put around an expression. -/
structure Holds (P : Expr → Prop) (l : PartialList) : Prop where
  items : ∀ e ∈ l.items, P e
  marks_quote : ∀ t ∈ l.marks, t.Quotes

variable {P : Expr → Prop} {l : PartialList}

theorem Holds.empty : Holds P empty := ⟨by simp [PartialList.empty], by simp [PartialList.empty]⟩

/-- A further item, which has taken the marks. -/
theorem Holds.cons (h : l.Holds P) {e : Expr} (he : P e) : Holds P ⟨e :: l.items, []⟩ := by
  refine ⟨fun f hf => ?_, by simp⟩
  rcases List.mem_cons.mp hf with rfl | hf
  · exact he
  · exact h.items f hf

/-- Marks go around an expression, and the newest one stands next to it. What quoting keeps holds of
the result. -/
theorem exists_wrap {marks : List Token} (hm : ∀ t ∈ marks, t.Quotes)
    (hP : ∀ {style mark inner}, mark.kind = .mark → QuoteStyle.ofMark? mark.text = some style →
      P inner → P (.quoted style mark inner)) {e : Expr} (he : P e) :
    ∃ f, wrap marks e = .ok f ∧ f.tokens = marks.reverse ++ e.tokens ∧ P f := by
  induction marks generalizing e with
  | nil => exact ⟨e, rfl, rfl, he⟩
  | cons mark outer ih =>
    obtain ⟨hk, style, hstyle⟩ := hm mark (by simp)
    obtain ⟨f, hf, htokens, hPf⟩ := ih (fun t ht => hm t (by simp [ht])) (hP hk hstyle he)
    refine ⟨f, ?_, ?_, hPf⟩
    · rw [wrap, hstyle]
      exact hf
    · rw [htokens]
      simp [Expr.tokens]

/-- An expression takes the marks that wait. -/
theorem exists_add (hm : ∀ t ∈ l.marks, t.Quotes)
    (hP : ∀ {style mark inner}, mark.kind = .mark → QuoteStyle.ofMark? mark.text = some style →
      P inner → P (.quoted style mark inner)) {e : Expr} (he : P e) :
    ∃ f, l.add e = .ok ⟨f :: l.items, []⟩ ∧
      PartialList.tokens ⟨f :: l.items, []⟩ = l.tokens ++ e.tokens ∧ P f := by
  obtain ⟨f, hf, htokens, hPf⟩ := exists_wrap hm hP he
  refine ⟨f, ?_, ?_, hPf⟩
  · rw [add, hf]
    rfl
  · simp [tokens, htokens]

theorem Holds.addMark (h : l.Holds P) {t : Token} (ht : t.Quotes) : (l.addMark t).Holds P := by
  refine ⟨h.items, fun u hu => ?_⟩
  rcases List.mem_cons.mp hu with rfl | hu
  · exact ht
  · exact h.marks_quote u hu

@[simp] theorem tokens_addMark (l : PartialList) (t : Token) :
    (l.addMark t).tokens = l.tokens ++ [t] := by
  simp [tokens, PartialList.addMark]

/-- The contents are the items, and then the marks that wait. -/
theorem contents_eq (l : PartialList) :
    l.contents = l.items.reverse ++ l.marks.reverse.map .stray := by
  simp [contents, dropMarks]

@[simp] theorem tokensOf_contents (l : PartialList) : tokensOf l.contents = l.tokens := by
  simp [contents_eq, tokens, -List.map_reverse]

theorem Holds.kind_eq_of_mem_reverse (h : l.Holds P) : ∀ t ∈ l.marks.reverse, t.kind = .mark :=
  fun t ht => (h.marks_quote t (by simpa using ht)).1

/-- At the top level the marks that wait become items as good as the others. -/
theorem Holds.finished_contents (h : l.Holds Finished) : ∀ e ∈ l.contents, e.Finished := by
  intro e he
  rw [contents_eq, mem_append_map_stray] at he
  rcases he with he | ⟨t, ht, rfl⟩
  · exact h.items e (by simpa using he)
  · exact .inr ⟨t, rfl, .inl (h.kind_eq_of_mem_reverse t ht)⟩

end PartialList

namespace Parser

/-- The tokens of the lists that are open, the innermost one first. -/
def openTokens : List (Token × PartialList) → List Token
  | [] => []
  | (opener, l) :: outer => openTokens outer ++ opener :: l.tokens

/-- The tokens that were read. -/
def tokens (p : Parser) : List Token := p.top.tokens ++ openTokens p.lists

/-- An open list, with its delimiter. Its items are complete. -/
structure OpenList (opener : Token) (l : PartialList) : Prop where
  kind_eq : opener.kind = .opener
  holds : l.Holds Whole

/-- What holds of a parser that has read some significant tokens. -/
structure Reads (p : Parser) (ts : List Token) : Prop where
  tokens_eq : p.tokens = ts
  top_holds : p.top.Holds Finished
  lists_open : ∀ x ∈ p.lists, OpenList x.1 x.2

theorem Reads.empty : Reads empty [] :=
  ⟨rfl, PartialList.Holds.empty, by simp [Parser.empty]⟩

/-- A complete expression goes to the innermost level. -/
theorem Reads.exists_add {p : Parser} {ts : List Token} (h : p.Reads ts) {e : Expr}
    (he : e.Whole) : ∃ q, p.add e = .ok q ∧ q.Reads (ts ++ e.tokens) := by
  obtain ⟨htokens, htop, hlists⟩ := h
  unfold add
  split
  · next hnil =>
    obtain ⟨f, hadd, ht, hf⟩ := PartialList.exists_add htop.marks_quote .quoted he
    refine ⟨⟨_, p.lists⟩, by rw [hadd]; rfl, ?_, htop.cons (.inl hf), hlists⟩
    rw [← htokens, tokens, tokens, ht, hnil]
    simp [openTokens]
  · next opener l outer hcons =>
    have hopen := hlists (opener, l) (by simp [hcons])
    obtain ⟨f, hadd, ht, hf⟩ := PartialList.exists_add hopen.holds.marks_quote .quoted he
    refine ⟨⟨p.top, (opener, _) :: outer⟩, by rw [hadd]; rfl, ?_, htop, ?_⟩
    · rw [← htokens, tokens, tokens, hcons]
      simp [openTokens, ht]
    · intro x hx
      rcases List.mem_cons.mp hx with rfl | hx
      · exact ⟨hopen.kind_eq, hopen.holds.cons hf⟩
      · exact hlists x (by simp [hcons, hx])

theorem Reads.addMark {p : Parser} {ts : List Token} (h : p.Reads ts) {t : Token}
    (ht : t.Quotes) : (p.addMark t).Reads (ts ++ [t]) := by
  obtain ⟨htokens, htop, hlists⟩ := h
  unfold Parser.addMark
  split
  · next hnil =>
    refine ⟨?_, htop.addMark ht, hlists⟩
    rw [← htokens, tokens, tokens, hnil]
    simp [openTokens]
  · next opener l outer hcons =>
    refine ⟨?_, htop, ?_⟩
    · rw [← htokens, tokens, tokens, hcons]
      simp [openTokens]
    · intro x hx
      have hopen := hlists (opener, l) (by simp [hcons])
      rcases List.mem_cons.mp hx with rfl | hx
      · exact ⟨hopen.kind_eq, hopen.holds.addMark ht⟩
      · exact hlists x (by simp [hcons, hx])

/-- A closing delimiter ends the innermost list, or is a stray token at the top level, where it
ends the wait of the marks too. -/
theorem Reads.step_closer {p : Parser} {ts : List Token} (h : p.Reads ts) {t : Token}
    (hk : t.kind = .closer) : ∃ q, p.step t = .ok q ∧ q.Reads (ts ++ [t]) := by
  obtain ⟨htokens, htop, hlists⟩ := h
  obtain ⟨top, lists⟩ := p
  cases lists with
  | nil =>
    -- no list is open: the marks that wait become stray tokens before this one
    refine ⟨⟨⟨.stray t :: top.dropMarks.items, []⟩, []⟩, by simp [Parser.step, hk]; rfl,
      ?_, ⟨?_, by simp⟩, by simp⟩
    · rw [← htokens]
      simp [tokens, openTokens, PartialList.tokens, PartialList.dropMarks, ← List.map_reverse,
        Expr.tokens]
    · intro e he
      rcases List.mem_cons.mp he with rfl | he
      · exact .inr ⟨t, rfl, .inr hk⟩
      · exact htop.finished_contents e (by simpa [PartialList.contents] using he)
  | cons x outer =>
    obtain ⟨opener, l⟩ := x
    have hopen : OpenList opener l := hlists (opener, l) (by simp)
    -- the innermost list is complete, and goes to the level around it
    have hlist : (Expr.list opener l.contents (some t)).Whole := by
      rw [PartialList.contents_eq]
      exact .closed hopen.kind_eq hk (fun e he => hopen.holds.items e (by simpa using he))
        hopen.holds.kind_eq_of_mem_reverse
    have houter : Reads ⟨top, outer⟩ (top.tokens ++ openTokens outer) :=
      ⟨rfl, htop, fun x hx => hlists x (by simp [hx])⟩
    obtain ⟨q, hq, hreads⟩ := houter.exists_add hlist
    refine ⟨q, by simpa [Parser.step, hk] using hq, ?_⟩
    rw [← htokens]
    simpa [tokens, openTokens, Expr.tokens] using hreads

/-- **One token** that carries structure is kept. -/
theorem Reads.step {p : Parser} {ts : List Token} (h : p.Reads ts) {t : Token}
    (hn : t.isTrivia = false) (ht : t.kind = .mark → t.Quotes) :
    ∃ q, p.step t = .ok q ∧ q.Reads (ts ++ [t]) := by
  unfold Token.isTrivia at hn
  cases hk : t.kind with
  | space => simp [hk, TokenKind.isTrivia] at hn
  | comment => simp [hk, TokenKind.isTrivia] at hn
  | opener =>
    refine ⟨⟨p.top, (t, .empty) :: p.lists⟩, by simp [Parser.step, hk], ?_, h.top_holds, ?_⟩
    · rw [← h.tokens_eq]
      simp [tokens, openTokens, PartialList.tokens, PartialList.empty]
    · intro x hx
      rcases List.mem_cons.mp hx with rfl | hx
      · exact ⟨hk, PartialList.Holds.empty⟩
      · exact h.lists_open x hx
  | closer => exact h.step_closer hk
  | mark => exact ⟨p.addMark t, by simp [Parser.step, hk], h.addMark (ht hk)⟩
  | atom =>
    obtain ⟨q, hq, hreads⟩ := h.exists_add (Expr.Whole.atom hk)
    exact ⟨q, by simpa [Parser.step, hk] using hq, hreads⟩
  | string =>
    obtain ⟨q, hq, hreads⟩ := h.exists_add (Expr.Whole.string hk)
    exact ⟨q, by simpa [Parser.step, hk] using hq, hreads⟩

theorem step_of_isTrivia {p : Parser} {t : Token} (h : t.isTrivia = true) : p.step t = .ok p := by
  unfold Token.isTrivia at h
  cases hk : t.kind <;> simp_all [Parser.step, TokenKind.isTrivia]

/-- Some tokens. -/
theorem Reads.run {p : Parser} {read ts : List Token} (h : p.Reads read)
    (hm : ∀ t ∈ ts, t.kind = .mark → t.Quotes) :
    ∃ q, p.run ts = .ok q ∧ q.Reads (read ++ ts.filter fun t => !t.isTrivia) := by
  induction ts generalizing p read with
  | nil => exact ⟨p, rfl, by simpa using h⟩
  | cons t rest ih =>
    have hrest : ∀ u ∈ rest, u.kind = .mark → u.Quotes := fun u hu => hm u (by simp [hu])
    cases htrivia : t.isTrivia with
    | true =>
      -- trivia leaves the parser as it is
      obtain ⟨q, hq, hreads⟩ := ih h hrest
      refine ⟨q, ?_, by simpa [htrivia] using hreads⟩
      rw [Parser.run, step_of_isTrivia htrivia]
      exact hq
    | false =>
      obtain ⟨p', hp', hreads'⟩ := h.step htrivia (hm t (by simp))
      obtain ⟨q, hq, hreads⟩ := ih hreads' hrest
      refine ⟨q, ?_, by simpa [htrivia] using hreads⟩
      rw [Parser.run, hp']
      exact hq

/-! ### The end of the input -/

/-- At the end of the input the open lists become items, each of the one around it. The innermost
one has taken what was open in it before. -/
theorem exists_closeAll {top : PartialList} (ht : top.Holds Finished) {opener : Token}
    {l : PartialList} {outer : List (Token × PartialList)}
    (hl : (Expr.list opener l.contents none).Unclosed) (ho : ∀ x ∈ outer, OpenList x.1 x.2) :
    ∃ e : Expr, closeAll top ((opener, l) :: outer) = .ok ⟨e :: top.items, []⟩ ∧ e.Unclosed ∧
      PartialList.tokens ⟨e :: top.items, []⟩ =
        top.tokens ++ openTokens ((opener, l) :: outer) := by
  induction outer generalizing opener l with
  | nil =>
    obtain ⟨f, hadd, htokens, hf⟩ := PartialList.exists_add ht.marks_quote .quoted hl
    refine ⟨f, ?_, hf, ?_⟩
    · rw [closeAll]
      exact hadd
    · simp [htokens, openTokens, Expr.tokens]
  | cons x outer ih =>
    obtain ⟨opener', l'⟩ := x
    have hopen : OpenList opener' l' := ho (opener', l') (by simp)
    obtain ⟨f, hadd, htokens, hf⟩ :=
      PartialList.exists_add hopen.holds.marks_quote .quoted hl
    have hnext : (Expr.list opener' (PartialList.contents ⟨f :: l'.items, []⟩) none).Unclosed := by
      have hitems : ∀ e ∈ l'.items.reverse, e.Whole :=
        fun e he => hopen.holds.items e (by simpa using he)
      simpa [PartialList.contents_eq] using Unclosed.outermost hopen.kind_eq hitems hf
    obtain ⟨e, hclose, he, htokens'⟩ := ih hnext fun x hx => ho x (by simp [hx])
    refine ⟨e, ?_, he, ?_⟩
    · rw [closeAll, hadd]
      exact hclose
    · simp [htokens', openTokens, htokens, Expr.tokens]

end Parser

namespace Expr

/-- **The parser reads all tokens** whose marks say how they quote, and its trees hold the
significant ones in order. -/
theorem exists_parseMany {ts : List Token} (hm : ∀ t ∈ ts, t.kind = .mark → t.Quotes) :
    ∃ es, parseMany ts = .ok es ∧ tokensOf es = ts.filter (fun t => !t.isTrivia) ∧ Parsed es := by
  obtain ⟨⟨top, lists⟩, hp, htokens, htop, hlists⟩ := Parser.Reads.empty.run hm
  rw [List.nil_append] at htokens
  have hfinish (l : PartialList) (hl : Parser.closeAll top lists = .ok l) :
      parseMany ts = .ok l.contents := by
    rw [parseMany, hp]
    show Parser.finish ⟨top, lists⟩ = _
    rw [Parser.finish, hl]
    rfl
  cases lists with
  | nil =>
    refine ⟨top.contents, hfinish top (by rw [Parser.closeAll]), ?_, fun e he => ?_, fun e he => ?_⟩
    · rw [PartialList.tokensOf_contents, ← htokens]
      simp [Parser.tokens, Parser.openTokens]
    · exact htop.finished_contents e (List.dropLast_subset _ he)
    · exact .inl (htop.finished_contents e (List.mem_of_getLast? he))
  | cons x outer =>
    obtain ⟨opener, l⟩ := x
    have hopen : Parser.OpenList opener l := hlists (opener, l) (by simp)
    have hl : (Expr.list opener l.contents none).Unclosed := by
      rw [PartialList.contents_eq]
      exact .innermost hopen.kind_eq (fun e he => hopen.holds.items e (by simpa using he))
        hopen.holds.kind_eq_of_mem_reverse
    obtain ⟨e, hclose, he, htokens'⟩ :=
      Parser.exists_closeAll htop hl fun x hx => hlists x (List.mem_cons_of_mem _ hx)
    -- the open expression comes last at the top level
    have hcontents : PartialList.contents ⟨e :: top.items, []⟩ = top.items.reverse ++ [e] := by
      simp [PartialList.contents_eq]
    refine ⟨_, hfinish _ hclose, ?_, fun f hf => ?_, fun f hf => ?_⟩
    · rw [PartialList.tokensOf_contents, htokens', ← htokens]
      rfl
    · rw [hcontents, List.dropLast_concat] at hf
      exact htop.items f (by simpa using hf)
    · rw [hcontents, List.getLast?_concat] at hf
      obtain rfl := Option.some.inj hf
      exact .inr he

end Expr

theorem exists_style_of_nextLexeme {t after : Text} {l : Lexeme}
    (h : nextLexeme t = some (l, after)) (hk : l.kind = .mark) :
    ∃ style, QuoteStyle.ofMark? l.text = some style := by
  revert h
  fun_cases nextLexeme t with
  | case3 rest =>
    rintro ⟨⟩
    exact ⟨.splicedUnquotation, rfl⟩
  | case9 c rest _ _ _ _ _ _ _ hmark =>
    rintro ⟨⟩
    simp only [isMarkUnit, Bool.or_eq_true, beq_iff_eq] at hmark
    rcases hmark with (rfl | rfl) | rfl
    · exact ⟨.quotation, rfl⟩
    · exact ⟨.quasiquotation, rfl⟩
    · exact ⟨.unquotation, rfl⟩
  | case1 => simp
  | case2 | case8 =>
    intro h
    obtain ⟨_, -, he⟩ := Option.map_eq_some_iff.mp h
    cases he
    cases hk
  | case4 | case5 | case6 | case7 | case10 =>
    rintro ⟨⟩
    cases hk

/-- The marks of a text say how they quote. -/
theorem quotes_of_mem_tokenize {t : Text} {u : Token} (hu : u ∈ tokenize t) (hk : u.kind = .mark) :
    u.Quotes := by
  have hgen {t : Text} {l : Lexeme} (hl : l ∈ lexemes t) (hk : l.kind = .mark) :
      ∃ style, QuoteStyle.ofMark? l.text = some style := by
    fun_induction lexemes t with
    | case1 => simp at hl
    | case2 t l' after hn ih =>
      rcases List.mem_cons.mp hl with rfl | hl
      · exact exists_style_of_nextLexeme hn hk
      · exact ih hl
  obtain ⟨ls₁, ls₂, hls, -, -⟩ := Token.exists_around_of_mem_layOut hu
  have hmem : u.toLexeme ∈ lexemes t := by simp [hls]
  exact ⟨hk, hgen hmem hk⟩

namespace Expr

/-- **The parser reads every text.** -/
theorem exists_parsed (t : Text) :
    ∃ es, ofText t = .ok es ∧ tokensOf es = significantTokens t ∧ Parsed es :=
  exists_parseMany fun _ hu => quotes_of_mem_tokenize hu

theorem exists_ofText (t : Text) :
    ∃ es, ofText t = .ok es ∧ tokensOf es = significantTokens t ∧ ∀ e ∈ es, e.Sound := by
  obtain ⟨es, hes, htokens, hparsed⟩ := exists_parsed t
  exact ⟨es, hes, htokens, fun e he => (hparsed.built e he).sound⟩

/-- The tokens of a text that is one expression are those of the expression. -/
theorem significantTokens_eq_tokens {t : Text} {e : Expr} (h : ofText t = .ok [e]) :
    significantTokens t = e.tokens := by
  obtain ⟨es, hes, htokens, -⟩ := exists_ofText t
  obtain rfl := Except.ok.inj (h.symm.trans hes)
  rw [← htokens, tokensOf_cons, tokensOf_nil, List.append_nil]

end Expr

end SexpEditing
