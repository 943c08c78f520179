import SexpEditing.Proofs.Evaluator.Quoting
import SexpEditing.Proofs.Expr.Layout
import SexpEditing.Proofs.Token.Cuts

/-!
# The statement that shows a value

Collapsed code is put between delimiters, as the argument of a function that shows its value. In
front of it stands a blank, so it begins as it did; but nothing stands between its last token and
the closing delimiter. Every token ends before a closing delimiter except an atom whose last
backslash has nothing to escape: in the statement it escapes the delimiter, and the list stays open.

## Main definitions

* `Statement.printlnFront`: the lexemes in front of the code
* `Statement.PrintsValueOf`: a statement is read as one that shows the value of code

## Main results

* `Lexeme.Formed.concat_of_escapesNext`: an atom that escapes what follows takes any unit in
* `Statement.lexemes_println_of_steady`, `Statement.lexemes_println_of_escapesNext`: how the statement
  is split
* `Statement.echo_prints_value_iff`: when the statement shows the value of the code
* `Statement.echo_takes_delimiter_in`: code for which it does not
-/

namespace SexpEditing

open CodeUnit

/-- **An atom that escapes what follows** is still one atom with the next unit. -/
theorem Lexeme.Formed.concat_of_escapesNext {l : Lexeme} (h : l.Formed) (hk : l.kind = .atom)
    (he : escapesNext l.text = true) (c : CodeUnit) : Lexeme.Formed ⟨.atom, l.text ++ [c]⟩ := by
  cases h with
  | @atom d rest hd hs ht =>
    have htail := atomTail_append_of_escapesNext ht he c []
    refine .atom hd (fun r hslash hr => ?_) (congrArg Prod.snd htail)
    -- a slash alone escapes nothing, so an asterisk behind it would have been there before
    cases rest with
    | nil =>
      subst hslash
      cases he
    | cons a rest =>
      obtain ⟨rfl, -⟩ := List.cons.inj hr
      exact hs rest hslash rfl
  | _ => cases hk

namespace Statement

/-! ### How the statement is split -/

/-- The lexemes in front of the code in a statement that shows its value. -/
def printlnFront : List Lexeme :=
  [⟨.opener, [leftParen]⟩, ⟨.atom, Text.ofString "println"⟩, Lexeme.blank]

theorem flatMap_text_printlnFront :
    (printlnFront.flatMap fun l => l.text) = Text.ofString "(println " := by
  decide

theorem formed_of_mem_printlnFront {l : Lexeme} (hl : l ∈ printlnFront) : l.Formed := by
  simp only [printlnFront, List.mem_cons, List.not_mem_nil, or_false] at hl
  rcases hl with rfl | rfl | rfl
  · exact .opener
  · exact (Lexeme.formed_of_nextLexeme (t := Text.ofString "println") (x := []) (by decide)).1
  · exact Lexeme.formed_blank

/-- What stands behind the blank is split as it would be alone. -/
theorem lexemes_println {ls : List Lexeme} (hchain : ls.IsChain Lexeme.Adjoins)
    (hform : ∀ l ∈ ls, l.Formed) (hhead : ∀ l ∈ ls.head?, l.kind.isTrivia = false) :
    lexemes (Text.ofString "(println " ++ ls.flatMap fun l => l.text) = printlnFront ++ ls := by
  rw [← flatMap_text_printlnFront, ← List.flatMap_append]
  apply lexemes_flatMap_text
  · refine List.isChain_append.mpr ⟨?_, hchain, fun l hl m hm => ?_⟩
    · simp [printlnFront, Lexeme.Adjoins, Lexeme.blank]
      decide
    · obtain rfl : Lexeme.blank = l := Option.some.inj hl
      exact Lexeme.blank_adjoins (hhead m hm)
  · intro l hl
    exact (List.mem_append.mp hl).elim formed_of_mem_printlnFront (hform l)

section Lexemes

variable {ls : List Lexeme} {l : Lexeme} (hchain : (ls ++ [l]).IsChain Lexeme.Adjoins)
  (hform : ∀ m ∈ ls ++ [l], m.Formed) (hhead : ∀ m ∈ (ls ++ [l]).head?, m.kind.isTrivia = false)
include hchain hform hhead

/-- **How the statement is split**, if the last lexeme of the code does not take along what follows:
at the closing delimiter too. -/
theorem lexemes_println_of_steady (hl : l.kind.isTrivia = false) (hs : l.Steady) :
    lexemes (Text.ofString "(println " ++ ((ls ++ [l]).flatMap fun l => l.text) ++ [rightParen]) =
      printlnFront ++ (ls ++ [l] ++ [⟨.closer, [rightParen]⟩]) := by
  rw [← lexemes_println]
  · simp only [List.flatMap_append, List.flatMap_singleton, List.append_assoc]
  · refine List.isChain_append.mpr ⟨hchain, .singleton _, fun m hm n hn => ?_⟩
    rw [List.getLast?_concat] at hm
    obtain rfl := Option.some.inj hm
    obtain rfl := Option.some.inj hn
    exact Lexeme.Formed.closer.adjoins_closer rfl hl hs
  · intro m hm
    rcases List.mem_append.mp hm with hm | hm
    · exact hform m hm
    · obtain rfl := List.mem_singleton.mp hm
      exact .closer
  · intro m hm
    rw [List.head?_append_of_ne_nil _ (by simp)] at hm
    exact hhead m hm

/-- **How the statement is split**, if the code ends with an atom that escapes what follows: the
closing delimiter belongs to the atom. -/
theorem lexemes_println_of_escapesNext (hk : l.kind = .atom) (he : escapesNext l.text = true) :
    lexemes (Text.ofString "(println " ++ ((ls ++ [l]).flatMap fun l => l.text) ++ [rightParen]) =
      printlnFront ++ (ls ++ [⟨.atom, l.text ++ [rightParen]⟩]) := by
  have hl : l.Formed := hform l (List.mem_append_right _ (List.mem_singleton_self l))
  rw [← lexemes_println]
  · simp only [List.flatMap_append, List.flatMap_singleton, List.append_assoc]
  · -- what stood before the atom may stand before the longer one, which begins alike
    rw [List.isChain_append] at hchain
    refine List.isChain_append.mpr ⟨hchain.1, .singleton _, fun m hm n hn => ?_⟩
    obtain rfl := Option.some.inj hn
    refine (hchain.2.2 m hm l rfl).of_head? hk.symm ?_
    exact List.head?_append_of_ne_nil _ hl.text_ne_nil
  · intro m hm
    rcases List.mem_append.mp hm with hm | hm
    · exact hform m (List.mem_append_left _ hm)
    · obtain rfl := List.mem_singleton.mp hm
      exact hl.concat_of_escapesNext hk he rightParen
  · intro m hm
    cases ls with
    | nil =>
      obtain rfl := Option.some.inj hm
      rfl
    | cons k ls => exact hhead m hm

end Lexemes

/-! ### What the statement is read as -/

/-- A statement is read as one closed list of two items: the atom `println`, and an expression that
is the one that code is read as, wherever the two stand. -/
def PrintsValueOf (statement code : Text) : Prop :=
  ∃ (opener head closer : Token) (e value : Expr),
    Expr.ofText statement = .ok [.list opener [.atom head, value] (some closer)] ∧
      head.text = Text.ofString "println" ∧
      Expr.ofText code = .ok [e] ∧ e.Corresponds (· = ·) value

/-- The last lexeme of such a statement closes the list. -/
theorem PrintsValueOf.exists_closer {statement code : Text} (h : PrintsValueOf statement code) :
    ∃ l ∈ (Lexeme.significant (lexemes statement)).getLast?, l.kind = .closer := by
  obtain ⟨opener, head, closer, e, value, hlist, -⟩ := h
  obtain ⟨es, hes, -, hsound⟩ := Expr.exists_ofText statement
  obtain rfl := Except.ok.inj (hlist.symm.trans hes)
  refine ⟨closer.toLexeme, ?_, ?_⟩
  · rw [← map_toLexeme_significantTokens, Expr.significantTokens_eq_tokens hlist, Expr.tokens,
      Option.toList_some, ← List.cons_append, List.getLast?_map, List.getLast?_concat]
    rfl
  · cases hsound _ (List.mem_singleton_self _) with
    | closed _ hc => exact hc

/-- **What the statement is read as**, if it is split at the delimiters and the code is one complete
expression. -/
theorem printsValueOf_of_lexemes {statement code : Text} {e : Expr}
    (he : Expr.ofText code = .ok [e]) (hc : e.complete = true)
    (hsplit : Lexeme.significant (lexemes statement) =
      ⟨.opener, [leftParen]⟩ :: ⟨.atom, Text.ofString "println"⟩ ::
        (Lexeme.significant (lexemes code) ++ [⟨.closer, [rightParen]⟩])) :
    PrintsValueOf statement code := by
  have hmap := map_toLexeme_significantTokens statement
  rw [hsplit] at hmap
  simp only [List.map_eq_cons_iff, List.map_eq_append_iff, List.map_eq_nil_iff] at hmap
  obtain ⟨opener, _, htokens, ho, head, _, rfl, hh, _, _, rfl, hts, closer, _, rfl, hcl, rfl⟩ :=
    hmap
  -- the tokens between the delimiters are those of the code, elsewhere than in the code
  obtain ⟨value, rfl, hwhole, hvalue⟩ := Expr.exists_whole_of_map_toLexeme he hc hts
  have hlist : Expr.Whole (.list opener [.atom head, value] (some closer)) := by
    refine .list (congrArg Lexeme.kind ho) (congrArg Lexeme.kind hcl) fun f hf => ?_
    simp only [List.mem_cons, List.not_mem_nil, or_false] at hf
    rcases hf with rfl | rfl
    · exact .atom (congrArg Lexeme.kind hh)
    · exact hwhole
  refine ⟨opener, head, closer, e, value, ?_, congrArg Lexeme.text hh, he, hvalue⟩
  refine Expr.ofText_of_tokens (.inl (.inl hlist)) (htokens.trans ?_)
  simp [Expr.tokens]

/-! ### The statement that is sent -/

/-- The second statement. -/
theorem eq_of_echo {code r shown evaluated : Text} (hr : collapse code = .ok r)
    (h : echo code = .ok [shown, evaluated]) :
    evaluated = Text.ofString "(println " ++ r ++ [rightParen] := by
  obtain ⟨s, hs, heq⟩ := echo_eq_ok_iff.mp h
  obtain rfl := Except.ok.inj (hr.symm.trans hs)
  exact (List.cons.inj (List.cons.inj heq).2).1

/-- The lexemes of collapsed code end with the last token of the code. -/
theorem exists_lexemes_join {code : Text} {t : Token}
    (ht : (significantTokens code).getLast? = some t) :
    ∃ ls, lexemes (join true false (lexemes code)) = ls ++ [t.toLexeme.escapeBreaks] ∧
      ∀ m ∈ (ls ++ [t.toLexeme.escapeBreaks]).head?, m.kind.isTrivia = false := by
  have hlast : (joinedLexemes true false (lexemes code)).getLast? =
      some t.toLexeme.escapeBreaks := by
    rw [getLast?_joinedLexemes, ← map_toLexeme_significantTokens, List.getLast?_map, ht]
    rfl
  obtain ⟨ls, hls⟩ := List.getLast?_eq_some_iff.mp hlast
  refine ⟨ls, (lexemes_join true false code).trans hls, fun m hm => ?_⟩
  rw [← hls] at hm
  exact isTrivia_of_head?_joinedLexemes hm

/-- **When the statement shows a value**, by the last lexeme of the code in it. -/
theorem printsValueOf_iff {code : Text} {e : Expr} (he : Expr.ofText code = .ok [e])
    (hc : e.complete = true) {ls : List Lexeme} {l : Lexeme} (hls : lexemes code = ls ++ [l])
    (htext : ((ls ++ [l]).flatMap fun m => m.text) = code)
    (hhead : ∀ m ∈ (ls ++ [l]).head?, m.kind.isTrivia = false) (hl : l.kind.isTrivia = false) :
    PrintsValueOf (Text.ofString "(println " ++ code ++ [rightParen]) code ↔ l.Steady := by
  have hchain := isChain_lexemes code
  have hform : ∀ m ∈ lexemes code, m.Formed := fun m hm => formed_of_mem_lexemes hm
  rw [hls] at hchain hform
  -- the closing delimiter is a lexeme of its own, or part of the atom before it
  by_cases hs : l.Steady
  · refine iff_of_true (printsValueOf_of_lexemes he hc ?_) hs
    have hsplit := lexemes_println_of_steady hchain hform hhead hl hs
    rw [htext] at hsplit
    rw [hsplit, hls, significant_append, significant_append (ls ++ [l])]
    rfl
  · refine iff_of_false (fun h => ?_) hs
    rw [Lexeme.Steady, Classical.not_imp, Bool.not_eq_false] at hs
    have hsplit := lexemes_println_of_escapesNext hchain hform hhead hs.1 hs.2
    rw [htext] at hsplit
    -- the last lexeme is an atom, so it closes no list
    obtain ⟨m, hm, hclose⟩ := h.exists_closer
    rw [hsplit, ← List.append_assoc, significant_append] at hm
    obtain rfl := Option.some.inj (List.getLast?_concat.symm.trans hm)
    cases hclose

/-- **When the statement shows the value of the code.** For code that can be collapsed and is one
expression, without stray tokens and open lists in it, there are two statements. The second one is
read as a closed list of the atom `println` and the expression of the collapsed code, exactly if
the last token of the code is no atom that takes along what follows. -/
theorem echo_prints_value_iff {code r : Text} {e : Expr} (hr : collapse code = .ok r)
    (he : Expr.ofText code = .ok [e]) (hclosed : e.Closed) (hstray : ∀ t, .stray t ∉ e.parts) :
    ∃ shown evaluated, echo code = .ok [shown, evaluated] ∧
      (PrintsValueOf evaluated r ↔
        ∀ t ∈ (significantTokens code).getLast?, t.toLexeme.Steady) := by
  refine ⟨_, _, echo_eq_ok_iff.mpr ⟨r, hr, rfl⟩, ?_⟩
  -- the collapsed code is one complete expression too
  obtain ⟨es, gs, hes, hgs, hcorr⟩ :=
    (Expr.treesCorrespond_iff Lexeme.structural_keepsMeaning).mpr (keepsMeaning_of_collapse hr)
  obtain rfl := Except.ok.inj (he.symm.trans hes)
  obtain ⟨g, _, hg, hnil, rfl⟩ := List.forall₂_cons_left_iff.mp hcorr
  cases hnil
  have hc : g.complete = true := hg.complete_eq.trans (hclosed.complete hstray)
  -- and ends with the last token of the code
  obtain ⟨t, ht⟩ : ∃ t, (significantTokens code).getLast? = some t := by
    rw [Expr.significantTokens_eq_tokens he]
    exact ⟨_, List.getLast?_eq_some_getLast (List.ne_nil_of_length_pos e.length_tokens_pos)⟩
  have htrivia : t.isTrivia = false := by
    simpa using (List.mem_filter.mp (List.mem_of_getLast? ht)).2
  obtain ⟨-, rfl⟩ := collapse_eq_ok_iff.mp hr
  obtain ⟨ls, hls, hhead⟩ := exists_lexemes_join ht
  have htext : ((ls ++ [t.toLexeme.escapeBreaks]).flatMap fun m => m.text) =
      join true false (lexemes code) := by
    rw [← hls, lexemes_join, join_eq]
  rw [printsValueOf_iff hgs hc hls htext hhead htrivia, Lexeme.steady_escapeBreaks_iff, ht]
  simp

/-- A list on two lines, with a comment. -/
theorem echo_prints_value_iff_list :
    let code := Text.ofString "(f ; g\n x)"
    collapse code = .ok (Text.ofString "(f x)") ∧
      ∃ e, Expr.ofText code = .ok [e] ∧ e.Closed ∧ (∀ t, .stray t ∉ e.parts) ∧
        ∃ shown, echo code = .ok [shown, Text.ofString "(println (f x))"] ∧
          PrintsValueOf (Text.ofString "(println (f x))") (Text.ofString "(f x)") := by
  intro code
  have hr : collapse code = .ok (Text.ofString "(f x)") := by decide +kernel
  have htokens : significantTokens code =
      [⟨⟨.opener, Text.ofString "("⟩, ⟨0, 1⟩⟩, ⟨⟨.atom, Text.ofString "f"⟩, ⟨1, 2⟩⟩,
        ⟨⟨.atom, Text.ofString "x"⟩, ⟨8, 9⟩⟩, ⟨⟨.closer, Text.ofString ")"⟩, ⟨9, 10⟩⟩] := by
    decide +kernel
  let e : Expr := .list ⟨⟨.opener, Text.ofString "("⟩, ⟨0, 1⟩⟩
    [.atom ⟨⟨.atom, Text.ofString "f"⟩, ⟨1, 2⟩⟩, .atom ⟨⟨.atom, Text.ofString "x"⟩, ⟨8, 9⟩⟩]
    (some ⟨⟨.closer, Text.ofString ")"⟩, ⟨9, 10⟩⟩)
  have hwhole : e.Whole := by
    refine .list rfl rfl fun f hf => ?_
    simp only [List.mem_cons, List.not_mem_nil, or_false] at hf
    rcases hf with rfl | rfl
    · exact .atom rfl
    · exact .atom rfl
  have he : Expr.ofText code = .ok [e] := Expr.ofText_of_tokens (.inl (.inl hwhole)) htokens
  have hclosed : e.Closed := Expr.Finished.closed (.inl hwhole)
  have hstray : ∀ t, .stray t ∉ e.parts := by
    intro t ht
    simp [e, Expr.parts, Expr.partsOf] at ht
  obtain ⟨shown, evaluated, hecho, hiff⟩ := echo_prints_value_iff hr he hclosed hstray
  obtain rfl : evaluated = Text.ofString "(println (f x))" := eq_of_echo hr hecho
  refine ⟨hr, e, he, hclosed, hstray, shown, hecho, hiff.mpr fun t ht => ?_⟩
  rw [htokens] at ht
  obtain rfl := Option.some.inj ht
  exact fun hk => by cases hk

/-- An atom that ends with a backslash takes the closing delimiter of the statement in. -/
theorem echo_takes_delimiter_in :
    ¬ ∀ (code r : Text) (e : Expr), collapse code = .ok r → Expr.ofText code = .ok [e] →
      e.Closed → (∀ t, .stray t ∉ e.parts) →
        ∃ shown evaluated, echo code = .ok [shown, evaluated] ∧ PrintsValueOf evaluated r := by
  intro h
  have htokens : significantTokens [0x61, backslash] =
      [⟨⟨.atom, [0x61, backslash]⟩, ⟨0, 2⟩⟩] := by
    decide +kernel
  have hwhole : Expr.Whole (.atom ⟨⟨.atom, [0x61, backslash]⟩, ⟨0, 2⟩⟩) := .atom rfl
  have he : Expr.ofText [0x61, backslash] = .ok [.atom ⟨⟨.atom, [0x61, backslash]⟩, ⟨0, 2⟩⟩] :=
    Expr.ofText_of_tokens (.inl (.inl hwhole)) htokens
  have hr : collapse [0x61, backslash] = .ok [0x61, backslash] := by decide +kernel
  obtain ⟨shown, evaluated, hecho, hprints⟩ := h _ _ _ hr he
    (Expr.Finished.closed (.inl hwhole)) (by simp [Expr.parts])
  obtain rfl : evaluated = Text.ofString "(println a\\)" := eq_of_echo hr hecho
  obtain ⟨l, hl, hclose⟩ := hprints.exists_closer
  have hlast : ∀ l ∈ (Lexeme.significant (lexemes (Text.ofString "(println a\\)"))).getLast?,
      l.kind = .atom := by
    decide +kernel
  rw [hlast l hl] at hclose
  cases hclose

end Statement

end SexpEditing
