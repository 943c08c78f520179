import SexpEditing.Proofs.Evaluator.Meaning
import SexpEditing.Proofs.Expr.Rereading

/-!
# Quoted text is read back

A quoted text ends where its literal does and has no line breaks or tabs of its own, and the value
of the literal is the text. So a statement that shows a text is read as one list, and the text is
what the last item of that list stands for.

## Main definitions

* `Statement.literal`: a text as a string literal
* `Statement.printLexemes`: the lexemes of a statement that shows a text
* `Statement.Shows`: a statement is read as one that shows a text

## Main results

* `Statement.quoteUnit_cases`: the two ways a unit may stand in a literal
* `Statement.unescapeAll_quote`, `Statement.endsString_quote`: what is read of a quoted text
* `Statement.quote_reads_back`: literals, statements that show a text, and those that show code
-/

namespace SexpEditing

open CodeUnit

namespace Statement

/-- A unit that would break a line, or stand for a tab. -/
def isLayout (c : CodeUnit) : Bool := c == lineFeed || c == carriageReturn || c == tab

/-- **The ways a unit may stand in a literal**: behind a backslash, together with which it is read
as the unit, or by itself, if it neither begins an escape nor ends the literal. -/
theorem quoteUnit_cases (c : CodeUnit) :
    (∃ d, quoteUnit c = [backslash, d] ∧ unescape d = c ∧ isLayout d = false) ∨
      quoteUnit c = [c] ∧ c ≠ backslash ∧ c ≠ quotationMark ∧ isLayout c = false := by
  fun_cases quoteUnit c with
  | case1 => exact .inl ⟨letterN, rfl, rfl, rfl⟩
  | case2 => exact .inl ⟨letterR, rfl, rfl, rfl⟩
  | case3 => exact .inl ⟨letterT, rfl, rfl, rfl⟩
  | case4 => exact .inl ⟨quotationMark, rfl, rfl, rfl⟩
  | case5 => exact .inl ⟨backslash, rfl, rfl, rfl⟩
  | case6 c hn hr ht hq hb =>
    refine .inr ⟨rfl, hb, hq, ?_⟩
    simp only [isLayout, Bool.or_eq_false_iff, beq_eq_false_iff_ne]
    exact ⟨⟨hn, hr⟩, ht⟩

/-- **Resolving the escapes** of a quoted text gives the text. -/
theorem unescapeAll_quote (t : Text) : unescapeAll (quote t) = t := by
  induction t with
  | nil => rfl
  | cons c t ih =>
    rw [quote_cons]
    rcases quoteUnit_cases c with ⟨d, hquote, hd, -⟩ | ⟨hquote, hb, -, -⟩
    · rw [hquote, List.cons_append, List.singleton_append, unescapeAll_escape, hd, ih]
    · rw [hquote, List.singleton_append, unescapeAll_cons hb, ih]

/-- **A quoted text ends** at the quotation mark behind it, and at none before. -/
theorem endsString_quote (t : Text) : EndsString (quote t ++ [quotationMark]) := by
  induction t with
  | nil => rfl
  | cons c t ih =>
    rw [quote_cons, List.append_assoc]
    rcases quoteUnit_cases c with ⟨d, hquote, -, -⟩ | ⟨hquote, hb, hq, -⟩
    · rw [hquote]
      exact endsString_escape.mpr ih
    · rw [hquote]
      exact (endsString_cons hq hb).mpr ih

/-- A quoted text is on one line, and holds no tabs. -/
theorem isLayout_of_mem_quote {t : Text} {c : CodeUnit} (h : c ∈ quote t) : isLayout c = false := by
  obtain ⟨d, -, hc⟩ := List.mem_flatMap.mp h
  rcases quoteUnit_cases d with ⟨e, hquote, -, he⟩ | ⟨hquote, -, -, hd⟩
  · rw [hquote, List.mem_cons, List.mem_singleton] at hc
    rcases hc with rfl | rfl
    · rfl
    · exact he
  · rw [hquote, List.mem_singleton] at hc
    rwa [hc]

theorem isLayout_of_mem_print {t : Text} {c : CodeUnit} (h : c ∈ print t) : isLayout c = false := by
  have hfixed (s : Text) (hs : s.all fun d => !isLayout d) (hc : c ∈ s) : isLayout c = false := by
    simpa using List.all_eq_true.mp hs c hc
  rw [print, List.mem_append, List.mem_append] at h
  rcases h with (h | h) | h
  · exact hfixed _ (by decide) h
  · exact isLayout_of_mem_quote h
  · exact hfixed _ (by decide) h

/-! ### Literals -/

/-- A text as a string literal. -/
def literal (t : Text) : Text := quotationMark :: (quote t ++ [quotationMark])

theorem formed_literal (t : Text) : Lexeme.Formed ⟨.string, literal t⟩ :=
  .string (endsString_quote t)

/-- **The value of a literal** is the text. -/
theorem stringValue_literal (t : Text) : stringValue (literal t) = t := by
  rw [stringValue, literal, List.tail_cons, List.dropLast_concat, unescapeAll_quote]

/-! ### Statements that show a text -/

/-- The lexemes of a statement that shows a text. -/
def printLexemes (t : Text) : List Lexeme :=
  [⟨.opener, [leftParen]⟩, ⟨.atom, Text.ofString "printf"⟩, Lexeme.blank,
    ⟨.string, literal (Text.ofString "%s\n")⟩, Lexeme.blank, ⟨.string, literal t⟩,
    ⟨.closer, [rightParen]⟩]

theorem flatMap_text_printLexemes (t : Text) :
    (printLexemes t).flatMap (fun l => l.text) = print t := by
  have hfront : Text.ofString "(printf \"%s\\n\" \"" =
      leftParen :: Text.ofString "printf" ++ space :: literal (Text.ofString "%s\n") ++
        [space, quotationMark] := by decide
  have hback : Text.ofString "\")" = [quotationMark, rightParen] := by decide
  rw [print, hfront, hback]
  simp [printLexemes, Lexeme.blank, literal]

/-- A statement that shows a text is split as it was put together. -/
theorem lexemes_print (t : Text) : lexemes (print t) = printLexemes t := by
  rw [← flatMap_text_printLexemes]
  apply lexemes_flatMap_text
  · simp [printLexemes, Lexeme.Adjoins, Lexeme.blank]
    decide
  · intro l hl
    simp only [printLexemes, List.mem_cons, List.not_mem_nil, or_false] at hl
    rcases hl with rfl | rfl | rfl | rfl | rfl | rfl | rfl
    · exact .opener
    · exact (Lexeme.formed_of_nextLexeme (t := Text.ofString "printf") (x := []) (by decide)).1
    · exact Lexeme.formed_blank
    · exact formed_literal _
    · exact Lexeme.formed_blank
    · exact formed_literal t
    · exact .closer

/-- A statement is read as one closed list of three items: the atom `printf`, a string for a text on
a line of its own, and a string whose value is the text that is shown. -/
def Shows (statement shown : Text) : Prop :=
  ∃ opener head format value closer : Token,
    Expr.ofText statement =
        .ok [.list opener [.atom head, .string format, .string value] (some closer)] ∧
      head.text = Text.ofString "printf" ∧ stringValue format.text = Text.ofString "%s\n" ∧
      stringValue value.text = shown

theorem shows_print (t : Text) : Shows (print t) t := by
  have hmap := map_toLexeme_significantTokens (print t)
  rw [lexemes_print] at hmap
  have hsignificant : Lexeme.significant (printLexemes t) =
      [⟨.opener, [leftParen]⟩, ⟨.atom, Text.ofString "printf"⟩,
        ⟨.string, literal (Text.ofString "%s\n")⟩, ⟨.string, literal t⟩,
        ⟨.closer, [rightParen]⟩] := rfl
  simp only [hsignificant, List.map_eq_cons_iff, List.map_eq_nil_iff] at hmap
  obtain ⟨opener, _, htokens, ho, head, _, rfl, hh, format, _, rfl, hf, value, _, rfl, hv,
    closer, _, rfl, hc, rfl⟩ := hmap
  -- the tokens are those of the list, which is read from them
  have hwhole : Expr.Whole (.list opener [.atom head, .string format, .string value]
      (some closer)) := by
    refine .list (congrArg Lexeme.kind ho) (congrArg Lexeme.kind hc) fun e he => ?_
    simp only [List.mem_cons, List.not_mem_nil, or_false] at he
    rcases he with rfl | rfl | rfl
    · exact .atom (congrArg Lexeme.kind hh)
    · exact .string (congrArg Lexeme.kind hf)
    · exact .string (congrArg Lexeme.kind hv)
  refine ⟨opener, head, format, value, closer, ?_, congrArg Lexeme.text hh, ?_, ?_⟩
  · exact Expr.ofText_of_tokens (.inl (.inl hwhole)) htokens
  · rw [show format.text = _ from congrArg Lexeme.text hf, stringValue_literal]
  · rw [show value.text = _ from congrArg Lexeme.text hv, stringValue_literal]

theorem echo_eq_ok_iff {code : Text} {ss : List Text} : echo code = .ok ss ↔
    ∃ s, collapse code = .ok s ∧
      ss = [print s, Text.ofString "(println " ++ s ++ [rightParen]] := by
  rw [echo]
  cases collapse code <;> simp [bind, Except.bind, pure, Except.pure, eq_comm]

/-- **Quoted text is read back.** The literal of a text is one string token, and its value is the
text. A statement that shows a text is on one line without tabs, and is read as a list whose last
item has the text as its value; and of the statements that echo code the first one shows the
collapsed code. -/
theorem quote_reads_back (t : Text) :
    tokenize (literal t) = [⟨⟨.string, literal t⟩, ⟨0, (literal t).length⟩⟩] ∧
      stringValue (literal t) = t ∧
      (∀ c ∈ print t, c ≠ lineFeed ∧ c ≠ carriageReturn ∧ c ≠ tab) ∧
      Shows (print t) t ∧
      ∀ code r, collapse code = .ok r →
        ∃ shown rest, echo code = .ok (shown :: rest) ∧ Shows shown r := by
  refine ⟨?_, stringValue_literal t, fun c hc => ?_, shows_print t, fun code r hr => ?_⟩
  · have hlexemes : lexemes (literal t) = [⟨.string, literal t⟩] := by
      have hone : lexemes ([⟨.string, literal t⟩].flatMap fun l : Lexeme => l.text) = _ :=
        lexemes_flatMap_text (.singleton _) (by simpa using formed_literal t)
      rwa [List.flatMap_singleton] at hone
    rw [tokenize, hlexemes, Lexeme.layOut_cons, Int.zero_add, Lexeme.layOut_nil]
  · simpa [isLayout, and_assoc] using isLayout_of_mem_print hc
  · exact ⟨print r, _, echo_eq_ok_iff.mpr ⟨r, hr, rfl⟩, shows_print r⟩

/-- A text of which every unit takes a backslash, and code of two lines. -/
theorem quote_reads_back_escapes :
    stringValue (literal (Text.ofString "\\\"\n\r\t")) = Text.ofString "\\\"\n\r\t" ∧
      ∃ shown rest, echo (Text.ofString "(a\n \"\\\\\")") = .ok (shown :: rest) ∧
        Shows shown (Text.ofString "(a \"\\\\\")") := by
  obtain ⟨-, hvalue, -, -, hecho⟩ := quote_reads_back (Text.ofString "\\\"\n\r\t")
  exact ⟨hvalue, hecho _ _ (by decide +kernel)⟩

end Statement

end SexpEditing
