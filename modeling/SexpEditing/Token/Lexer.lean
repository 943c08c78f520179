import SexpEditing.Text.Space
import SexpEditing.Token.Basic

/-!
# Splitting a text into lexemes

Each step takes one lexeme off the front of a text. The lexemes cover the text from its start; they
stop early only at a string or a block comment that has no end, since the text is assumed to be in
the middle of an edit.

## Main definitions

* `stringTail`, `blockCommentTail`, `atomTail`: the rest of a lexeme after its first units
* `nextLexeme`: the first lexeme of a text, and the text after it
* `lexemes`: all lexemes of a text
* `tokenize`: the lexemes with their places

## Main results

* `nextLexeme_append`: a step loses nothing
* `length_lt_of_nextLexeme`: what a step leaves is shorter
-/

namespace SexpEditing

open CodeUnit

/-- Puts units in front of the first part of a split text. -/
def prepend (front : Text) (split : Text × Text) : Text × Text := (front ++ split.1, split.2)

/-- The rest of a string literal after its opening quotation mark, and the text after it. A
backslash takes the unit after it along. There is none if no closing mark follows. -/
def stringTail : Text → Option (Text × Text)
  | [] => none
  | quotationMark :: rest => some ([quotationMark], rest)
  | backslash :: c :: rest => (stringTail rest).map (prepend [backslash, c])
  | c :: rest => if c = backslash then none else (stringTail rest).map (prepend [c])

/-- The rest of a block comment that still holds `depth` unclosed comments besides itself, and the
text after it. There is none if too few ends follow. -/
def blockCommentTail (depth : Nat) : Text → Option (Text × Text)
  | slash :: asterisk :: rest => (blockCommentTail (depth + 1) rest).map (prepend [slash, asterisk])
  | asterisk :: slash :: rest =>
    match depth with
    | 0 => some ([asterisk, slash], rest)
    | outer + 1 => (blockCommentTail outer rest).map (prepend [asterisk, slash])
  | c :: rest => (blockCommentTail depth rest).map (prepend [c])
  | [] => none

/-- The units that may stand in an atom without a backslash, apart from slashes. -/
def isAtomUnit (c : CodeUnit) : Bool :=
  !(c.isSpace || c == leftParen || c == rightParen || c == quotationMark || c == semicolon ||
    c == backslash || c == slash)

/-- The units that mark an expression as quoted. They may stand in an atom, but not begin one. -/
def isMarkUnit (c : CodeUnit) : Bool := c == apostrophe || c == backquote || c == comma

/-- The longest rest of an atom, and the text after it. A backslash takes the unit after it along,
if there is one; a slash belongs to the atom unless it begins a block comment. -/
def atomTail : Text → Text × Text
  | [] => ([], [])
  | backslash :: c :: rest => prepend [backslash, c] (atomTail rest)
  | slash :: asterisk :: rest => ([], slash :: asterisk :: rest)
  | c :: rest =>
    if isAtomUnit c || c == backslash || c == slash then prepend [c] (atomTail rest)
    else ([], c :: rest)

/-- The first lexeme of a text, and the text after it. There is none at the end of the text, and
none where a string or a block comment begins that has no end. -/
def nextLexeme : Text → Option (Lexeme × Text)
  | [] => none
  | slash :: asterisk :: rest =>
    (blockCommentTail 0 rest).map fun (tail, after) =>
      (⟨.comment, slash :: asterisk :: tail⟩, after)
  | comma :: atSign :: rest => some (⟨.mark, [comma, atSign]⟩, rest)
  | c :: rest =>
    if c.isSpace then
      some (⟨.space, c :: rest.takeWhile isSpace⟩, rest.dropWhile isSpace)
    else if c = semicolon then
      some (⟨.comment, c :: rest.takeWhile fun d => d != lineFeed && d != carriageReturn⟩,
        rest.dropWhile fun d => d != lineFeed && d != carriageReturn)
    else if c = leftParen then
      some (⟨.opener, [c]⟩, rest)
    else if c = rightParen then
      some (⟨.closer, [c]⟩, rest)
    else if c = quotationMark then
      (stringTail rest).map fun (tail, after) => (⟨.string, c :: tail⟩, after)
    else if isMarkUnit c then
      some (⟨.mark, [c]⟩, rest)
    else
      let (text, after) := atomTail (c :: rest)
      some (⟨.atom, text⟩, after)

/-! ### A step loses nothing -/

@[simp] theorem prepend_fst (front : Text) (split : Text × Text) :
    (prepend front split).1 = front ++ split.1 := rfl

@[simp] theorem prepend_snd (front : Text) (split : Text × Text) :
    (prepend front split).2 = split.2 := rfl

theorem stringTail_append {t tail after : Text} (h : stringTail t = some (tail, after)) :
    tail ++ after = t := by
  fun_induction stringTail t generalizing tail after with
  | case1 => simp at h
  | case2 rest => simp at h; simp [← h.1, ← h.2]
  | case3 c rest ih =>
    obtain ⟨⟨x, y⟩, hxy, he⟩ := Option.map_eq_some_iff.1 h
    simp only [prepend, Prod.mk.injEq] at he
    simp [← he.1, ← he.2, ih hxy]
  | case4 => simp at h
  | case5 c rest _ _ _ ih =>
    obtain ⟨⟨x, y⟩, hxy, he⟩ := Option.map_eq_some_iff.1 h
    simp only [prepend, Prod.mk.injEq] at he
    simp [← he.1, ← he.2, ih hxy]

theorem blockCommentTail_append {depth : Nat} {t tail after : Text}
    (h : blockCommentTail depth t = some (tail, after)) : tail ++ after = t := by
  fun_induction blockCommentTail depth t generalizing tail after with
  | case2 rest => simp at h; simp [← h.1, ← h.2]
  | case5 => simp at h
  | case1 depth rest ih | case3 outer rest ih | case4 depth c rest _ _ ih =>
    obtain ⟨⟨x, y⟩, hxy, he⟩ := Option.map_eq_some_iff.1 h
    simp only [prepend, Prod.mk.injEq] at he
    simp [← he.1, ← he.2, ih hxy]

theorem atomTail_append (t : Text) : (atomTail t).1 ++ (atomTail t).2 = t := by
  fun_induction atomTail t <;> simp_all

/-- **A step loses nothing**: the lexeme and the text after it make up the text. -/
theorem nextLexeme_append {t after : Text} {l : Lexeme} (h : nextLexeme t = some (l, after)) :
    l.text ++ after = t := by
  revert h
  fun_cases nextLexeme t with
  | case1 => simp
  | case2 rest =>
    intro h
    obtain ⟨⟨x, y⟩, hxy, he⟩ := Option.map_eq_some_iff.1 h
    simp only [Prod.mk.injEq] at he
    simp [← he.1, ← he.2, blockCommentTail_append hxy]
  | case8 rest =>
    intro h
    obtain ⟨⟨x, y⟩, hxy, he⟩ := Option.map_eq_some_iff.1 h
    simp only [Prod.mk.injEq] at he
    simp [← he.1, ← he.2, stringTail_append hxy]
  | case10 c rest _ _ _ _ _ _ _ _ tail after' he =>
    rintro ⟨⟩
    simpa [he] using atomTail_append (c :: rest)
  | case3 | case4 | case5 | case6 | case7 | case9 =>
    rintro ⟨⟩
    simp

theorem atomTail_ne_nil {c : CodeUnit} {rest : Text}
    (h : isAtomUnit c || c == backslash || c == slash)
    (hs : ∀ r, c = slash → rest ≠ asterisk :: r) : (atomTail (c :: rest)).1 ≠ [] := by
  rw [atomTail.eq_def]
  split
  · contradiction
  · simp
  · next heq =>
    cases heq
    exact absurd rfl (hs _ rfl)
  · next heq =>
    cases heq
    simp [h]

/-- Every unit that begins no other lexeme may stand in an atom. -/
theorem isAtomUnit_or_of_not {c : CodeUnit} (h₁ : c.isSpace = false) (h₂ : c ≠ semicolon)
    (h₃ : c ≠ leftParen) (h₄ : c ≠ rightParen) (h₅ : c ≠ quotationMark) :
    isAtomUnit c || c == backslash || c == slash := by
  simp [isAtomUnit, h₁, h₂, h₃, h₄, h₅]
  by_cases hb : c = backslash <;> by_cases hs : c = slash <;> simp [hb, hs]

/-- A lexeme is never empty. -/
theorem text_ne_nil_of_nextLexeme {t after : Text} {l : Lexeme}
    (h : nextLexeme t = some (l, after)) : l.text ≠ [] := by
  revert h
  fun_cases nextLexeme t with
  | case1 => simp
  | case2 rest =>
    intro h
    obtain ⟨⟨x, y⟩, hxy, he⟩ := Option.map_eq_some_iff.1 h
    simp only [Prod.mk.injEq] at he
    simp [← he.1]
  | case8 rest =>
    intro h
    obtain ⟨⟨x, y⟩, hxy, he⟩ := Option.map_eq_some_iff.1 h
    simp only [Prod.mk.injEq] at he
    simp [← he.1]
  | case10 c rest hs _ h₁ h₂ h₃ h₄ h₅ _ tail after' he =>
    rintro ⟨⟩
    have := atomTail_ne_nil (isAtomUnit_or_of_not (by simpa using h₁) h₂ h₃ h₄ h₅) hs
    simpa [he] using this
  | case3 | case4 | case5 | case6 | case7 | case9 =>
    rintro ⟨⟩
    simp

/-- What a step leaves is shorter than the text it was taken from. -/
theorem length_lt_of_nextLexeme {t after : Text} {l : Lexeme}
    (h : nextLexeme t = some (l, after)) : after.length < t.length := by
  have hl := List.length_pos_iff.2 (text_ne_nil_of_nextLexeme h)
  rw [← nextLexeme_append h, List.length_append]
  omega

/-! ### All lexemes -/

/-- The lexemes of a text, up to the end of the text or to a string or block comment that has no
end. -/
def lexemes (t : Text) : List Lexeme :=
  match _h : nextLexeme t with
  | none => []
  | some (l, after) => l :: lexemes after
termination_by t.length
decreasing_by exact length_lt_of_nextLexeme _h

/-- The lexemes of a text with their places. -/
def tokenize (t : Text) : List Token := Lexeme.layOut 0 (lexemes t)

theorem lexemes_of_none {t : Text} (h : nextLexeme t = none) : lexemes t = [] := by
  rw [lexemes]
  split
  · rfl
  · next h' => simp [h] at h'

theorem lexemes_of_some {t after : Text} {l : Lexeme} (h : nextLexeme t = some (l, after)) :
    lexemes t = l :: lexemes after := by
  rw [lexemes]
  split
  · next h' => simp [h] at h'
  · next h' => simp only [h, Option.some.injEq, Prod.mk.injEq] at h'; simp [h'.1, h'.2]

end SexpEditing
