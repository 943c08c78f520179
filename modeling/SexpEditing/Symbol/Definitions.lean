import SexpEditing.Symbol.Category
import SexpEditing.Text.Space

/-!
# Definitions in source text

Definitions are found line by line, without parsing: a defining word and a name, either in a list
`(word name` or as a call `word(name`. What follows the first semicolon of a line that is in no
string is a comment and defines nothing.

## Main definitions

* `definingWords`: the words that define, with the category of what they define
* `SourceDefinition.inList?`, `SourceDefinition.inCall?`: a definition at the front of a text
* `SourceDefinition.matchesFrom`: the definitions of a line, comments included, with their places
* `SourceDefinition.commentStart`: where the comment of a line begins
* `SourceDefinition.ofText`: the definitions of a text
-/

namespace SexpEditing

open CodeUnit

/-- The words that define, with the category of what they define. No word begins another one. -/
def definingWords : List (Text × SymbolCategory) :=
  [("defun", .functions), ("procedure", .functions), ("globalProc", .functions),
    ("defmacro", .forms), ("mprocedure", .forms), ("nprocedure", .forms),
    ("defclass", .classes),
    ("defmethod", .methods), ("defgeneric", .methods)].map fun (word, category) =>
      (Text.ofString word, category)

/-- A definition in a source text. -/
structure SourceDefinition where
  category : SymbolCategory
  name : Text
  /-- The number of the line on which it starts. -/
  line : Nat
deriving DecidableEq, Repr

/-- A definition in a line. -/
structure LineDefinition where
  category : SymbolCategory
  name : Text
  /-- The offset in the line at which it starts. -/
  start : Nat
deriving DecidableEq, Repr

namespace SourceDefinition

/-- The units that may begin a name. -/
def isNameStart (c : CodeUnit) : Bool := c.isLetter || c == lowLine

/-- The units that make up words: a call may begin only where none of them precedes. -/
def isWordUnit (c : CodeUnit) : Bool := isNameStart c || c.isDigit

/-- The units that may stand in a name after its first one. -/
def isNameUnit (c : CodeUnit) : Bool := isWordUnit c || c == questionMark

/-- The text after a word, if a text begins with it. -/
def after? : (word t : Text) → Option Text
  | [], t => some t
  | w :: word, c :: t => if w = c then after? word t else none
  | _ :: _, [] => none

/-- The defining word at the front of a text, as its category and the text after it. -/
def word? (t : Text) : Option (SymbolCategory × Text) :=
  definingWords.findSome? fun (word, category) =>
    (after? word t).map fun rest => (category, rest)

/-- The longest name at the front of a text, and the text after it. -/
def name? : Text → Option (Text × Text)
  | [] => none
  | c :: rest =>
    if isNameStart c then some (c :: rest.takeWhile isNameUnit, rest.dropWhile isNameUnit)
    else none

/-- A definition in a list, at the front of a text: an opening delimiter, a defining word and a
name. White space may stand before the word and must stand after it. -/
def inList? : Text → Option (SymbolCategory × Text × Text)
  | leftParen :: t => do
    let (category, rest) ← word? (t.dropWhile isSpace)
    if rest.head?.any isSpace then
      let (name, rest) ← name? (rest.dropWhile isSpace)
      return (category, name, rest)
    else
      none
  | _ => none

/-- A definition as a call, at the front of a text: a defining word, an opening delimiter directly
after it, and a name, before which white space may stand. -/
def inCall? (t : Text) : Option (SymbolCategory × Text × Text) := do
  let (category, rest) ← word? t
  match rest with
  | leftParen :: rest =>
    let (name, rest) ← name? (rest.dropWhile isSpace)
    return (category, name, rest)
  | _ => none

/-- A definition at the front of a text: its category, its name and the text after it. A call
counts only if no unit of a word precedes it. -/
def here? (before : Option CodeUnit) (t : Text) : Option (SymbolCategory × Text × Text) :=
  (inList? t).or (if before.any isWordUnit then none else inCall? t)

theorem eq_append_of_after? {word t rest : Text} (h : after? word t = some rest) :
    t = word ++ rest := by
  fun_induction after? word t with
  | case1 => simp_all
  | case2 _ _ _ ih => simp [ih h]
  | case3 => simp at h
  | case4 => simp at h

theorem length_le_of_word? {t rest : Text} {category : SymbolCategory}
    (h : word? t = some (category, rest)) : rest.length ≤ t.length := by
  obtain ⟨⟨word, c⟩, _, hw⟩ := List.exists_of_findSome?_eq_some h
  obtain ⟨r, hr, he⟩ := Option.map_eq_some_iff.1 hw
  cases he
  simp [eq_append_of_after? hr]

theorem length_lt_of_name? {t name rest : Text} (h : name? t = some (name, rest)) :
    rest.length < t.length := by
  unfold name? at h
  split at h
  · simp at h
  · next c r =>
    split at h
    · cases h
      exact Nat.lt_succ_of_le (List.dropWhile_suffix _).length_le
    · simp at h

theorem length_dropWhile_le (p : CodeUnit → Bool) (t : Text) :
    (t.dropWhile p).length ≤ t.length := (List.dropWhile_suffix p).length_le

theorem length_lt_of_inList? {t name rest : Text} {category : SymbolCategory}
    (h : inList? t = some (category, name, rest)) : rest.length < t.length := by
  fun_cases inList? t with
  | case1 t =>
    simp only [inList?, Option.bind_eq_bind, Option.bind_eq_some_iff, Prod.exists] at h
    obtain ⟨c, r, hw, h⟩ := h
    split at h
    · simp only [Option.bind_eq_some_iff, Prod.exists] at h
      obtain ⟨n, r', hn, h⟩ := h
      cases h
      have h₁ := length_le_of_word? hw
      have h₂ := length_lt_of_name? hn
      have h₃ := length_dropWhile_le isSpace t
      have h₄ := length_dropWhile_le isSpace r
      simp only [List.length_cons]
      omega
    · simp at h
  | case2 => simp_all [inList?]

theorem length_lt_of_inCall? {t name rest : Text} {category : SymbolCategory}
    (h : inCall? t = some (category, name, rest)) : rest.length < t.length := by
  simp only [inCall?, Option.bind_eq_bind, Option.bind_eq_some_iff, Prod.exists] at h
  obtain ⟨c, r, hw, h⟩ := h
  have h₁ := length_le_of_word? hw
  split at h
  · next more =>
    simp only [Option.bind_eq_some_iff, Prod.exists] at h
    obtain ⟨n, r', hn, h⟩ := h
    cases h
    have h₂ := length_lt_of_name? hn
    have h₃ := length_dropWhile_le isSpace more
    simp only [List.length_cons] at h₁
    omega
  · simp at h

/-- What follows a definition is shorter than the text that begins with it. -/
theorem length_lt_of_here? {before : Option CodeUnit} {t name rest : Text}
    {category : SymbolCategory} (h : here? before t = some (category, name, rest)) :
    rest.length < t.length := by
  rcases Option.or_eq_some_iff.1 h with h | ⟨_, h⟩
  · exact length_lt_of_inList? h
  · split at h
    · simp at h
    · exact length_lt_of_inCall? h

/-- The definitions of a text that starts at an offset of its line, after the unit `before`. After
a definition, the search goes on behind its name. -/
def matchesFrom (before : Option CodeUnit) (offset : Nat) (t : Text) : List LineDefinition :=
  match t with
  | [] => []
  | c :: rest =>
    match _h : here? before (c :: rest) with
    | some (category, name, after) =>
      ⟨category, name, offset⟩ ::
        matchesFrom name.getLast? (offset + ((c :: rest).length - after.length)) after
    | none => matchesFrom (some c) (offset + 1) rest
termination_by t.length
decreasing_by
  · exact length_lt_of_here? _h
  · simp

/-- The number of units before the first semicolon that is in no string, or of all units if there
is none. A backslash in a string takes the unit after it along. -/
def commentStartFrom (inString : Bool) : Text → Nat
  | [] => 0
  | backslash :: c :: rest =>
    if inString then commentStartFrom true rest + 2 else commentStartFrom false (c :: rest) + 1
  | c :: rest =>
    if inString then commentStartFrom (c != quotationMark) rest + 1
    else if c = semicolon then 0
    else commentStartFrom (c == quotationMark) rest + 1

/-- The offset at which the comment of a line begins, or the length of a line without one. -/
def commentStart (line : Text) : Nat := commentStartFrom false line

/-- The definitions of a line, up to its comment. -/
def inLine (line : Text) : List LineDefinition :=
  (matchesFrom none 0 line).takeWhile fun m => m.start < commentStart line

/-- The lines of a text: it is cut at each line feed, together with a carriage return before it. -/
def lines : Text → List Text
  | [] => [[]]
  | carriageReturn :: lineFeed :: rest => [] :: lines rest
  | lineFeed :: rest => [] :: lines rest
  | c :: rest =>
    match lines rest with
    | [] => [[c]]
    | line :: more => (c :: line) :: more

/-- The definitions of lines, the first of which has a number. -/
def ofLines (number : Nat) : List Text → List SourceDefinition
  | [] => []
  | line :: rest =>
    ((inLine line).map fun m => ⟨m.category, m.name, number⟩) ++ ofLines (number + 1) rest

/-- The definitions of a text, in order. -/
def ofText (t : Text) : List SourceDefinition := ofLines 0 (lines t)

end SourceDefinition

end SexpEditing
