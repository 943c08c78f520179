/-!
# Text

A text is a list of 16-bit units, the units that every offset, length and column of an editor
counts. A character beyond the basic plane takes two units, and a cut between them leaves an
ordinary text that is not well-formed; no operation here minds.

## Main definitions

* `CodeUnit`, `Text`: one unit, and a sequence of them
* `Text.ofString`, `Text.ofInt`: the units of a string and of a decimal number
* `Text.slice`: the part between two offsets, in either order, clamped to the text
* `Text.precedes`: the order of texts by their units
-/

namespace SexpEditing

/-- One 16-bit unit of a text. -/
abbrev CodeUnit := UInt16

/-- A sequence of 16-bit units. -/
abbrev Text := List CodeUnit

namespace CodeUnit

@[match_pattern] abbrev tab : CodeUnit := 0x09
@[match_pattern] abbrev lineFeed : CodeUnit := 0x0A
@[match_pattern] abbrev carriageReturn : CodeUnit := 0x0D
@[match_pattern] abbrev space : CodeUnit := 0x20
@[match_pattern] abbrev quotationMark : CodeUnit := 0x22
@[match_pattern] abbrev apostrophe : CodeUnit := 0x27
@[match_pattern] abbrev leftParen : CodeUnit := 0x28
@[match_pattern] abbrev rightParen : CodeUnit := 0x29
@[match_pattern] abbrev asterisk : CodeUnit := 0x2A
@[match_pattern] abbrev plusSign : CodeUnit := 0x2B
@[match_pattern] abbrev comma : CodeUnit := 0x2C
@[match_pattern] abbrev hyphen : CodeUnit := 0x2D
@[match_pattern] abbrev fullStop : CodeUnit := 0x2E
@[match_pattern] abbrev slash : CodeUnit := 0x2F
@[match_pattern] abbrev colon : CodeUnit := 0x3A
@[match_pattern] abbrev semicolon : CodeUnit := 0x3B
@[match_pattern] abbrev questionMark : CodeUnit := 0x3F
@[match_pattern] abbrev atSign : CodeUnit := 0x40
@[match_pattern] abbrev leftBracket : CodeUnit := 0x5B
@[match_pattern] abbrev backslash : CodeUnit := 0x5C
@[match_pattern] abbrev rightBracket : CodeUnit := 0x5D
@[match_pattern] abbrev lowLine : CodeUnit := 0x5F
@[match_pattern] abbrev backquote : CodeUnit := 0x60
@[match_pattern] abbrev letterN : CodeUnit := 0x6E
@[match_pattern] abbrev letterR : CodeUnit := 0x72
@[match_pattern] abbrev letterT : CodeUnit := 0x74
@[match_pattern] abbrev leftBrace : CodeUnit := 0x7B
@[match_pattern] abbrev rightBrace : CodeUnit := 0x7D

/-- The decimal digits. -/
def isDigit (c : CodeUnit) : Bool := 0x30 ≤ c && c ≤ 0x39

/-- The letters of the basic Latin alphabet. -/
def isLetter (c : CodeUnit) : Bool := (0x41 ≤ c && c ≤ 0x5A) || (0x61 ≤ c && c ≤ 0x7A)

/-- The first half of a pair that stands for one character beyond the basic plane. -/
def isHighSurrogate (c : CodeUnit) : Bool := 0xD800 ≤ c && c ≤ 0xDBFF

/-- The second half of such a pair. -/
def isLowSurrogate (c : CodeUnit) : Bool := 0xDC00 ≤ c && c ≤ 0xDFFF

/-- The units of one character: one unit in the basic plane, a surrogate pair beyond it. -/
def ofCodePoint (n : Nat) : List CodeUnit :=
  if n < 0x10000 then [UInt16.ofNat n]
  else
    [UInt16.ofNat (0xD800 + (n - 0x10000) / 0x400), UInt16.ofNat (0xDC00 + (n - 0x10000) % 0x400)]

end CodeUnit

namespace Text

/-- The units of a string. -/
def ofString (s : String) : Text := s.toList.flatMap fun c => CodeUnit.ofCodePoint c.toNat

/-- The decimal digits of an integer, after a minus sign if it is negative. -/
def ofInt (n : Int) : Text := ofString (toString n)

/-- The nearest offset that lies in the text. -/
def clamp (t : Text) (offset : Int) : Nat := min offset.toNat t.length

/-- The units between two offsets, which may be given in either order and may lie outside. -/
def slice (t : Text) (first second : Int) : Text :=
  let lo := min (t.clamp first) (t.clamp second)
  let hi := max (t.clamp first) (t.clamp second)
  (t.take hi).drop lo

/-- Texts are ordered by the first unit in which they differ, a shorter one before its
continuations. -/
def precedes (s t : Text) : Bool := decide (s < t)

/-- Sorts texts by their units. -/
def sort (ts : List Text) : List Text := ts.mergeSort fun s t => !precedes t s

section Order

variable {s t u : Text}

theorem precedes_iff : s.precedes t = true ↔ s < t := decide_eq_true_iff

theorem precedes_eq_false_iff : s.precedes t = false ↔ t ≤ s :=
  decide_eq_false_iff_not.trans List.not_lt

theorem precedes_irrefl (t : Text) : t.precedes t = false :=
  precedes_eq_false_iff.mpr (List.le_refl t)

theorem precedes_trans (hst : s.precedes t = true) (htu : t.precedes u = true) :
    s.precedes u = true :=
  precedes_iff.mpr (List.lt_trans (precedes_iff.mp hst) (precedes_iff.mp htu))

theorem not_precedes_trans (hts : t.precedes s = false) (hut : u.precedes t = false) :
    u.precedes s = false :=
  precedes_eq_false_iff.mpr
    (List.le_trans (precedes_eq_false_iff.mp hts) (precedes_eq_false_iff.mp hut))

theorem not_precedes_total (s t : Text) : t.precedes s = false ∨ s.precedes t = false :=
  (List.le_total s t).imp precedes_eq_false_iff.mpr precedes_eq_false_iff.mpr

/-- Two texts neither of which precedes the other are the same. -/
theorem eq_of_not_precedes (hst : s.precedes t = false) (hts : t.precedes s = false) : s = t :=
  List.le_antisymm (precedes_eq_false_iff.mp hts) (precedes_eq_false_iff.mp hst)

end Order

theorem pairwise_sort (ts : List Text) : (sort ts).Pairwise fun s t => t.precedes s = false := by
  have h : (sort ts).Pairwise fun s t => (!precedes t s) = true := by
    refine List.pairwise_mergeSort (fun _ _ _ hst htu => ?_) (fun s t => ?_) ts
    · simpa using not_precedes_trans (by simpa using hst) (by simpa using htu)
    · simpa using not_precedes_total s t
  exact h.imp fun hts => by simpa using hts

theorem clamp_le_length (t : Text) (offset : Int) : t.clamp offset ≤ t.length :=
  Nat.min_le_right _ _

theorem clamp_of_mem (t : Text) {n : Nat} (h : n ≤ t.length) : t.clamp n = n := by
  simp [clamp, h]

/-- The part between what stands before it and what stands after it. -/
theorem slice_append (before part after : Text) :
    slice (before ++ part ++ after) before.length (before.length + part.length) = part := by
  have hlo : clamp (before ++ part ++ after) before.length = before.length :=
    clamp_of_mem _ (by simp only [List.length_append]; omega)
  have hhi : clamp (before ++ part ++ after) (before.length + part.length) =
      before.length + part.length := by
    rw [← Int.natCast_add]
    exact clamp_of_mem _ (by simp only [List.length_append]; omega)
  rw [slice, hlo, hhi, Nat.min_eq_left (by omega), Nat.max_eq_right (by omega), List.append_assoc,
    List.take_length_add_append, List.drop_left, List.take_left]

end Text

end SexpEditing
