import SexpEditing.Proofs.Indent.Edits

/-!
# Indentation and the tokens of a program

Indenting is meant to change nothing but blanks between tokens. Strings and comments that span lines
are left alone; an atom that takes in an escaped line break is not, and blanks that come or go
behind the break cut the atom in two, or put it together with what follows.

## Main results

* `Document.indent_tokens_iff`: exactly when the significant tokens stay
* `Document.indent_tokens_joined`: a document in which they do not
-/

namespace SexpEditing

open CodeUnit

namespace Document

/-- **Indenting keeps the significant tokens** of every document exactly if no line that an atom
could go on with loses all its blanks, or gets some where it had none. This holds for one line and
for a region. -/
theorem indent_tokens_iff (d : Document) (table : IndentTable) :
    (∀ offset : Int,
      (significantTokens (d.indentLine offset table).1.text).map Token.toLexeme =
          (significantTokens d.text).map Token.toLexeme ↔
        ∀ line, d.Joined line →
          (d.Flush line ↔ (d.indentLine offset table).1.Flush line)) ∧
    ∀ first last : Int,
      (significantTokens (d.indentRegion first last table).1.text).map Token.toLexeme =
          (significantTokens d.text).map Token.toLexeme ↔
        ∀ line, d.Joined line →
          (d.Flush line ↔ (d.indentRegion first last table).1.Flush line) := by
  constructor
  · intro offset
    exact (d.indentLine_reindents offset table).significant_eq_iff
  · intro first last
    exact (d.indentRegion_reindents first last table).significant_eq_iff

/-- An atom with an escaped line break, and a symbol behind two blanks. At the left margin the
symbol becomes a part of the atom. -/
theorem indent_tokens_joined :
    ¬ ∀ (d : Document) (table : IndentTable) (offset first last : Int),
      (significantTokens (d.indentLine offset table).1.text).map Token.toLexeme =
          (significantTokens d.text).map Token.toLexeme ∧
        (significantTokens (d.indentRegion first last table).1.text).map Token.toLexeme =
          (significantTokens d.text).map Token.toLexeme := by
  intro h
  have h := (h (ofText [0x61, backslash, lineFeed, space, space, 0x62])
    ⟨.empty, [], [], [], [], [], [atSign], 6, 100, 100⟩ 4 0 1).1
  revert h
  decide +kernel

end Document

end SexpEditing
