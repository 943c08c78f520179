import SexpEditing.Text.Basic

/-!
# Texts in search patterns

## Main definitions

* `Text.escapePattern`: a search pattern that fits a text literally
-/

namespace SexpEditing.Text

open CodeUnit

/-- The units that have a meaning of their own in search patterns. -/
def patternUnits : Text := ofString ".*+?^$\x7b\x7d()|[]\\"

/-- A search pattern that fits a text literally: units with a meaning of their own are put after a
backslash. -/
def escapePattern (t : Text) : Text :=
  t.flatMap fun c => if patternUnits.contains c then [backslash, c] else [c]

end SexpEditing.Text
