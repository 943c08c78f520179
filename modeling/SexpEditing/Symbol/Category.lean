import SexpEditing.Text.Basic

/-!
# Categories of symbols

## Main definitions

* `SymbolCategory`: functions, forms, classes and methods, in the order in which they are looked up
* `SymbolCategory.key`, `SymbolCategory.friendlyName`: how settings and people call a category
* `SymbolCategory.number`, `SymbolCategory.ofNumber`: the place of a category in that order
-/

namespace SexpEditing

/-- What a name stands for. -/
inductive SymbolCategory
  | functions
  | forms
  | classes
  | methods
deriving DecidableEq, Repr

/-- Why a number names no category. -/
inductive CategoryError
  | unexpectedNumber (n : Int)
deriving DecidableEq, Repr

/-- The wording of an error. -/
def CategoryError.message : CategoryError → String
  | .unexpectedNumber n => s!"unexpected value: {n}"

namespace SymbolCategory

/-- Every category, in the order in which they are looked up. -/
def all : List SymbolCategory := [.functions, .forms, .classes, .methods]

/-- The key of a category in settings. -/
def key : SymbolCategory → String
  | .functions => "function"
  | .forms => "form"
  | .classes => "class"
  | .methods => "method"

/-- The category with a key. -/
def ofKey? (key : Text) : Option SymbolCategory := all.find? fun c => Text.ofString c.key == key

/-- The name of a category in messages. -/
def friendlyName : SymbolCategory → String
  | .functions => "Function"
  | .forms => "Macro"
  | .classes => "Class"
  | .methods => "Method"

/-- The place of a category in the order of look-ups. -/
def number (c : SymbolCategory) : Nat := all.idxOf c

/-- The category at a place in the order of look-ups. -/
def ofNumber (n : Int) : Except CategoryError SymbolCategory :=
  match if 0 ≤ n then all[n.toNat]? else none with
  | some c => .ok c
  | none => .error (.unexpectedNumber n)

theorem mem_all (c : SymbolCategory) : c ∈ all := by cases c <;> decide

@[simp] theorem ofKey?_key (c : SymbolCategory) : ofKey? (Text.ofString c.key) = some c := by
  cases c <;> rfl

@[simp] theorem ofNumber_number (c : SymbolCategory) : ofNumber c.number = .ok c := by
  cases c <;> rfl

end SymbolCategory

end SexpEditing
