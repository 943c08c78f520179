import SexpEditing.Symbol.Category

/-!
# Classifying names by prefix

Names that no file defines are classified by how they begin. Of the prefixes that fit, the longest
one decides, and of equally long ones the one given first.

## Main definitions

* `PrefixRules.ofList`: a rule table, longer prefixes first
* `PrefixRules.classify`: the category of a name
* `CategoryPrefixes`, `CategoryPrefixes.rules`: prefixes as they are set, and their rule table
-/

namespace SexpEditing

/-- Names that begin with `start` belong to `category`, or to no category at all. -/
structure PrefixRule where
  category : Option SymbolCategory
  start : Text
deriving DecidableEq, Repr

/-- Rules in the order in which they are tried. -/
structure PrefixRules where
  rules : List PrefixRule
deriving DecidableEq, Repr

namespace PrefixRules

/-- Longer prefixes are tried first; equally long ones keep the given order. -/
def ofList (rules : List PrefixRule) : PrefixRules :=
  ⟨rules.mergeSort fun a b => decide (b.start.length ≤ a.start.length)⟩

/-- The category of the first rule that fits a name. -/
def classify (table : PrefixRules) (name : Text) : Option SymbolCategory :=
  (table.rules.find? fun rule => rule.start.isPrefixOf name).bind PrefixRule.category

end PrefixRules

/-- The prefixes of each category, for the categories that have any. -/
structure CategoryPrefixes where
  functions : Option (List Text)
  forms : Option (List Text)
  classes : Option (List Text)
  methods : Option (List Text)
deriving DecidableEq, Repr

namespace CategoryPrefixes

/-- No category has prefixes. -/
def empty : CategoryPrefixes := ⟨none, none, none, none⟩

/-- The prefixes of a category, if any are set. -/
def get? (p : CategoryPrefixes) : SymbolCategory → Option (List Text)
  | .functions => p.functions
  | .forms => p.forms
  | .classes => p.classes
  | .methods => p.methods

/-- Sets the prefixes of a category. -/
def set (p : CategoryPrefixes) (c : SymbolCategory) (starts : List Text) : CategoryPrefixes :=
  match c with
  | .functions => { p with functions := some starts }
  | .forms => { p with forms := some starts }
  | .classes => { p with classes := some starts }
  | .methods => { p with methods := some starts }

/-- The rules in the order of the categories. Empty prefixes give no rule. -/
def ruleList (p : CategoryPrefixes) : List PrefixRule :=
  SymbolCategory.all.flatMap fun c =>
    (((p.get? c).getD []).filter fun start => !start.isEmpty).map fun start => ⟨some c, start⟩

/-- The rule table of the prefixes. -/
def rules (p : CategoryPrefixes) : PrefixRules := .ofList p.ruleList

@[simp] theorem get?_set_self (p : CategoryPrefixes) (c : SymbolCategory) (starts : List Text) :
    (p.set c starts).get? c = some starts := by
  cases c <;> rfl

theorem get?_set_of_ne (p : CategoryPrefixes) {c c' : SymbolCategory} (h : c' ≠ c)
    (starts : List Text) : (p.set c starts).get? c' = p.get? c' := by
  cases c <;> cases c' <;> first | rfl | exact absurd rfl h

end CategoryPrefixes

end SexpEditing
