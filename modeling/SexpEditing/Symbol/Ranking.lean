import SexpEditing.Sorting.Runs
import SexpEditing.Number.Binary64
import SexpEditing.Symbol.Prefixes

/-!
# Ranked prefixes

Prefixes that are not checked need not be strings. Such a prefix has a start that names are compared
with, if there is a text for it, and a rank, if it has a length. Of two prefixes with ranks the one
of the higher rank comes first; prefixes of equal ranks keep the given order, and so do two of which
one has no rank. This orders the prefixes only if all of them have ranks: with others, the place of
each depends on the way in which they are sorted.

## Main definitions

* `RankedPrefix`: a start and a rank
* `RankedRule`: a rule for a ranked prefix
* `PrefixRules.ofRanked`: a rule table, higher ranks first

## Main statements

* `PrefixRules.ofRanked_perm`: each prefix that has a start has one rule
-/

namespace SexpEditing

/-- A prefix that was not checked. -/
structure RankedPrefix where
  /-- What names are compared with, if there is a text for it. -/
  start : Option Text
  /-- The length of the prefix, if it has one. -/
  rank : Option Decimal
deriving DecidableEq, Repr

/-- The rank of a string is its length. -/
def RankedPrefix.ofText (start : Text) : RankedPrefix :=
  ⟨some start, some (.ofNat start.length)⟩

/-- A rule for a ranked prefix, and its place among the rules as they are given. -/
structure RankedRule where
  category : SymbolCategory
  ranked : RankedPrefix
  place : Nat
deriving DecidableEq, Repr

namespace RankedRule

/-- Whether a rule is tried before another one. -/
def before (a b : RankedRule) : Bool :=
  match a.ranked.rank, b.ranked.rank with
  | some m, some n => if m.sameNumber n then a.place < b.place else n.units < m.units
  | some _, none => a.place < b.place
  | none, _ => a.place < b.place

/-- The rule without its rank, if names can be compared with the prefix. -/
def rule? (a : RankedRule) : Option PrefixRule :=
  a.ranked.start.map fun start => ⟨some a.category, start⟩

end RankedRule

/-- Higher ranks are tried first, as far as there are ranks. -/
def PrefixRules.ofRanked (prefixes : List (SymbolCategory × RankedPrefix)) : PrefixRules :=
  let rules := prefixes.zipIdx.map fun ((category, ranked), place) =>
    RankedRule.mk category ranked place
  ⟨(sortByRuns RankedRule.before rules).filterMap RankedRule.rule?⟩

/-- Each prefix that has a start has one rule, with its category. -/
theorem PrefixRules.ofRanked_perm (prefixes : List (SymbolCategory × RankedPrefix)) :
    (PrefixRules.ofRanked prefixes).rules.Perm
      (prefixes.filterMap fun p => p.2.start.map fun start => ⟨some p.1, start⟩) := by
  refine ((sortByRuns_perm _ _).filterMap _).trans (List.Perm.of_eq ?_)
  rw [List.filterMap_map, ← congrArg (List.filterMap _) (List.zipIdx_map_fst 0 prefixes),
    List.filterMap_map]
  rfl

end SexpEditing
