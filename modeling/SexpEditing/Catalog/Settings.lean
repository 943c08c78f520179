import SexpEditing.Symbol.Ranking

/-!
# Catalogue settings

Which files the symbol catalogue is built from.

## Main definitions

* `CatalogSettings`, `CatalogSettings.standard`: settings, and those used where nothing is set
* `CatalogSettings.rootLevels`: how many levels below a root are searched
* `CatalogSettings.prefixRules`: the rules that classify names by their prefixes
-/

namespace SexpEditing

/-- Which files the symbol catalogue is built from. -/
structure CatalogSettings where
  /-- Directories that hold declaration files. -/
  docRoots : List Text
  /-- Directories that hold source files. -/
  sourceRoots : List Text
  recursive : Bool
  /-- How many levels below a root are searched if `recursive` is set. -/
  maxDepth : Nat
  docExtensions : List Text
  sourceExtensions : List Text
  /-- If there are any, a declared name is kept only if it begins with one of these. -/
  docPrefixes : List Text
  /-- How names that are not in the catalogue are classified. -/
  categoryPrefixes : CategoryPrefixes
deriving DecidableEq, Repr

namespace CatalogSettings

/-- The settings that hold where nothing is set. -/
def standard : CatalogSettings where
  docRoots := []
  sourceRoots := []
  recursive := true
  maxDepth := 8
  docExtensions := [.ofString ".fnd"]
  sourceExtensions := [.ofString ".il", .ofString ".ils"]
  docPrefixes := []
  categoryPrefixes := .empty

/-- How many levels below a root are searched. -/
def rootLevels (s : CatalogSettings) : Nat := if s.recursive then s.maxDepth else 0

/-- The prefixes of a category with their ranks: those that are set, or else those that are
inherited. Empty prefixes that are set give no rule. -/
def rankedPrefixes (s : CatalogSettings) (inherited : List (SymbolCategory × RankedPrefix))
    (c : SymbolCategory) : List (SymbolCategory × RankedPrefix) :=
  match s.categoryPrefixes.get? c with
  | some starts =>
    (starts.filter fun start => !start.isEmpty).map fun start => (c, RankedPrefix.ofText start)
  | none => inherited.filter fun p => p.1 == c

/-- The rules that classify names by their prefixes. -/
def prefixRules (s : CatalogSettings) (inherited : List (SymbolCategory × RankedPrefix)) :
    PrefixRules :=
  if inherited.isEmpty then s.categoryPrefixes.rules
  else .ofRanked (SymbolCategory.all.flatMap (s.rankedPrefixes inherited))

end CatalogSettings

end SexpEditing
