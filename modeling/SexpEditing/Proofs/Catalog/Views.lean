import Mathlib.Algebra.Ring.Nat
import SexpEditing.Proofs.Catalog.Order
import SexpEditing.Proofs.Catalog.Steps
import SexpEditing.Proofs.Symbol.Prefixes

/-!
# The views of a catalogue

A catalogue keeps its names in two ways, in the order in which they were found and sorted, and
counts them once more. After a build all views show the same names: those that the files define.

## Main definitions

* `CatalogSettings.Defines`: some file defines a name, as a member of a category

## Main results

* `CatalogSnapshot.mem_names_ofFound`, `CatalogSnapshot.contains_ofFound`: both ways to keep a name
* `CatalogSettings.mem_found_progress`: what a scan finds
* `Catalog.views_of_build`: all views after a build
-/

namespace SexpEditing

/-! ### The names of a snapshot -/

namespace CatalogSnapshot

variable {found : List (SymbolCategory × Text)} {category : SymbolCategory} {name : Text}

theorem nodup_found_ofFound : ((ofFound found).found category).Nodup := nodup_eraseDups _

theorem mem_found_ofFound : name ∈ (ofFound found).found category ↔ (category, name) ∈ found := by
  rw [ofFound, List.mem_eraseDups, List.mem_map]
  constructor
  · rintro ⟨⟨c, _⟩, hmem, rfl⟩
    obtain ⟨hfound, hc⟩ := List.mem_filter.mp hmem
    rwa [← beq_iff_eq.mp hc]
  · intro hmem
    exact ⟨_, List.mem_filter.mpr ⟨hmem, by simp⟩, rfl⟩

theorem names_perm_found : ((ofFound found).names category).Perm ((ofFound found).found category) :=
  List.mergeSort_perm _ _

/-- **The sorted names** are those that were found. -/
theorem mem_names_ofFound : name ∈ (ofFound found).names category ↔ (category, name) ∈ found :=
  names_perm_found.mem_iff.trans mem_found_ofFound

/-- **A name belongs to a category** if it stands among the sorted ones. -/
theorem contains_ofFound :
    (ofFound found).contains category name = true ↔ name ∈ (ofFound found).names category := by
  rw [contains, List.contains_iff_mem, names_perm_found.mem_iff]

/-- The sorted names increase, so none stands there twice. -/
theorem pairwise_names_ofFound :
    ((ofFound found).names category).Pairwise fun s t => s.precedes t = true := by
  have hnodup : ((ofFound found).names category).Nodup :=
    names_perm_found.nodup_iff.mpr nodup_found_ofFound
  refine ((Text.pairwise_sort _).and hnodup).imp fun {s t} h => ?_
  obtain ⟨hle, hne⟩ := h
  by_contra hlt
  exact hne (Text.eq_of_not_precedes (Bool.not_eq_true _ ▸ hlt) hle)

theorem size_ofFound :
    (ofFound found).size =
      (SymbolCategory.all.map fun c => ((ofFound found).names c).length).sum := by
  simp only [names_perm_found.length_eq, size, List.sum_eq_foldl, List.foldl_map]

end CatalogSnapshot

/-! ### What a scan finds -/

namespace CatalogSettings

variable (s : CatalogSettings) (fs : FileSystem)

/-- **What the files define**: names of functions stand in the declaration files that can be read,
and names of all categories in the source files that can be read. -/
def Defines (category : SymbolCategory) (name : Text) : Prop :=
  (category = .functions ∧ ∃ file ∈ (s.docsFound fs).files, ∃ text declarations,
    fs.contents file = .ok text ∧ Declarations.ofText text s.docPrefixes = .ok declarations ∧
      name ∈ declarations.names) ∨
  ∃ file ∈ (s.sourcesFound fs).files, ∃ text, fs.contents file = .ok text ∧
    ∃ d ∈ SourceDefinition.ofText text, d.category = category ∧ d.name = name

end CatalogSettings

namespace FileSystem

variable {fs : FileSystem} {category : SymbolCategory} {name file : Text}

theorem mem_entriesOf_declared {starts : List Text} :
    (category, name) ∈ FileYield.entriesOf (fs.declared starts file) ↔
      category = .functions ∧ ∃ text declarations, fs.contents file = .ok text ∧
        Declarations.ofText text starts = .ok declarations ∧ name ∈ declarations.names := by
  rw [declared]
  cases fs.contents file with
  | error cause => simp [Except.bind, Except.map, FileYield.entriesOf]
  | ok text =>
    cases hd : Declarations.ofText text starts <;>
      simp [hd, Except.bind, Except.map, Except.mapError, FileYield.entriesOf, eq_comm, and_comm]

theorem mem_entriesOf_defined :
    (category, name) ∈ FileYield.entriesOf (fs.defined file) ↔
      ∃ text, fs.contents file = .ok text ∧
        ∃ d ∈ SourceDefinition.ofText text, d.category = category ∧ d.name = name := by
  rw [defined]
  cases fs.contents file <;> simp [Except.map, FileYield.entriesOf]

end FileSystem

namespace CatalogSettings

variable {s : CatalogSettings} {fs : FileSystem}

/-- **A scan** finds what the files define. -/
theorem mem_found_progress {category : SymbolCategory} {name : Text} :
    (category, name) ∈ (s.progress fs).found ↔ s.Defines fs category name := by
  rw [progress_eq, yields, List.flatMap_append, List.mem_append, List.flatMap_map, List.flatMap_map,
    List.mem_flatMap, List.mem_flatMap, Defines]
  simp only [FileSystem.mem_entriesOf_declared, FileSystem.mem_entriesOf_defined]
  refine or_congr ?_ Iff.rfl
  constructor
  · rintro ⟨file, hfile, rfl, h⟩
    exact ⟨rfl, file, hfile, h⟩
  · rintro ⟨rfl, file, hfile, h⟩
    exact ⟨file, hfile, rfl, h⟩

end CatalogSettings

/-! ### All views after a build -/

namespace Catalog

section Lookups

variable {c : Catalog} {found : List (SymbolCategory × Text)}
  (h : c.snapshot = CatalogSnapshot.ofFound found) {name : Text}
include h

theorem contains_iff {category : SymbolCategory} :
    c.snapshot.contains category name = true ↔ name ∈ c.names category := by
  rw [names, h, CatalogSnapshot.contains_ofFound]

theorem has_none_iff : c.has name none = true ↔ ∃ category, name ∈ c.names category := by
  simp only [has, List.any_eq_true, SymbolCategory.mem_all, true_and, contains_iff h]

/-- No category holds a name. -/
theorem find?_all_eq_none_iff :
    (SymbolCategory.all.find? fun category => c.snapshot.contains category name) = none ↔
      ∀ category, name ∉ c.names category := by
  simp only [List.find?_eq_none, SymbolCategory.mem_all, forall_const, contains_iff h]

variable {p : CategoryPrefixes} (hrules : c.prefixRules = p.rules)
include hrules

/-- **The category of a name** is the first one that holds it, or the one whose prefix decides. -/
theorem classify_eq_some_iff {category : SymbolCategory} :
    c.classify name = some category ↔
      (name ∈ c.names category ∧
        ∀ earlier, earlier.number < category.number → name ∉ c.names earlier) ∨
      (∀ category, name ∉ c.names category) ∧ p.Decides category name := by
  rw [classify, Option.or_eq_some_iff, SymbolCategory.find?_all_eq_some_iff,
    find?_all_eq_none_iff h, hrules, CategoryPrefixes.classify_eq_some_iff]
  simp only [← Bool.not_eq_true, contains_iff h]

theorem classify_eq_none_iff :
    c.classify name = none ↔ (∀ category, name ∉ c.names category) ∧
      ∀ category, ∀ start ∈ p.startsOf category, ¬start <+: name := by
  rw [classify, Option.or_eq_none_iff, find?_all_eq_none_iff h, hrules,
    CategoryPrefixes.classify_eq_none_iff]

end Lookups

variable (s : CatalogSettings) {os : List Occurrence}

/-- **All views of a catalogue** after a build agree. Before it anything may have happened, but no
scan is under way.

The names of each category increase, so none stands there twice. Look-ups find the names that stand
in a list, and these are the ones that the files define. All lists are counted. A name has the first
category in whose list it stands; a name that stands in none has the category of the longest prefix
that fits, the earliest one if several categories have this prefix, and no category if no prefix
fits. -/
theorem views_of_build (hidle : ((ofSettings s).after os).scans = []) (fs : FileSystem)
    (name : Text) :
    let built := (((ofSettings s).after os).build fs).1
    let stats := (((ofSettings s).after os).build fs).2.1
    (∀ category, (built.names category).Pairwise fun s t => s.precedes t = true) ∧
      (∀ category, built.has name (some category) = true ↔ name ∈ built.names category) ∧
      (built.has name none = true ↔ ∃ category, name ∈ built.names category) ∧
      (∀ category, name ∈ built.names category ↔ s.Defines fs category name) ∧
      stats.symbols = (SymbolCategory.all.map fun c => (built.names c).length).sum ∧
      (∀ category, built.classify name = some category ↔
        (name ∈ built.names category ∧
          ∀ earlier, earlier.number < category.number → name ∉ built.names earlier) ∨
        (∀ c, name ∉ built.names c) ∧ s.categoryPrefixes.Decides category name) ∧
      (built.classify name = none ↔
        (∀ c, name ∉ built.names c) ∧
          ∀ c, ∀ start ∈ s.categoryPrefixes.startsOf c, ¬start <+: name) := by
  intro built stats
  have hsound := sound_after s os
  have hbuild := build_eq (pending_eq_none_iff.mpr hidle) fs
  rw [hsound.settings_eq] at hbuild
  have hsnapshot : built.snapshot = .ofFound (s.progress fs).found := by
    simp only [built, hbuild, ScanProgress.snapshot]
  have hsymbols : stats.symbols = (CatalogSnapshot.ofFound (s.progress fs).found).size := by
    simp only [stats, hbuild, ScanProgress.stats, ScanProgress.snapshot]
  have hrules : built.prefixRules = s.categoryPrefixes.rules := by
    simp only [built, hbuild, prefixRules, withoutScan, hsound.settings_eq, hsound.inherited_eq]
    rfl
  refine ⟨fun category => ?_, fun category => contains_iff hsnapshot, has_none_iff hsnapshot,
    fun category => ?_, ?_, fun category => classify_eq_some_iff hsnapshot hrules,
    classify_eq_none_iff hsnapshot hrules⟩
  · rw [names, hsnapshot]
    exact CatalogSnapshot.pairwise_names_ofFound
  · rw [names, hsnapshot, CatalogSnapshot.mem_names_ofFound, CatalogSettings.mem_found_progress]
  · rw [hsymbols, CatalogSnapshot.size_ofFound]
    simp only [names, hsnapshot]

/-- The file `a` below the root `d` declares the function `f`. -/
theorem views_of_build_declared :
    let s : CatalogSettings := { CatalogSettings.standard with
      docRoots := [[0x64]], docExtensions := [[]] }
    let fs : FileSystem := ⟨fun _ => .ok [⟨[0x61], false⟩], fun _ => .ok (Text.ofString "(f)")⟩
    let built := (((ofSettings s).after []).build fs).1
    ((ofSettings s).after []).scans = [] ∧ [0x66] ∈ built.names .functions ∧
      built.has [0x66] none = true ∧ built.classify [0x66] = some .functions := by
  intro s fs built
  have hfile : [0x64, 0x2F, 0x61] ∈ (s.docsFound fs).files := by
    rw [CatalogSettings.docsFound, CatalogSettings.found_eq]
    decide +kernel
  have hdeclared : Declarations.ofText (Text.ofString "(f)") s.docPrefixes = .ok ⟨[[0x66]], 0⟩ := by
    decide +kernel
  have hidle : ((ofSettings s).after []).scans = [] := rfl
  obtain ⟨-, -, hhas, hnames, -, hclassify, -⟩ := views_of_build s hidle fs [0x66]
  have hmem : [0x66] ∈ built.names .functions :=
    (hnames .functions).mpr
      (.inl ⟨rfl, _, hfile, _, _, rfl, hdeclared, List.mem_singleton_self _⟩)
  refine ⟨hidle, hmem, hhas.mpr ⟨_, hmem⟩, (hclassify .functions).mpr (.inl ⟨hmem, ?_⟩)⟩
  exact fun earlier h => absurd h (Nat.not_lt_zero _)

end Catalog

end SexpEditing
