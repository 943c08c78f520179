import Mathlib.Data.List.Perm.Basic
import SexpEditing.Proofs.Catalog.Scanning

/-!
# The order of listings and roots

In which order directories list their entries, and in which order roots are configured, makes no
difference to a build: searches list the same directories and find the same files, perhaps in
another order, and what the files give is counted and sorted.

## Main definitions

* `FileSystem.Reordered`: two file systems that list their directories in different orders
* `CatalogSettings.Reordered`, `Catalog.Reordered`: settings with their roots in different orders,
  and catalogues with such settings

## Main results

* `FoundFiles.below_perm`: a search finds the same files
* `CatalogSnapshot.ofFound_perm`: names are the same in whatever order they are found
* `Catalog.build_of_reordered`: a build gives the same
-/

namespace SexpEditing

/-! ### Names in order -/

/-- There is only one way to sort texts. -/
theorem Text.sort_eq_of_perm {ts us : List Text} (h : ts.Perm us) : sort ts = sort us := by
  refine List.Perm.eq_of_pairwise (fun a b _ _ hab hba => eq_of_not_precedes hba hab)
    (pairwise_sort ts) (pairwise_sort us) ?_
  exact (List.mergeSort_perm _ _).trans (h.trans (List.mergeSort_perm _ _).symm)

theorem nodup_eraseDups {α : Type} [BEq α] [LawfulBEq α] (l : List α) : l.eraseDups.Nodup := by
  match l with
  | [] => exact List.nodup_nil
  | a :: l =>
    rw [List.eraseDups_cons, List.nodup_cons]
    refine ⟨fun h => ?_, nodup_eraseDups (l.filter fun b => !b == a)⟩
    have := List.mem_filter.mp (List.mem_eraseDups.mp h)
    simp at this
termination_by l.length
decreasing_by exact Nat.lt_succ_of_le (List.length_filter_le _ _)

/-- Two lists with the same members have the same distinct ones. -/
theorem eraseDups_perm {α : Type} [BEq α] [LawfulBEq α] {l l' : List α} (h : l.Perm l') :
    l.eraseDups.Perm l'.eraseDups := by
  rw [List.perm_ext_iff_of_nodup (nodup_eraseDups l) (nodup_eraseDups l')]
  intro a
  rw [List.mem_eraseDups, List.mem_eraseDups, h.mem_iff]

/-- **Names found in another order** are the same names. -/
theorem CatalogSnapshot.ofFound_perm {found found' : List (SymbolCategory × Text)}
    (h : found.Perm found') :
    (∀ category, (ofFound found').names category = (ofFound found).names category) ∧
      (∀ category name,
        (ofFound found').contains category name = (ofFound found).contains category name) ∧
      (ofFound found').size = (ofFound found).size := by
  have hdistinct (category : SymbolCategory) :
      ((ofFound found').found category).Perm ((ofFound found).found category) :=
    eraseDups_perm ((h.symm.filter _).map _)
  refine ⟨fun category => Text.sort_eq_of_perm (hdistinct category), fun category name => ?_, ?_⟩
  · rw [contains, contains, Bool.eq_iff_iff, List.contains_iff_mem, List.contains_iff_mem,
      (hdistinct category).mem_iff]
  · simp only [size, (hdistinct _).length_eq]

/-! ### Reordered file systems and settings -/

/-- Two answers to listing one directory: it fails in the same way, or holds the same entries. -/
inductive ListingReordered :
    Except Text (List DirectoryEntry) → Except Text (List DirectoryEntry) → Prop
  | failed (cause : Text) : ListingReordered (.error cause) (.error cause)
  | listed {entries entries' : List DirectoryEntry} (h : entries.Perm entries') :
    ListingReordered (.ok entries) (.ok entries')

/-- Two file systems that differ only in the order in which directories list their entries. -/
structure FileSystem.Reordered (fs fs' : FileSystem) : Prop where
  listing (dir : Text) : ListingReordered (fs.listing dir) (fs'.listing dir)
  contents (file : Text) : fs'.contents file = fs.contents file

/-- Settings that differ only in the order of the roots. -/
structure CatalogSettings.Reordered (s s' : CatalogSettings) : Prop where
  docRoots : s.docRoots.Perm s'.docRoots
  sourceRoots : s.sourceRoots.Perm s'.sourceRoots
  others : s' = { s with docRoots := s'.docRoots, sourceRoots := s'.sourceRoots }

/-! ### Searching -/

section Searching

variable {fs fs' : FileSystem} (h : fs.Reordered fs')

theorem FoundFiles.inOrder_perm {entries entries' : List DirectoryEntry}
    (h : entries.Perm entries') : (inOrder entries).Perm (inOrder entries') :=
  (List.mergeSort_perm _ _).trans (h.trans (List.mergeSort_perm _ _).symm)

include h

namespace FileSystem

theorem entries_perm (dir : Text) : (fs.entries dir).Perm (fs'.entries dir) := by
  rw [entries, entries]
  have hlisting := h.listing dir
  generalize fs.listing dir = a, fs'.listing dir = b at hlisting ⊢
  cases hlisting with
  | failed cause => exact .refl _
  | listed hentries => exact hentries

theorem isUnlisted_reordered : fs'.isUnlisted = fs.isUnlisted := by
  funext dir
  rw [isUnlisted, isUnlisted]
  have hlisting := h.listing dir
  generalize fs.listing dir = a, fs'.listing dir = b at hlisting ⊢
  cases hlisting <;> rfl

/-- The same directories are listed. -/
theorem visited_perm (levels : Nat) (dir : Text) :
    (fs.visited levels dir).Perm (fs'.visited levels dir) := by
  induction levels generalizing dir with
  | zero => exact .refl _
  | succ levels ih =>
    rw [visited, visited]
    refine .cons dir (List.Perm.flatMap ?_ fun e _ => ih (Path.join dir e.name))
    exact (FoundFiles.inOrder_perm (fs.entries_perm h dir)).filter _

theorem wanted_perm (extensions : List Text) (dir : Text) :
    (fs.wanted extensions dir).Perm (fs'.wanted extensions dir) :=
  ((FoundFiles.inOrder_perm (fs.entries_perm h dir)).filter _).map _

theorem declared_reordered (starts : List Text) : fs'.declared starts = fs.declared starts := by
  funext file
  rw [declared, declared, h.contents]

theorem defined_reordered : fs'.defined = fs.defined := by
  funext file
  rw [defined, defined, h.contents]

end FileSystem

/-- **A search** finds the same files. -/
theorem FoundFiles.below_perm (extensions : List Text) (levels : Nat) {roots roots' : List Text}
    (hroots : roots.Perm roots') :
    (below fs extensions levels roots).files.Perm (below fs' extensions levels roots').files ∧
      (below fs' extensions levels roots').unreadable =
        (below fs extensions levels roots).unreadable := by
  have hdirs : (roots.flatMap (fs.visited levels)).Perm (roots'.flatMap (fs'.visited levels)) :=
    hroots.flatMap fun dir _ => fs.visited_perm h levels dir
  constructor
  · -- each file stands there once, so that only membership counts
    rw [List.perm_ext_iff_of_nodup (nodup_below fs extensions levels roots)
      (nodup_below fs' extensions levels roots')]
    intro f
    have hwanted (dir : Text) := (fs.wanted_perm h extensions dir).mem_iff (a := f)
    simp only [mem_below, hdirs.mem_iff, hwanted]
  · simp only [below, inDirectories, FileSystem.isUnlisted_reordered h, hdirs.countP_eq]

end Searching

/-! ### Scanning -/

section Scanning

variable {s s' : CatalogSettings} {fs fs' : FileSystem} (hs : s.Reordered s')
  (h : fs.Reordered fs')

include hs

theorem CatalogSettings.Reordered.same :
    s'.docExtensions = s.docExtensions ∧ s'.sourceExtensions = s.sourceExtensions ∧
      s'.rootLevels = s.rootLevels ∧ s'.docPrefixes = s.docPrefixes := by
  rw [hs.others]
  exact ⟨rfl, rfl, rfl, rfl⟩

include h

namespace CatalogSettings

theorem found_perm {extensions extensions' roots roots' : List Text}
    (hextensions : extensions' = extensions) (hroots : roots.Perm roots') :
    (s.found fs extensions roots).files.Perm (s'.found fs' extensions' roots').files ∧
      (s'.found fs' extensions' roots').unreadable = (s.found fs extensions roots).unreadable := by
  obtain ⟨-, -, hlevels, -⟩ := hs.same
  rw [found_eq, found_eq, hlevels, hextensions]
  exact FoundFiles.below_perm h extensions s.rootLevels hroots

/-- The counts of a scan are the same, and so are its names, perhaps in another order. -/
theorem progress_reordered :
    (s.progress fs).found.Perm (s'.progress fs').found ∧
      (s'.progress fs').files = (s.progress fs).files ∧
      (s'.progress fs').unreadable = (s.progress fs).unreadable ∧
      (s'.progress fs').skippedRecords = (s.progress fs).skippedRecords := by
  obtain ⟨hdocExtensions, hsourceExtensions, -, hstarts⟩ := hs.same
  have hdocs := found_perm hs h hdocExtensions hs.docRoots
  have hsources := found_perm hs h hsourceExtensions hs.sourceRoots
  -- both searches find the same files, and the scan gets the same from them
  have hyields : (s.yields fs).Perm (s'.yields fs') := by
    rw [yields, yields, hstarts, FileSystem.declared_reordered h, FileSystem.defined_reordered h]
    exact (hdocs.1.map _).append (hsources.1.map _)
  rw [progress_eq, progress_eq, hdocs.2, hsources.2, hyields.countP_eq, hyields.countP_eq,
    (hyields.map _).foldr_eq]
  exact ⟨hyields.flatMap_right _, rfl, rfl, rfl⟩

end CatalogSettings

end Scanning

/-- Catalogues whose settings differ only in the order of the roots. -/
structure Catalog.Reordered (c c' : Catalog) : Prop where
  settings : c.settings.Reordered c'.settings
  inherited : c'.inherited = c.inherited

theorem Catalog.Reordered.prefixRules_eq {c c' : Catalog} (h : c.Reordered c') :
    c'.prefixRules = c.prefixRules := by
  rw [prefixRules, prefixRules, h.inherited, h.settings.others]
  rfl

/-- **A build does not depend on order**, neither on that in which the entries of directories are
listed nor on that of the roots: all look-ups and all counts are the same. -/
theorem Catalog.build_of_reordered {c c' : Catalog} {fs fs' : FileSystem} (hc : c.pending = none)
    (hc' : c'.pending = none) (hs : c.Reordered c') (h : fs.Reordered fs') :
    SameLookups (c.build fs).1 (c'.build fs').1 ∧ (c'.build fs').2.1 = (c.build fs).2.1 := by
  obtain ⟨hfound, hfiles, hunreadable, hskipped⟩ :=
    CatalogSettings.progress_reordered hs.settings h
  obtain ⟨hnames, hcontains, hsize⟩ := CatalogSnapshot.ofFound_perm hfound
  rw [build_eq hc, build_eq hc']
  constructor
  · exact SameLookups.of_snapshot hnames hcontains hs.prefixRules_eq
  · rw [ScanProgress.stats, ScanProgress.stats, hfiles, hunreadable, hskipped,
      ScanProgress.snapshot, ScanProgress.snapshot, hsize]

/-- The roots `d` and `e` change places, and so do the two entries of every directory. -/
theorem Catalog.build_of_reordered_roots :
    let entries : List DirectoryEntry := [⟨[0x61], false⟩, ⟨[0x62], true⟩]
    let fs : FileSystem := ⟨fun _ => .ok entries, fun _ => .ok [0x28, 0x66, 0x29]⟩
    let fs' : FileSystem := ⟨fun _ => .ok entries.reverse, fun _ => .ok [0x28, 0x66, 0x29]⟩
    let s : CatalogSettings := { CatalogSettings.standard with
      docRoots := [[0x64], [0x65]], docExtensions := [[]] }
    let s' : CatalogSettings := { s with docRoots := [[0x65], [0x64]] }
    let c := ofSettings s
    let c' := ofSettings s'
    c.Reordered c' ∧ fs.Reordered fs' ∧ c.pending = none ∧ c'.pending = none ∧
      SameLookups (c.build fs).1 (c'.build fs').1 ∧ (c'.build fs').2.1 = (c.build fs).2.1 := by
  intro entries fs fs' s s' c c'
  have hs : c.Reordered c' := ⟨⟨.swap _ _ _, .refl _, rfl⟩, rfl⟩
  have h : fs.Reordered fs' := ⟨fun _ => .listed (List.reverse_perm _).symm, fun _ => rfl⟩
  exact ⟨hs, h, rfl, rfl, build_of_reordered rfl rfl hs h⟩

end SexpEditing
