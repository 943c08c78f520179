import Mathlib.Data.List.Nodup
import SexpEditing.Proofs.Catalog.Builds

/-!
# Reads that fail

A build comes to its end whatever cannot be read. A file that cannot be read counts for a build as
an empty one does, and a directory that cannot be listed as one without entries: only the counts of
read and unreadable files tell the difference.

## Main definitions

* `FileSystem.withContents`, `FileSystem.withListing`: a file system with another answer to one read
* `FileYield.FailsOn`: files of which one fails, next to the same files with that one empty
* `Catalog.DiffersBy`: how far two builds differ

## Main results

* `FileYield.FailsOn.countP_eq`: a file that fails, among others
* `FileSystem.countP_isUnlisted`: a directory that fails, among others
* `CatalogSettings.progress_withContents`, `CatalogSettings.progress_withListing`: a scan
* `Catalog.build_of_failures`: a build
-/

namespace SexpEditing

namespace FileSystem

/-- A file system with another text of one file. -/
def withContents (fs : FileSystem) (file : Text) (text : Except Text Text) : FileSystem :=
  { fs with contents := fun f => if f = file then text else fs.contents f }

/-- A file system with another listing of one directory. -/
def withListing (fs : FileSystem) (dir : Text) (listing : Except Text (List DirectoryEntry)) :
    FileSystem :=
  { fs with listing := fun d => if d = dir then listing else fs.listing d }

variable {fs fs' : FileSystem}

/-! ### Searching -/

theorem visited_congr (h : fs'.entries = fs.entries) : fs'.visited = fs.visited := by
  funext levels dir
  induction levels generalizing dir with
  | zero => rfl
  | succ levels ih => simp only [visited, h, ih]

theorem wanted_congr (h : fs'.entries = fs.entries) : fs'.wanted = fs.wanted := by
  funext extensions dir
  rw [wanted, wanted, h]

end FileSystem

/-- A search finds the same files where directories have the same entries. -/
theorem FoundFiles.below_files_congr {fs fs' : FileSystem} (h : fs'.entries = fs.entries)
    (extensions : List Text) (levels : Nat) (roots : List Text) :
    (below fs' extensions levels roots).files = (below fs extensions levels roots).files := by
  simp only [below, inDirectories, FileSystem.visited_congr h, FileSystem.wanted_congr h]

/-- A search does not read files. -/
theorem FoundFiles.below_withContents (fs : FileSystem) (file : Text) (text : Except Text Text)
    (extensions : List Text) (levels : Nat) (roots : List Text) :
    below (fs.withContents file text) extensions levels roots =
      below fs extensions levels roots := by
  have h : (fs.withContents file text).entries = fs.entries := rfl
  simp only [below, inDirectories, FileSystem.visited_congr h, FileSystem.wanted_congr h]
  rfl

/-! ### Files that cannot be read -/

/-- An empty text declares nothing. -/
theorem Declarations.ofText_nil (starts : List Text) : ofText [] starts = .ok ⟨[], 0⟩ := by
  have hfinish : Parser.empty.finish = .ok [] := by
    rw [Parser.finish, Parser.empty, Parser.closeAll]
    rfl
  rw [ofText, Expr.ofText, tokenize, lexemes_of_none rfl, Lexeme.layOut, Expr.parseMany, Parser.run]
  exact congrArg (Except.map fun exprs => ofExprs exprs starts) hfinish

/-- An empty text defines nothing. -/
theorem SourceDefinition.ofText_nil : ofText [] = [] := by decide +kernel

namespace FileYield

/-- For one file, the first way to get something out of files fails where the second one gets
nothing; for all others they agree. -/
structure FailsOn (file : Text) (bad good : Text → Except Text FileYield) : Prop where
  failing : ∃ cause, bad file = .error cause
  empty : good file = .ok ⟨[], 0⟩
  others : ∀ f, f ≠ file → bad f = good f

variable {file : Text} {bad good : Text → Except Text FileYield} (h : FailsOn file bad good)

include h

theorem FailsOn.entriesOf_eq (f : Text) : entriesOf (bad f) = entriesOf (good f) := by
  by_cases hf : f = file
  · subst hf
    obtain ⟨cause, hbad⟩ := h.failing
    rw [hbad, h.empty]
    rfl
  · rw [h.others f hf]

theorem FailsOn.skippedOf_eq (f : Text) : skippedOf (bad f) = skippedOf (good f) := by
  by_cases hf : f = file
  · subst hf
    obtain ⟨cause, hbad⟩ := h.failing
    rw [hbad, h.empty]
    rfl
  · rw [h.others f hf]

/-- **A file that fails**, among others: it counts among those that cannot be read, and not among
those that are read. -/
theorem FailsOn.countP_eq (files : List Text) :
    (files.map good).countP Except.isOk = (files.map bad).countP Except.isOk + files.count file ∧
      (files.map bad).countP (!Except.isOk ·) =
        (files.map good).countP (!Except.isOk ·) + files.count file := by
  induction files with
  | nil => exact ⟨rfl, rfl⟩
  | cons f files ih =>
    simp only [List.map_cons, List.countP_cons, List.count_cons]
    by_cases hf : f = file
    · subst hf
      obtain ⟨cause, hbad⟩ := h.failing
      simp only [hbad, h.empty, Except.isOk, Except.toBool, beq_self_eq_true, Bool.not_true,
        Bool.not_false, Bool.false_eq_true, if_true, if_false] at ih ⊢
      omega
    · simp only [h.others f hf, beq_iff_eq, if_neg hf]
      omega

end FileYield

namespace FileSystem

variable (fs : FileSystem) (file cause : Text)

theorem declared_failsOn (starts : List Text) :
    FileYield.FailsOn file ((fs.withContents file (.error cause)).declared starts)
      ((fs.withContents file (.ok [])).declared starts) where
  failing := ⟨cause, by simp only [declared, withContents, if_true]; rfl⟩
  empty := by
    simp only [declared, withContents, if_true, Except.bind, Declarations.ofText_nil]
    rfl
  others f hf := by simp only [declared, withContents, if_neg hf]

theorem defined_failsOn :
    FileYield.FailsOn file (fs.withContents file (.error cause)).defined
      (fs.withContents file (.ok [])).defined where
  failing := ⟨cause, by simp only [defined, withContents, if_true]; rfl⟩
  empty := by
    simp only [defined, withContents, if_true, Except.map, SourceDefinition.ofText_nil]
    rfl
  others f hf := by simp only [defined, withContents, if_neg hf]

end FileSystem

/-! ### Directories that cannot be listed -/

namespace FileSystem

variable (fs : FileSystem) (dir cause : Text)

theorem entries_withListing :
    (fs.withListing dir (.error cause)).entries = (fs.withListing dir (.ok [])).entries := by
  funext d
  by_cases hd : d = dir <;> simp [entries, withListing, hd]

/-- **A directory that fails**, among others: it counts among those that cannot be listed. -/
theorem countP_isUnlisted (dirs : List Text) :
    dirs.countP (fs.withListing dir (.error cause)).isUnlisted =
      dirs.countP (fs.withListing dir (.ok [])).isUnlisted + dirs.count dir := by
  induction dirs with
  | nil => rfl
  | cons d dirs ih =>
    rw [List.countP_cons, List.countP_cons, List.count_cons, ih]
    by_cases hd : d = dir
    · subst hd
      have hbad : (fs.withListing d (.error cause)).isUnlisted d = true := by
        simp only [isUnlisted, withListing, if_true]
      have hgood : (fs.withListing d (.ok [])).isUnlisted d = false := by
        simp only [isUnlisted, withListing, if_true]
      rw [hbad, hgood, beq_self_eq_true]
      simp only [Bool.false_eq_true, if_true, if_false]
      omega
    · have hsame : (fs.withListing dir (.error cause)).isUnlisted d =
          (fs.withListing dir (.ok [])).isUnlisted d := by
        simp only [isUnlisted, withListing, if_neg hd]
      rw [hsame, if_neg (mt eq_of_beq hd)]
      omega

end FileSystem

/-! ### Scans -/

namespace CatalogSettings

variable (s : CatalogSettings) (fs : FileSystem)

theorem found_withContents (file : Text) (text : Except Text Text) (extensions roots : List Text) :
    s.found (fs.withContents file text) extensions roots = s.found fs extensions roots := by
  rw [found_eq, found_eq, FoundFiles.below_withContents]

open FileYield in
/-- What all files give, if one of them cannot be read, next to what they give if it is empty. -/
theorem yields_withContents (file cause : Text) :
    let bad := s.yields (fs.withContents file (.error cause))
    let good := s.yields (fs.withContents file (.ok []))
    let n := ((s.docsFound fs).files ++ (s.sourcesFound fs).files).count file
    bad.flatMap entriesOf = good.flatMap entriesOf ∧
      bad.map skippedOf = good.map skippedOf ∧
      good.countP Except.isOk = bad.countP Except.isOk + n ∧
      bad.countP (!Except.isOk ·) = good.countP (!Except.isOk ·) + n := by
  have hdocs := fs.declared_failsOn file cause s.docPrefixes
  have hsources := fs.defined_failsOn file cause
  -- the searches find the same files, so only what one of them gives differs
  obtain ⟨hread, hunread⟩ := hdocs.countP_eq (s.found fs s.docExtensions s.docRoots).files
  obtain ⟨hread', hunread'⟩ :=
    hsources.countP_eq (s.found fs s.sourceExtensions s.sourceRoots).files
  simp only [yields, docsFound, sourcesFound, found_withContents]
  refine ⟨?_, ?_, ?_, ?_⟩
  · simp only [List.flatMap_append, List.flatMap_map, hdocs.entriesOf_eq, hsources.entriesOf_eq]
  · simp only [List.map_append, List.map_map, Function.comp_def, hdocs.skippedOf_eq,
      hsources.skippedOf_eq]
  · rw [List.countP_append, List.countP_append, List.count_append]
    omega
  · rw [List.countP_append, List.countP_append, List.count_append]
    omega

/-- **A scan with a file that cannot be read** finds what it finds if the file is empty. -/
theorem progress_withContents (file cause : Text) :
    let bad := s.progress (fs.withContents file (.error cause))
    let good := s.progress (fs.withContents file (.ok []))
    let n := ((s.docsFound fs).files ++ (s.sourcesFound fs).files).count file
    bad.found = good.found ∧ bad.skippedRecords = good.skippedRecords ∧
      good.files = bad.files + n ∧ bad.unreadable = good.unreadable + n := by
  obtain ⟨hentries, hskipped, hread, hunread⟩ := s.yields_withContents fs file cause
  simp only [progress_eq, found_withContents]
  refine ⟨hentries, congrArg (List.foldr (· + ·) 0) hskipped, hread, ?_⟩
  rw [hunread]
  omega

/-- **A scan with a directory that cannot be listed** finds what it finds if the directory has no
entries. -/
theorem progress_withListing (dir cause : Text) :
    let bad := fs.withListing dir (.error cause)
    let good := fs.withListing dir (.ok [])
    let n := (s.docRoots.flatMap (bad.visited s.rootLevels) ++
      s.sourceRoots.flatMap (bad.visited s.rootLevels)).count dir
    (s.progress bad).found = (s.progress good).found ∧
      (s.progress bad).skippedRecords = (s.progress good).skippedRecords ∧
      (s.progress good).files = (s.progress bad).files ∧
      (s.progress bad).unreadable = (s.progress good).unreadable + n := by
  intro bad good n
  have hentries : bad.entries = good.entries := fs.entries_withListing dir cause
  have hyields : s.yields bad = s.yields good := by
    simp only [yields, found_eq, FoundFiles.below_files_congr hentries]
    rfl
  -- the same directories are listed, and the same files are read
  have hunlisted (dirs : List Text) :
      dirs.countP bad.isUnlisted = dirs.countP good.isUnlisted + dirs.count dir :=
    fs.countP_isUnlisted dir cause dirs
  rw [progress_eq, progress_eq, hyields]
  refine ⟨rfl, rfl, rfl, ?_⟩
  simp only [found_eq, FoundFiles.below, FoundFiles.inDirectories, hunlisted,
    FileSystem.visited_congr hentries, n, List.count_append]
  omega

open FileEvent

/-- A file is scheduled once for each search that finds it. -/
theorem count_scheduled (file : Text) :
    ((s.docsFound fs).files ++ (s.sourcesFound fs).files).count file =
      (if file ∈ (s.docsFound fs).files then 1 else 0) +
        if file ∈ (s.sourcesFound fs).files then 1 else 0 := by
  have hnodup (extensions roots : List Text) : (s.found fs extensions roots).files.Nodup := by
    rw [found_eq]
    exact FoundFiles.nodup_below fs _ _ _
  rw [List.count_append, (hnodup _ _).count, (hnodup _ _).count]

/-- A scan reads the files that are scheduled, whatever the contents of one of them. -/
theorem count_reads_withContents (file : Text) (text : Except Text Text) :
    (reads (s.scan.run (fs.withContents file text)).2).count file =
      ((s.docsFound fs).files ++ (s.sourcesFound fs).files).count file := by
  rw [(s.runs_scan _).reads_eq, docsFound, sourcesFound, found_withContents, found_withContents]

theorem listings_scan_withListing (dir cause : Text) :
    listings (s.scan.run (fs.withListing dir (.error cause))).2 =
      listings (s.scan.run (fs.withListing dir (.ok []))).2 := by
  rw [(s.runs_scan _).listings_eq, (s.runs_scan _).listings_eq,
    FileSystem.visited_congr (fs.entries_withListing dir cause)]

end CatalogSettings

/-! ### Builds -/

namespace Catalog

open FileEvent

/-- How two builds differ, the first of which cannot read all that the second one can: all look-ups
are answered alike, and no more records are skipped. Only the counts of files that were read, and of
files and directories that could not be read, differ by some numbers. -/
structure DiffersBy (bad good : Catalog × CatalogStats × List FileEvent) (files unreadable : Nat) :
    Prop where
  lookups : SameLookups good.1 bad.1
  skippedRecords : bad.2.1.skippedRecords = good.2.1.skippedRecords
  symbols : bad.2.1.symbols = good.2.1.symbols
  files : bad.2.1.files + files = good.2.1.files
  unreadable : bad.2.1.unreadable = good.2.1.unreadable + unreadable

variable {c : Catalog} (hpending : c.pending = none) (fs : FileSystem)

include hpending

/-- Two builds that find the same names, and skip as many records, differ by nothing else than their
scans do. -/
theorem DiffersBy.of_progress {fs fs' : FileSystem} {files unreadable : Nat}
    (hfound : (c.settings.progress fs').found = (c.settings.progress fs).found)
    (hskipped : (c.settings.progress fs').skippedRecords = (c.settings.progress fs).skippedRecords)
    (hfiles : (c.settings.progress fs).files = (c.settings.progress fs').files + files)
    (hunreadable : (c.settings.progress fs').unreadable =
      (c.settings.progress fs).unreadable + unreadable) :
    DiffersBy (c.build fs') (c.build fs) files unreadable := by
  have hsnapshot : (c.settings.progress fs').snapshot = (c.settings.progress fs).snapshot := by
    rw [ScanProgress.snapshot, ScanProgress.snapshot, hfound]
  rw [build_eq hpending, build_eq hpending]
  exact {
    lookups := .of_snapshot (fun _ => by rw [hsnapshot]) (fun _ _ => by rw [hsnapshot]) rfl
    skippedRecords := hskipped
    symbols := congrArg CatalogSnapshot.size hsnapshot
    files := hfiles.symm
    unreadable := hunreadable }

/-- **One bad input never affects the others.** A build whose reads are answered from a file system
comes to its end with its counts, whatever of them fails. A file that cannot be read counts as an
empty one, except that the number of files that were read is lower, and that of unreadable ones
higher, by how often the file was scheduled: once if it was found as a declaration file, and once if
it was found as a source file. A directory that cannot be listed counts as one without entries,
except that the number of unreadable ones is higher by how often it was listed. -/
theorem build_of_failures :
    (c.after (.request :: (fs.answersIn (c.build fs).2.2).map (.answer c.started) ++
        [.takeOver c.started])).step (.settle c.started) =
      ((c.build fs).1, .settled c.started (c.build fs).2.1, []) ∧
    (∀ file cause,
      let bad := c.build (fs.withContents file (.error cause))
      let n := (if file ∈ (c.settings.docsFound fs).files then 1 else 0) +
        if file ∈ (c.settings.sourcesFound fs).files then 1 else 0
      (reads bad.2.2).count file = n ∧
        DiffersBy bad (c.build (fs.withContents file (.ok []))) n n) ∧
    ∀ dir cause,
      let bad := c.build (fs.withListing dir (.error cause))
      let good := c.build (fs.withListing dir (.ok []))
      listings bad.2.2 = listings good.2.2 ∧
        DiffersBy bad good 0 ((listings bad.2.2).count dir) := by
  refine ⟨step_settle_of_build fs hpending, fun file cause => ?_, fun dir cause => ?_⟩
  · intro bad n
    have hdiffers := c.settings.progress_withContents fs file cause
    rw [c.settings.count_scheduled fs file] at hdiffers
    obtain ⟨hfound, hskipped, hfiles, hunreadable⟩ := hdiffers
    refine ⟨?_, .of_progress hpending hfound hskipped hfiles hunreadable⟩
    simp only [bad, build_eq hpending]
    rw [c.settings.count_reads_withContents, c.settings.count_scheduled]
  · intro bad good
    have hevents (fs : FileSystem) : (c.build fs).2.2 = (c.settings.scan.run fs).2 := by
      rw [build_eq hpending]
    obtain ⟨hfound, hskipped, hfiles, hunreadable⟩ :=
      c.settings.progress_withListing fs dir cause
    rw [← (c.settings.runs_scan _).listings_eq, ← hevents] at hunreadable
    refine ⟨?_, .of_progress hpending hfound hskipped hfiles hunreadable⟩
    simp only [bad, good, hevents]
    exact c.settings.listings_scan_withListing fs dir cause

omit hpending in
/-- The directory `d` is searched for both kinds of files, and its file `a` is taken as both. -/
theorem build_of_failures_twice :
    let s : CatalogSettings := { CatalogSettings.standard with
      docRoots := [[0x64]], sourceRoots := [[0x64]], docExtensions := [[]],
      sourceExtensions := [[]] }
    let fs : FileSystem := ⟨fun _ => .ok [⟨[0x61], false⟩], fun _ => .ok [0x28, 0x66, 0x29]⟩
    let c := ofSettings s
    let file : Text := [0x64, 0x2F, 0x61]
    let bad := c.build (fs.withContents file (.error []))
    c.pending = none ∧ (reads bad.2.2).count file = 2 ∧
      DiffersBy bad (c.build (fs.withContents file (.ok []))) 2 2 := by
  intro s fs c file bad
  have hdocs : file ∈ (s.docsFound fs).files := by
    rw [CatalogSettings.docsFound, CatalogSettings.found_eq]
    decide +kernel
  have hsources : file ∈ (s.sourcesFound fs).files := by
    rw [CatalogSettings.sourcesFound, CatalogSettings.found_eq]
    decide +kernel
  have hbuild := (build_of_failures (c := c) rfl fs).2.1 file []
  simp only [c, ofSettings, if_pos hdocs, if_pos hsources] at hbuild
  exact ⟨rfl, hbuild⟩

end Catalog

end SexpEditing
