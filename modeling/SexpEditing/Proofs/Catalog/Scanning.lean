import SexpEditing.Catalog.Basic
import SexpEditing.Proofs.Files.Running

/-!
# What a scan finds

On a file system that stays as it is, no read of a scan depends on the ones before it: a search is
told by the directories that it lists, one after the other, and a scan by what each file gives.

## Main definitions

* `FileSystem.visited`: the directories that are listed in searching one
* `FoundFiles.below`: what is found below some roots
* `FileYield`, `FileSystem.declared`, `FileSystem.defined`: what one file gives
* `CatalogSettings.progress`: what all files give

## Main results

* `FoundFiles.runs_walk`, `FoundFiles.runs_ofRoots`: a search
* `CatalogSettings.runs_scan`: a scan
-/

namespace SexpEditing

open FileEvent FileTask

/-! ### Searching -/

namespace FileSystem

variable (fs : FileSystem)

/-- The entries of a directory; there are none if it cannot be listed. -/
def entries (dir : Text) : List DirectoryEntry :=
  match fs.listing dir with
  | .error _ => []
  | .ok entries => entries

/-- Whether a directory cannot be listed. -/
def isUnlisted (dir : Text) : Bool :=
  match fs.listing dir with
  | .error _ => true
  | .ok _ => false

/-- The directories that are listed in searching one: itself, and those that are searched below
it. -/
def visited : (levels : Nat) → (dir : Text) → List Text
  | 0, dir => [dir]
  | levels + 1, dir =>
    let subdirs := (FoundFiles.inOrder (fs.entries dir)).filter DirectoryEntry.isDirectory
    dir :: subdirs.flatMap fun e => visited levels (Path.join dir e.name)

/-- The wanted files of a directory. -/
def wanted (extensions : List Text) (dir : Text) : List Text :=
  FoundFiles.wantedIn extensions dir (fs.entries dir)

theorem visited_eq (dir : PendingDirectory) :
    fs.visited dir.levels dir.path =
      dir.path :: (FoundFiles.subdirectories dir (fs.entries dir.path)).flatMap fun s =>
        fs.visited s.levels s.path := by
  rw [FoundFiles.subdirectories]
  cases dir.levels with
  | zero => rfl
  | succ levels => simp only [visited, List.flatMap_map]

end FileSystem

namespace FoundFiles

variable (fs : FileSystem) (extensions : List Text)

theorem addFiles_append (found : FoundFiles) (as bs : List Text) :
    (found.addFiles as).addFiles bs = found.addFiles (as ++ bs) := by
  simp only [addFiles, List.foldl_append]

theorem wantedIn_nil (dir : Text) : wantedIn extensions dir [] = [] := by
  simp [wantedIn, inOrder]

theorem subdirectories_nil (dir : PendingDirectory) : subdirectories dir [] = [] := by
  rw [subdirectories]
  cases dir.levels <;> simp [inOrder]

/-- What is found in some directories, one after the other. -/
def inDirectories (found : FoundFiles) (dirs : List Text) : FoundFiles :=
  ⟨(found.addFiles (dirs.flatMap (fs.wanted extensions))).files,
    found.unreadable + dirs.countP fs.isUnlisted⟩

theorem inDirectories_cons_of_error {dir cause : Text} (h : fs.listing dir = .error cause)
    (found : FoundFiles) (dirs : List Text) :
    found.inDirectories fs extensions (dir :: dirs) =
      found.addUnreadable.inDirectories fs extensions dirs := by
  have hwanted : fs.wanted extensions dir = [] := by
    rw [FileSystem.wanted, FileSystem.entries, h]
    exact wantedIn_nil extensions dir
  have hcount : fs.isUnlisted dir = true := by rw [FileSystem.isUnlisted, h]
  rw [inDirectories, inDirectories, List.flatMap_cons, hwanted, List.countP_cons_of_pos hcount,
    addUnreadable, Nat.add_assoc, Nat.add_comm 1]
  rfl

theorem inDirectories_cons_of_ok {dir : Text} {entries : List DirectoryEntry}
    (h : fs.listing dir = .ok entries) (found : FoundFiles) (dirs : List Text) :
    found.inDirectories fs extensions (dir :: dirs) =
      (found.addFiles (wantedIn extensions dir entries)).inDirectories fs extensions dirs := by
  have hwanted : fs.wanted extensions dir = wantedIn extensions dir entries := by
    rw [FileSystem.wanted, FileSystem.entries, h]
  have hcount : ¬fs.isUnlisted dir = true := by simp [FileSystem.isUnlisted, h]
  rw [inDirectories, inDirectories, List.flatMap_cons, hwanted, List.countP_cons_of_neg hcount,
    addFiles_append]
  rfl

/-- **A search** lists the directories of the stack, each one with those below it, before the
next. -/
theorem runs_walk (found : FoundFiles) (stack : List PendingDirectory) :
    (walk extensions found stack).Runs fs
      (found.inDirectories fs extensions
        (stack.flatMap fun dir => fs.visited dir.levels dir.path))
      (stack.flatMap fun dir => fs.visited dir.levels dir.path) [] := by
  induction found, stack using walk.induct extensions with
  | case1 found =>
    rw [walk]
    exact runs_done fs found
  | case2 found dir rest ihError ihOk =>
    -- the top of the stack gives way to its subdirectories, as in `visited_eq`
    rw [walk, List.flatMap_cons, FileSystem.visited_eq, List.cons_append, ← List.flatMap_append,
      FileSystem.entries]
    cases h : fs.listing dir.path with
    | error cause =>
      rw [subdirectories_nil, List.nil_append, inDirectories_cons_of_error fs extensions h]
      refine .listing ?_
      rw [h]
      exact ihError.report _
    | ok entries =>
      rw [inDirectories_cons_of_ok fs extensions h]
      refine .listing ?_
      rw [h]
      exact ihOk entries

/-- What is found below some roots. -/
def below (levels : Nat) (roots : List Text) : FoundFiles :=
  empty.inDirectories fs extensions (roots.flatMap (fs.visited levels))

/-- **A search below some roots.** -/
theorem runs_ofRoots (levels : Nat) (roots : List Text) :
    (ofRoots extensions levels roots).Runs fs (below fs extensions levels roots)
      (roots.flatMap (fs.visited levels)) [] := by
  have h := runs_walk fs extensions empty (roots.map fun root => ⟨root, levels⟩)
  rw [List.flatMap_map] at h
  exact h

/-! No file is found twice. -/

theorem foldl_addFiles_spec (files found : List Text) (h : found.Nodup) :
    let all := files.foldl (fun all f => if all.contains f then all else all ++ [f]) found
    all.Nodup ∧ ∀ f, f ∈ all ↔ f ∈ found ∨ f ∈ files := by
  induction files generalizing found with
  | nil => simpa using h
  | cons f files ih =>
    rw [List.foldl_cons]
    by_cases hf : f ∈ found
    · -- the file is left out, but it was found before
      rw [if_pos (List.contains_iff_mem.mpr hf)]
      obtain ⟨hnodup, hmem⟩ := ih found h
      refine ⟨hnodup, fun g => (hmem g).trans ?_⟩
      rw [List.mem_cons]
      constructor
      · exact fun h => h.imp_right .inr
      · rintro (h | rfl | h)
        · exact .inl h
        · exact .inl hf
        · exact .inr h
    · rw [if_neg (by simpa using hf)]
      have hconcat : (found ++ [f]).Nodup := by
        rw [List.nodup_append]
        refine ⟨h, by simp, fun a ha b hb => ?_⟩
        rw [List.mem_singleton] at hb
        rintro rfl
        exact hf (hb ▸ ha)
      obtain ⟨hnodup, hmem⟩ := ih _ hconcat
      refine ⟨hnodup, fun g => (hmem g).trans ?_⟩
      rw [List.mem_append, List.mem_singleton, List.mem_cons, or_assoc]

theorem nodup_below (levels : Nat) (roots : List Text) :
    (below fs extensions levels roots).files.Nodup :=
  (foldl_addFiles_spec _ [] .nil).1

theorem mem_below {levels : Nat} {roots : List Text} {f : Text} :
    f ∈ (below fs extensions levels roots).files ↔
      ∃ dir ∈ roots.flatMap (fs.visited levels), f ∈ fs.wanted extensions dir := by
  refine ((foldl_addFiles_spec _ [] .nil).2 f).trans ?_
  rw [List.mem_flatMap]
  simp

end FoundFiles

/-! ### Reading -/

/-- What one file gives. -/
structure FileYield where
  /-- The names in it. -/
  entries : List (SymbolCategory × Text)
  /-- The number of malformed records in it. -/
  skipped : Nat

namespace FileSystem

variable (fs : FileSystem)

/-- What a declaration file gives, unless it cannot be read or parsed. -/
def declared (starts : List Text) (file : Text) : Except Text FileYield :=
  ((fs.contents file).bind fun text =>
    (Declarations.ofText text starts).mapError ExprError.message).map fun d =>
      ⟨d.names.map fun name => (.functions, name), d.skipped⟩

/-- What a source file gives, unless it cannot be read. -/
def defined (file : Text) : Except Text FileYield :=
  (fs.contents file).map fun text =>
    ⟨(SourceDefinition.ofText text).map fun d => (d.category, d.name), 0⟩

end FileSystem

namespace FileYield

/-- The names in a file; a file that is skipped has none. -/
def entriesOf : Except Text FileYield → List (SymbolCategory × Text)
  | .ok y => y.entries
  | .error _ => []

/-- The number of malformed records in a file; a file that is skipped has none. -/
def skippedOf : Except Text FileYield → Nat
  | .ok y => y.skipped
  | .error _ => 0

end FileYield

namespace ScanProgress

open FileYield

/-- Counts a file, and adds what it gives. -/
def addResult (p : ScanProgress) : Except Text FileYield → ScanProgress
  | .error _ => p.addUnreadable
  | .ok y => { p.addFile y.entries with skippedRecords := p.skippedRecords + y.skipped }

/-- **Several files**: all that they give is added up. -/
theorem foldl_addResult (p : ScanProgress) (rs : List (Except Text FileYield)) :
    rs.foldl addResult p =
      ⟨p.found ++ rs.flatMap entriesOf, p.files + rs.countP Except.isOk,
        p.unreadable + rs.countP (!Except.isOk ·),
        p.skippedRecords + (rs.map skippedOf).foldr (· + ·) 0⟩ := by
  induction rs generalizing p with
  | nil => simp
  | cons r rs ih =>
    rw [List.foldl_cons, ih]
    cases r with
    | error cause =>
      simp only [addResult, addUnreadable, entriesOf, skippedOf, Except.isOk, Except.toBool,
        List.flatMap_cons, List.nil_append, List.countP_cons, List.map_cons, List.foldr_cons,
        ScanProgress.mk.injEq]
      refine ⟨trivial, by simp, ?_, by omega⟩
      simp only [Bool.not_false, if_true]
      omega
    | ok y =>
      simp only [addResult, addFile, entriesOf, skippedOf, Except.isOk, Except.toBool,
        List.flatMap_cons, List.append_assoc, List.countP_cons, List.map_cons, List.foldr_cons,
        ScanProgress.mk.injEq]
      refine ⟨trivial, ?_, by simp, by omega⟩
      simp only [if_true]
      omega

variable (fs : FileSystem)

/-- **Declaration files** are read one after the other. -/
theorem runs_readDeclarations (starts : List Text) (p : ScanProgress) (files : List Text) :
    (p.readDeclarations starts files).Runs fs
      ((files.map (fs.declared starts)).foldl addResult p) [] files := by
  induction files generalizing p with
  | nil => exact runs_done fs p
  | cons file files ih =>
    rw [readDeclarations, List.map_cons, List.foldl_cons, FileSystem.declared]
    refine .contents ?_
    cases (fs.contents file).bind fun text =>
        (Declarations.ofText text starts).mapError ExprError.message with
    | error cause => exact (ih p.addUnreadable).report _
    | ok d => exact (runs_logAll fs _).bind (ih _)

/-- **Source files** are read one after the other. -/
theorem runs_readSources (p : ScanProgress) (files : List Text) :
    (p.readSources files).Runs fs ((files.map fs.defined).foldl addResult p) [] files := by
  induction files generalizing p with
  | nil => exact runs_done fs p
  | cons file files ih =>
    rw [readSources, List.map_cons, List.foldl_cons, FileSystem.defined]
    refine .contents ?_
    cases fs.contents file with
    | error cause => exact (ih p.addUnreadable).report _
    | ok text => exact ih _

end ScanProgress

/-! ### Scanning -/

namespace CatalogSettings

variable (s : CatalogSettings) (fs : FileSystem)

/-- What a search below some roots finds. -/
def found (extensions roots : List Text) : FoundFiles :=
  ((FoundFiles.ofRoots extensions s.rootLevels roots).run fs).1

theorem found_eq (extensions roots : List Text) :
    s.found fs extensions roots = .below fs extensions s.rootLevels roots :=
  (FoundFiles.runs_ofRoots fs _ _ _).answer_eq

/-- What the search for declaration files finds. -/
abbrev docsFound : FoundFiles := s.found fs s.docExtensions s.docRoots

/-- What the search for source files finds. -/
abbrev sourcesFound : FoundFiles := s.found fs s.sourceExtensions s.sourceRoots

/-- What each file gives, the declaration files first. -/
def yields : List (Except Text FileYield) :=
  (s.docsFound fs).files.map (fs.declared s.docPrefixes) ++
    (s.sourcesFound fs).files.map fs.defined

/-- What a scan finds. -/
def progress : ScanProgress :=
  (s.yields fs).foldl ScanProgress.addResult
    ⟨[], 0, (s.docsFound fs).unreadable + (s.sourcesFound fs).unreadable, 0⟩

open FileYield in
theorem progress_eq :
    s.progress fs =
      ⟨(s.yields fs).flatMap entriesOf, (s.yields fs).countP Except.isOk,
        (s.docsFound fs).unreadable + (s.sourcesFound fs).unreadable +
          (s.yields fs).countP (!Except.isOk ·),
        ((s.yields fs).map skippedOf).foldr (· + ·) 0⟩ := by
  rw [progress, ScanProgress.foldl_addResult, List.nil_append, Nat.zero_add, Nat.zero_add]

/-- **A scan** searches the roots of declaration files, then those of source files. After that it
reads the files that were found. -/
theorem runs_scan :
    s.scan.Runs fs ((s.progress fs).snapshot, (s.progress fs).stats)
      (s.docRoots.flatMap (fs.visited s.rootLevels) ++
        s.sourceRoots.flatMap (fs.visited s.rootLevels))
      ((s.docsFound fs).files ++ (s.sourcesFound fs).files) := by
  have hdocs := FoundFiles.runs_ofRoots fs s.docExtensions s.rootLevels s.docRoots
  have hsources := FoundFiles.runs_ofRoots fs s.sourceExtensions s.rootLevels s.sourceRoots
  rw [← found_eq] at hdocs hsources
  have hlog (entry : LogEntry) : (FileTask.log entry).Runs fs () [] [] :=
    (runs_done fs ()).report entry
  have h : s.scan.Runs fs _ _ _ :=
    hdocs.bind <| hsources.bind <| (hlog (scanAnnouncement _ _)).bind <|
      (ScanProgress.runs_readDeclarations fs s.docPrefixes _ _).bind <|
      (ScanProgress.runs_readSources fs _ _).bind <| (hlog _).bind (runs_done fs _)
  simp only [List.nil_append, List.append_nil] at h
  rw [progress, yields, List.foldl_append]
  exact h

end CatalogSettings

namespace Catalog

variable {c : Catalog}

theorem requestBuild_of_pending {number : Nat} (h : c.pending = some number) :
    c.requestBuild = (c, number, []) := by
  rw [requestBuild]
  split
  · next hsome => rw [Option.some.inj (h.symm.trans hsome)]
  · next hnone => cases h.symm.trans hnone

theorem requestBuild_of_idle (h : c.pending = none) :
    c.requestBuild =
      ({ c with started := c.started + 1 }.withScan
          ⟨c.started, c.settings.scan.advance.1, false⟩,
        c.started, c.settings.scan.advance.2) := by
  rw [requestBuild]
  split
  · next hsome => cases h.symm.trans hsome
  · simp only [pending_eq_none_iff.mp h, List.nil_append, withScan]

/-- **A build**, if none is pending, is a scan. -/
theorem build_eq (h : c.pending = none) (fs : FileSystem) :
    c.build fs =
      ({ c.withoutScan with
          snapshot := (c.settings.progress fs).snapshot
          started := c.started + 1 },
        (c.settings.progress fs).stats, (c.settings.scan.run fs).2) := by
  have htask : c.requestedTask = c.settings.scan := by
    rw [requestedTask, h]
    rfl
  rw [build, htask, requestBuild_of_idle h]
  simp only [(c.settings.runs_scan fs).answer_eq]
  rfl

/-- Two catalogues answer every look-up alike. -/
structure SameLookups (c d : Catalog) : Prop where
  names (category : SymbolCategory) : d.names category = c.names category
  has (name : Text) (category : Option SymbolCategory) : d.has name category = c.has name category
  classify (name : Text) : d.classify name = c.classify name

theorem SameLookups.of_snapshot {d : Catalog}
    (hnames : ∀ category, d.snapshot.names category = c.snapshot.names category)
    (hcontains : ∀ category name,
      d.snapshot.contains category name = c.snapshot.contains category name)
    (hrules : d.prefixRules = c.prefixRules) : SameLookups c d where
  names := hnames
  has name category := by cases category <;> simp only [Catalog.has, hcontains]
  classify name := by simp only [Catalog.classify, hcontains, hrules]

end Catalog

end SexpEditing
