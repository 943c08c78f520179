import Mathlib.Data.List.Sort
import SexpEditing.Proofs.Catalog.Scanning

/-!
# Searching depth first

The search for files keeps the directories that are still to be searched on a stack, and passes over
files that it has found before. It does what a recursion does: this one takes the files of a
directory and then goes down into its subdirectories, one after the other, and whether it goes down
depends on nothing but the depth. It is no matter what the directories list, be it a way back up, or
something else the next time.

The recursion sorts entries by insertion. There is only one way to sort them by name so that entries
of the same name keep their order, so it does not matter that the search sorts by merging.

## Main definitions

* `SortedByName`, `DirectoryEntry.byName`: entries in the order of their names, and a sort that
  gives them
* `SearchEvent`, `FileSystem.descend`: what happens in a search by recursion on the depth

## Main results

* `SortedByName.unique`, `FoundFiles.sortedByName_inOrder`: entries are sorted in one way only, and
  so they are in a search
* `FoundFiles.walk_eq_foldlM`: the stack does what the recursion does, whatever is answered
* `FoundFiles.exists_answered_walk`: a search ends after some answers, whatever they are
* `FoundFiles.search_is_depth_first`: both, and what is found on a file system
-/

namespace SexpEditing

/-! ### Sorting by name -/

/-- The entries of a directory in the order of their names: none comes after one of a higher name,
and entries of the same name stand as the directory lists them. -/
structure SortedByName (entries sorted : List DirectoryEntry) : Prop where
  perm : sorted.Perm entries
  ordered : sorted.Pairwise fun a b => b.name.precedes a.name = false
  stable (name : Text) : (sorted.filter fun e => e.name == name) =
    entries.filter fun e => e.name == name

namespace SortedByName

variable {entries sorted sorted' : List DirectoryEntry}

/-- A sort that takes no parts apart that are in order already keeps entries of the same name as
they stand. -/
theorem of_sublists (hperm : sorted.Perm entries)
    (hordered : sorted.Pairwise fun a b => b.name.precedes a.name = false)
    (hparts : ∀ part : List DirectoryEntry,
      (part.Pairwise fun a b => b.name.precedes a.name = false) → part.Sublist entries →
        part.Sublist sorted) :
    SortedByName entries sorted where
  perm := hperm
  ordered := hordered
  stable name := by
    have hnames : ∀ e ∈ entries.filter fun e => e.name == name, e.name = name := fun e he =>
      beq_iff_eq.mp (List.mem_filter.mp he).2
    have hpart : (entries.filter fun e => e.name == name).Pairwise fun a b =>
        b.name.precedes a.name = false :=
      List.pairwise_of_forall_mem_list fun a ha b hb => by
        rw [hnames a ha, hnames b hb, Text.precedes_irrefl]
    have hsub := (hparts _ hpart List.filter_sublist).filter fun e => e.name == name
    rw [List.filter_filter] at hsub
    simp only [Bool.and_self] at hsub
    exact (hsub.eq_of_length (hperm.filter _).length_eq.symm).symm

/-- **There is one way only** to sort entries by name. -/
theorem unique (h : SortedByName entries sorted) (h' : SortedByName entries sorted') :
    sorted = sorted' := by
  have hsame (name : Text) : (sorted.filter fun e => e.name == name) =
      sorted'.filter fun e => e.name == name := (h.stable name).trans (h'.stable name).symm
  have hordered := h.ordered
  have hordered' := h'.ordered
  clear h h'
  -- the induction is on the first list; the entries for each name are all that is known of both
  induction sorted generalizing sorted' with
  | nil =>
    cases sorted' with
    | nil => rfl
    | cons y ys => simpa using hsame y.name
  | cons x xs ih =>
    cases sorted' with
    | nil => simpa using hsame x.name
    | cons y ys =>
      obtain ⟨hx, hxs⟩ := List.pairwise_cons.mp hordered
      obtain ⟨hy, hys⟩ := List.pairwise_cons.mp hordered'
      have hmem : x ∈ (y :: ys).filter fun e => e.name == x.name := by
        rw [← hsame]
        simp
      have hmem' : y ∈ (x :: xs).filter fun e => e.name == y.name := by
        rw [hsame]
        simp
      -- neither of the first entries comes after the other
      have hname : x.name = y.name := by
        refine Text.eq_of_not_precedes ?_ ?_
        · rcases List.mem_cons.mp (List.mem_of_mem_filter hmem) with rfl | hlater
          · exact Text.precedes_irrefl _
          · exact hy x hlater
        · rcases List.mem_cons.mp (List.mem_of_mem_filter hmem') with rfl | hlater
          · exact Text.precedes_irrefl _
          · exact hx y hlater
      have hfirst := hsame x.name
      rw [List.filter_cons_of_pos (by simp), List.filter_cons_of_pos (by simp [hname])] at hfirst
      obtain rfl := (List.cons.inj hfirst).1
      refine congrArg (x :: ·) (ih (fun name => ?_) hxs hys)
      have hrest := hsame name
      rw [List.filter_cons, List.filter_cons] at hrest
      split at hrest
      · exact (List.cons.inj hrest).2
      · exact hrest

end SortedByName

namespace DirectoryEntry

/-- An entry does not come after another one. -/
def NotAfter (a b : DirectoryEntry) : Prop := b.name.precedes a.name = false

instance : DecidableRel NotAfter := fun a b =>
  inferInstanceAs (Decidable (b.name.precedes a.name = false))

instance : Std.Total NotAfter := ⟨fun a b => Text.not_precedes_total a.name b.name⟩

instance : IsTrans DirectoryEntry NotAfter := ⟨fun _ _ _ => Text.not_precedes_trans⟩

/-- The entries of a directory by name, sorted by insertion. -/
def byName (entries : List DirectoryEntry) : List DirectoryEntry := entries.insertionSort NotAfter

theorem sortedByName_byName (entries : List DirectoryEntry) :
    SortedByName entries (byName entries) :=
  .of_sublists (List.perm_insertionSort NotAfter entries)
    (List.pairwise_insertionSort NotAfter entries) fun _ => List.sublist_insertionSort

end DirectoryEntry

namespace FoundFiles

/-- **A search takes entries by name.** -/
theorem sortedByName_inOrder (entries : List DirectoryEntry) :
    SortedByName entries (inOrder entries) := by
  have htrans (a b c : DirectoryEntry) (hab : (!b.name.precedes a.name) = true)
      (hbc : (!c.name.precedes b.name) = true) : (!c.name.precedes a.name) = true := by
    rw [Bool.not_eq_true'] at *
    exact Text.not_precedes_trans hab hbc
  have htotal (a b : DirectoryEntry) :
      (!b.name.precedes a.name || !a.name.precedes b.name) = true := by
    rw [Bool.or_eq_true, Bool.not_eq_true', Bool.not_eq_true']
    exact Text.not_precedes_total a.name b.name
  refine .of_sublists (List.mergeSort_perm _ _) ?_ fun part hpart hsub => ?_
  · exact (List.pairwise_mergeSort htrans htotal entries).imp fun h => Bool.not_eq_true' _ ▸ h
  · refine List.sublist_mergeSort htrans htotal (hpart.imp fun h => ?_) hsub
    rw [h, Bool.not_false]

theorem inOrder_eq_byName (entries : List DirectoryEntry) :
    inOrder entries = DirectoryEntry.byName entries :=
  (sortedByName_inOrder entries).unique (DirectoryEntry.sortedByName_byName entries)

/-- The names that a search wants: those with one of the endings, whatever the case of letters. -/
theorem hasExtension_iff {extensions : List Text} {name : Text} :
    hasExtension extensions name = true ↔
      ∃ x ∈ extensions, (Path.extension name).lowercase = x.lowercase := by
  rw [hasExtension, List.contains_iff_mem, List.mem_map]
  exact exists_congr fun x => and_congr_right fun _ => eq_comm

end FoundFiles

/-! ### Events -/

/-- What happens in a search. -/
inductive SearchEvent
  /-- A directory is listed, or cannot be. -/
  | listed (dir : Text) (readable : Bool)
  /-- A wanted file is met. -/
  | met (file : Text)
deriving DecidableEq, Repr

namespace SearchEvent

/-- The directory that is listed. -/
def dir? : SearchEvent → Option Text
  | .listed dir _ => some dir
  | .met _ => none

/-- The file that is met. -/
def file? : SearchEvent → Option Text
  | .listed _ _ => none
  | .met file => some file

/-- Whether a directory cannot be listed. -/
def isFailure : SearchEvent → Bool
  | .listed _ readable => !readable
  | .met _ => false

@[simp] theorem dir?_listed (dir : Text) (readable : Bool) : (listed dir readable).dir? = some dir :=
  rfl

@[simp] theorem dir?_met (file : Text) : (met file).dir? = none := rfl

@[simp] theorem file?_listed (dir : Text) (readable : Bool) : (listed dir readable).file? = none :=
  rfl

@[simp] theorem file?_met (file : Text) : (met file).file? = some file := rfl

@[simp] theorem isFailure_listed (dir : Text) (readable : Bool) :
    (listed dir readable).isFailure = !readable := rfl

@[simp] theorem isFailure_met (file : Text) : (met file).isFailure = false := rfl

end SearchEvent

/-- **The search by recursion** at a depth below a root: the wanted files of a directory, by name,
and then, as far as the settings allow, what is below its subdirectories, by name. -/
def FileSystem.descend (fs : FileSystem) (s : CatalogSettings) (extensions : List Text)
    (depth : Nat) (dir : Text) : List SearchEvent :=
  match fs.listing dir with
  | .error _ => [.listed dir false]
  | .ok entries =>
    let (subdirs, files) := (DirectoryEntry.byName entries).partition DirectoryEntry.isDirectory
    let wanted := files.filter fun e =>
      ∃ x ∈ extensions, (Path.extension e.name).lowercase = x.lowercase
    .listed dir true :: (wanted.map fun e => .met (Path.join dir e.name)) ++
      if s.recursive = true ∧ depth < s.maxDepth then
        subdirs.flatMap fun e => descend fs s extensions (depth + 1) (Path.join dir e.name)
      else []
termination_by s.maxDepth - depth

namespace FoundFiles

/-! ### A stack for a recursion -/

section Stack

variable (extensions : List Text)

/-- The search of a directory goes on below it. -/
theorem visit_eq (dir : PendingDirectory) (found : FoundFiles) :
    visit extensions dir.levels dir.path found =
      .listing dir.path fun
        | .error cause => .report (skippedDirectory dir.path cause) (.done found.addUnreadable)
        | .ok entries =>
          (subdirectories dir entries).foldlM
            (fun found s => visit extensions s.levels s.path found)
            (found.addFiles (wantedIn extensions dir.path entries)) := by
  obtain ⟨path, levels⟩ := dir
  rw [visit]
  refine congrArg (FileTask.listing path) (funext fun answer => ?_)
  cases answer with
  | error cause => rfl
  | ok entries =>
    cases levels with
    | zero => rfl
    | succ levels => simp only [subdirectories, List.foldlM_map]

/-- **The stack does what the recursion does**: below one directory after the other. -/
theorem walk_eq_foldlM (found : FoundFiles) (stack : List PendingDirectory) :
    walk extensions found stack =
      stack.foldlM (fun found dir => visit extensions dir.levels dir.path found) found := by
  induction found, stack using walk.induct extensions with
  | case1 found =>
    rw [walk]
    rfl
  | case2 found dir rest ihError ihOk =>
    rw [walk, List.foldlM_cons, visit_eq]
    refine congrArg (FileTask.listing dir.path) (funext fun answer => ?_)
    cases answer with
    | error cause => exact congrArg (FileTask.report (skippedDirectory dir.path cause)) ihError
    | ok entries =>
      -- the subdirectories on top of the stack are those in which the recursion goes on
      exact (ihOk entries).trans List.foldlM_append

/-- **A search ends** after some answers, whatever they are. -/
theorem exists_answered_walk (answers : Nat → Except Text (List DirectoryEntry))
    (found : FoundFiles) (stack : List PendingDirectory) :
    ∃ n all, (walk extensions found stack).answered
      ((List.range n).map fun i => .directory (answers i)) = .done all := by
  induction found, stack using walk.induct extensions generalizing answers with
  | case1 found =>
    refine ⟨0, found, ?_⟩
    rw [walk]
    rfl
  | case2 found dir rest ihError ihOk =>
    cases h : answers 0 with
    | error cause =>
      obtain ⟨n, all, hall⟩ := ihError fun i => answers (i + 1)
      refine ⟨n + 1, all, ?_⟩
      rw [walk, List.range_succ_eq_map, List.map_cons, List.map_map, h]
      exact hall
    | ok entries =>
      obtain ⟨n, all, hall⟩ := ihOk entries fun i => answers (i + 1)
      refine ⟨n + 1, all, ?_⟩
      rw [walk, List.range_succ_eq_map, List.map_cons, List.map_map, h]
      exact hall

end Stack

end FoundFiles

/-! ### What happens in the recursion -/

/-- How many levels are searched below a depth. -/
def CatalogSettings.levelsBelow (s : CatalogSettings) (depth : Nat) : Nat :=
  if s.recursive then s.maxDepth - depth else 0

namespace FileSystem

variable (fs : FileSystem) (s : CatalogSettings) (extensions : List Text)

/-- What happens in one directory. -/
def eventsIn (dir : Text) : List SearchEvent :=
  .listed dir (!fs.isUnlisted dir) :: (fs.wanted extensions dir).map .met

theorem wantedIn_eq (dir : Text) (entries : List DirectoryEntry) :
    FoundFiles.wantedIn extensions dir entries =
      (((DirectoryEntry.byName entries).partition DirectoryEntry.isDirectory).2.filter fun e =>
        ∃ x ∈ extensions, (Path.extension e.name).lowercase = x.lowercase).map fun e =>
          Path.join dir e.name := by
  rw [FoundFiles.wantedIn, FoundFiles.inOrder_eq_byName, List.partition_eq_filter_filter,
    List.filter_filter]
  simp only [← FoundFiles.hasExtension_iff, Bool.decide_eq_true, Function.comp_apply, Bool.and_comm]

/-- The recursion goes through the directories that are listed in searching one. -/
theorem descend_eq (depth : Nat) (dir : Text) :
    fs.descend s extensions depth dir =
      (fs.visited (s.levelsBelow depth) dir).flatMap (fs.eventsIn extensions) := by
  induction hlevels : s.levelsBelow depth generalizing depth dir with
  | zero =>
    have hstop : ¬(s.recursive = true ∧ depth < s.maxDepth) := by
      rintro ⟨hrec, hlt⟩
      rw [CatalogSettings.levelsBelow, if_pos hrec] at hlevels
      omega
    rw [descend, visited, List.flatMap_singleton, eventsIn, isUnlisted, wanted, entries]
    cases fs.listing dir with
    | error cause => simp [FoundFiles.wantedIn_nil]
    | ok entries => simp [hstop, wantedIn_eq]
  | succ levels ih =>
    have hgo : s.recursive = true ∧ depth < s.maxDepth := by
      rw [CatalogSettings.levelsBelow] at hlevels
      split at hlevels
      · next hrec => exact ⟨hrec, by omega⟩
      · cases hlevels
    have hbelow : s.levelsBelow (depth + 1) = levels := by
      rw [CatalogSettings.levelsBelow, if_pos hgo.1] at hlevels ⊢
      omega
    rw [descend, visited, List.flatMap_cons, eventsIn, isUnlisted, wanted, entries]
    cases fs.listing dir with
    | error cause => simp [FoundFiles.wantedIn_nil, FoundFiles.inOrder]
    | ok entries =>
      simp [hgo, wantedIn_eq, FoundFiles.inOrder_eq_byName, ih _ _ hbelow, List.flatMap_assoc]

/-- The recursion below some roots goes through the directories that are listed. -/
theorem flatMap_descend (roots : List Text) :
    roots.flatMap (fs.descend s extensions 0) =
      (roots.flatMap (fs.visited s.rootLevels)).flatMap (fs.eventsIn extensions) := by
  rw [List.flatMap_assoc]
  exact congrArg roots.flatMap (funext fun root => fs.descend_eq s extensions 0 root)

theorem filterMap_dir?_eventsIn (dir : Text) :
    (fs.eventsIn extensions dir).filterMap SearchEvent.dir? = [dir] := by
  simp [eventsIn, List.filterMap_map, Function.comp_def]

theorem filterMap_file?_eventsIn (dir : Text) :
    (fs.eventsIn extensions dir).filterMap SearchEvent.file? = fs.wanted extensions dir := by
  rw [eventsIn, List.filterMap_cons_none (SearchEvent.file?_listed _ _), List.filterMap_map]
  exact List.filterMap_some

theorem countP_isFailure_eventsIn (dir : Text) :
    (fs.eventsIn extensions dir).countP SearchEvent.isFailure = (fs.isUnlisted dir).toNat := by
  cases h : fs.isUnlisted dir <;> simp [eventsIn, h, Function.comp_def]

end FileSystem

namespace FoundFiles

/-- Passing over files that were found before is keeping the first of each. -/
theorem foldl_addFiles_eq (files found : List Text) :
    files.foldl (fun all f => if all.contains f then all else all ++ [f]) found =
      found ++ (files.filter fun f => !found.contains f).eraseDups := by
  induction files generalizing found with
  | nil => simp
  | cons f files ih =>
    rw [List.foldl_cons, ih]
    by_cases hf : found.contains f = true
    · rw [if_pos hf, List.filter_cons_of_neg (by simpa using hf)]
    · have hrest : (fun g => !(found ++ [f]).contains g) =
          fun g => !(g == f) && !found.contains g := by
        funext g
        rw [List.contains_append, Bool.not_or, Bool.and_comm, List.contains_cons,
          List.contains_nil, Bool.or_false]
      rw [if_neg hf, List.filter_cons_of_pos (by simpa using hf), List.eraseDups_cons,
        List.filter_filter, List.append_assoc, hrest]
      rfl

theorem files_addFiles_empty (files : List Text) :
    (empty.addFiles files).files = files.eraseDups := by
  have hall : (files.filter fun f => !([] : List Text).contains f) = files :=
    List.filter_eq_self.mpr fun _ _ => rfl
  refine (foldl_addFiles_eq files []).trans ?_
  rw [hall, List.nil_append]

variable (s : CatalogSettings) (extensions roots : List Text)

/-- What is found below some roots, by what happens in the recursion. -/
theorem below_eq (fs : FileSystem) :
    let walk := roots.flatMap (fs.descend s extensions 0)
    below fs extensions s.rootLevels roots =
      ⟨(walk.filterMap SearchEvent.file?).eraseDups, walk.countP SearchEvent.isFailure⟩ := by
  intro walk
  have hwalk : walk = _ := fs.flatMap_descend s extensions roots
  have hfailures (dirs : List Text) :
      (dirs.flatMap (fs.eventsIn extensions)).countP SearchEvent.isFailure =
        dirs.countP fs.isUnlisted := by
    rw [List.countP_flatMap]
    induction dirs with
    | nil => rfl
    | cons dir dirs ih =>
      rw [List.map_cons, List.sum_cons, ih, Function.comp_apply, fs.countP_isFailure_eventsIn,
        List.countP_cons, Nat.add_comm]
      cases fs.isUnlisted dir <;> rfl
  have hfiles := funext (fs.filterMap_file?_eventsIn extensions)
  rw [below, inDirectories, files_addFiles_empty, hwalk, hfailures, List.filterMap_flatMap, hfiles,
    empty, Nat.zero_add]

/-- **The search for files is a search by recursion.** It takes the entries of directories by name.
It ends after some answers to its reads, whatever they are; it does what the recursion does,
whatever is answered; and on a file system it lists the directories through which the recursion
goes, in that order, finds each file that the recursion meets, where it meets it first, and counts
the directories that cannot be listed. -/
theorem search_is_depth_first :
    (∀ entries, SortedByName entries (inOrder entries)) ∧
    (∀ answers : Nat → Except Text (List DirectoryEntry), ∃ n found,
      (ofRoots extensions s.rootLevels roots).answered
        ((List.range n).map fun i => .directory (answers i)) = .done found) ∧
    ofRoots extensions s.rootLevels roots = visitAll extensions s.rootLevels roots empty ∧
    ∀ fs : FileSystem,
      let walk := roots.flatMap (fs.descend s extensions 0)
      (ofRoots extensions s.rootLevels roots).Runs fs
        ⟨(walk.filterMap SearchEvent.file?).eraseDups, walk.countP SearchEvent.isFailure⟩
        (walk.filterMap SearchEvent.dir?) [] := by
  refine ⟨sortedByName_inOrder, fun answers => exists_answered_walk _ answers _ _, ?_,
    fun fs => ?_⟩
  · rw [ofRoots, walk_eq_foldlM, List.foldlM_map]
    rfl
  · intro walk
    have hdirs : walk.filterMap SearchEvent.dir? = roots.flatMap (fs.visited s.rootLevels) := by
      rw [show walk = _ from fs.flatMap_descend s extensions roots, List.filterMap_flatMap]
      simp [fs.filterMap_dir?_eventsIn]
    rw [← below_eq, hdirs]
    exact runs_ofRoots fs extensions s.rootLevels roots

end FoundFiles

end SexpEditing
