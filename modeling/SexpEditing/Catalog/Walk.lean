import SexpEditing.Files.Path
import SexpEditing.Files.Task

/-!
# Searching directories for files

Directories are searched depth first. The entries of a directory are taken in the order of their
names: its wanted files are collected first, then its subdirectories are searched, as far as the
levels allow. A directory that cannot be listed is reported and skipped.

The directories still to be searched stand on a stack. A directory that is listed gives way to its
subdirectories, which may be searched fewer levels deep; so the search ends even where directories
lead back to themselves.

## Main definitions

* `PendingDirectory`, `FoundFiles`: what is still to be searched, and what was found
* `FoundFiles.walk`: the search from a stack of directories
* `FoundFiles.visit`: the search below one directory by recursion on the levels
-/

namespace SexpEditing

/-- A directory still to be searched. -/
structure PendingDirectory where
  path : Text
  /-- How many levels below it are searched. -/
  levels : Nat
deriving DecidableEq, Repr

/-- What a search found. -/
structure FoundFiles where
  /-- The wanted files in the order in which they were found, each once. -/
  files : List Text
  /-- The number of directories that could not be listed. -/
  unreadable : Nat
deriving DecidableEq, Repr

namespace FoundFiles

/-- Nothing was found yet. -/
def empty : FoundFiles := ⟨[], 0⟩

/-- The entries of a directory by name; entries of the same name keep their order. -/
def inOrder (entries : List DirectoryEntry) : List DirectoryEntry :=
  entries.mergeSort fun a b => !b.name.precedes a.name

/-- Whether the name of a file has one of some endings. Upper and lower case are the same. -/
def hasExtension (extensions : List Text) (name : Text) : Bool :=
  (extensions.map Text.lowercase).contains (Path.extension name).lowercase

/-- The wanted files of a directory, in order. -/
def wantedIn (extensions : List Text) (dir : Text) (entries : List DirectoryEntry) : List Text :=
  ((inOrder entries).filter fun e => !e.isDirectory && hasExtension extensions e.name).map fun e =>
    Path.join dir e.name

/-- The subdirectories of a directory that are searched too, in order. -/
def subdirectories (dir : PendingDirectory) (entries : List DirectoryEntry) :
    List PendingDirectory :=
  match dir.levels with
  | 0 => []
  | levels + 1 =>
    ((inOrder entries).filter DirectoryEntry.isDirectory).map fun e =>
      ⟨Path.join dir.path e.name, levels⟩

/-- Adds files that were not found before. -/
def addFiles (found : FoundFiles) (files : List Text) : FoundFiles :=
  { found with
    files := files.foldl (fun all f => if all.contains f then all else all ++ [f]) found.files }

/-- Counts a directory that could not be listed. -/
def addUnreadable (found : FoundFiles) : FoundFiles :=
  { found with unreadable := found.unreadable + 1 }

/-- The report on a directory that could not be listed. -/
def skippedDirectory (dir cause : Text) : LogEntry :=
  .warn (Text.ofString "[catalog] skipping directory " ++ dir ++ Text.ofString ": " ++ cause)

/-! ### The search from a stack -/

/-- One stack of directories is below another one if it stands there after the top was listed: the
top gave way to directories with fewer levels. -/
inductive Below : List PendingDirectory → List PendingDirectory → Prop
  | intro {dir : PendingDirectory} {subdirs rest : List PendingDirectory}
      (h : ∀ s ∈ subdirs, s.levels < dir.levels) : Below (subdirs ++ rest) (dir :: rest)

theorem acc_cons_of_acc (n : Nat) : ∀ (dir : PendingDirectory) (rest : List PendingDirectory),
    dir.levels = n → Acc Below rest → Acc Below (dir :: rest) := by
  induction n using Nat.strongRecOn with
  | ind n ih =>
    intro dir rest hdir hrest
    refine Acc.intro _ fun stack hstack => ?_
    cases hstack with
    | @intro _ subdirs _ h =>
      induction subdirs with
      | nil => exact hrest
      | cons s more ihs =>
        exact ih s.levels (hdir ▸ h s List.mem_cons_self) s _ rfl
          (ihs fun t ht => h t (List.mem_cons_of_mem _ ht))

/-- Listing directories comes to an end, whatever the listings hold. -/
theorem wellFounded_below : WellFounded Below :=
  ⟨fun stack => by
    induction stack with
    | nil => exact Acc.intro _ fun _ h => nomatch h
    | cons dir rest ih => exact acc_cons_of_acc dir.levels dir rest rfl ih⟩

/-- A stack of directories, ordered so that listing the top makes it smaller. -/
structure Stack where
  pending : List PendingDirectory

instance : WellFoundedRelation Stack :=
  ⟨InvImage Below Stack.pending, InvImage.wf _ wellFounded_below⟩

theorem levels_lt_of_mem_subdirectories {dir s : PendingDirectory} {entries : List DirectoryEntry}
    (h : s ∈ subdirectories dir entries) : s.levels < dir.levels := by
  unfold subdirectories at h
  split at h
  · simp at h
  · next levels heq =>
    obtain ⟨e, _, rfl⟩ := List.mem_map.1 h
    simp [heq]

/-- Searches the directories of a stack, the top first. -/
def walk (extensions : List Text) (found : FoundFiles) (stack : List PendingDirectory) :
    FileTask FoundFiles :=
  match stack with
  | [] => .done found
  | dir :: rest =>
    .listing dir.path fun
      | .error cause =>
        .report (skippedDirectory dir.path cause) (walk extensions found.addUnreadable rest)
      | .ok entries =>
        walk extensions (found.addFiles (wantedIn extensions dir.path entries))
          (subdirectories dir entries ++ rest)
termination_by Stack.mk stack
decreasing_by
  · exact @Below.intro dir [] rest fun _ h => nomatch h
  · exact Below.intro fun _ h => levels_lt_of_mem_subdirectories h

/-- The files below some roots. -/
def ofRoots (extensions : List Text) (levels : Nat) (roots : List Text) : FileTask FoundFiles :=
  walk extensions empty (roots.map fun root => ⟨root, levels⟩)

/-! ### The search by recursion -/

/-- Searches one directory and, as far as the levels allow, the directories below it. -/
def visit (extensions : List Text) : (levels : Nat) → (dir : Text) → FoundFiles →
    FileTask FoundFiles
  | levels, dir, found =>
    .listing dir fun
      | .error cause => .report (skippedDirectory dir cause) (.done found.addUnreadable)
      | .ok entries =>
        let found := found.addFiles (wantedIn extensions dir entries)
        match levels with
        | 0 => .done found
        | levels + 1 =>
          ((inOrder entries).filter DirectoryEntry.isDirectory).foldlM
            (fun found e => visit extensions levels (Path.join dir e.name) found) found

/-- Searches some directories one after the other. -/
def visitAll (extensions : List Text) (levels : Nat) (dirs : List Text) (found : FoundFiles) :
    FileTask FoundFiles :=
  dirs.foldlM (fun found dir => visit extensions levels dir found) found

end FoundFiles

end SexpEditing
