import SexpEditing.Log.Basic

/-!
# Computations that read files

A file task is a computation that lists directories, reads files and writes to a log. It is a tree:
each read branches over the answers that a file system may give, so a task can be run to its end on
one file system, or stopped at a read and continued later.

## Main definitions

* `FileSystem`: the answers to reads
* `FileTask`: a computation with reads and log entries, as a monad
* `FileTask.run`: its answer on a file system, and what it does on the way
* `FileTask.advance`, `FileTask.resume`: a task up to its next read, and after that read
-/

namespace SexpEditing

/-- An entry of a directory. -/
structure DirectoryEntry where
  name : Text
  isDirectory : Bool
deriving DecidableEq, Repr

/-- The answers to reads. A failure is described by a text. -/
structure FileSystem where
  /-- The entries of a directory. -/
  listing : Text → Except Text (List DirectoryEntry)
  /-- The text of a file. -/
  contents : Text → Except Text Text

/-- A computation that lists directories, reads files and writes to a log. -/
inductive FileTask (α : Type) where
  | done (answer : α)
  /-- Writes to the log. -/
  | report (entry : LogEntry) (next : FileTask α)
  /-- Lists a directory. -/
  | listing (path : Text) (next : Except Text (List DirectoryEntry) → FileTask α)
  /-- Reads a file. -/
  | contents (path : Text) (next : Except Text Text → FileTask α)

/-- What a task does that can be seen from outside. -/
inductive FileEvent
  | log (entry : LogEntry)
  | listed (path : Text)
  | read (path : Text)
deriving DecidableEq, Repr

/-- The answer to one read. -/
inductive ReadAnswer
  | directory (entries : Except Text (List DirectoryEntry))
  | file (text : Except Text Text)

namespace FileTask

variable {α β : Type}

/-- One task after another. -/
protected def bind : FileTask α → (α → FileTask β) → FileTask β
  | .done a, f => f a
  | .report entry next, f => .report entry (next.bind f)
  | .listing path next, f => .listing path fun answer => (next answer).bind f
  | .contents path next, f => .contents path fun answer => (next answer).bind f

instance : Monad FileTask where
  pure := .done
  bind := FileTask.bind

/-- Writes to the log. -/
def log (entry : LogEntry) : FileTask Unit := .report entry (.done ())

/-- Writes several entries to the log. -/
def logAll : List LogEntry → FileTask Unit
  | [] => .done ()
  | entry :: rest => .report entry (logAll rest)

/-- Lists a directory. -/
def list (path : Text) : FileTask (Except Text (List DirectoryEntry)) :=
  .listing path .done

/-- Reads a file. -/
def read (path : Text) : FileTask (Except Text Text) := .contents path .done

/-- The answer of a task on a file system, and what it does on the way. -/
def run (fs : FileSystem) : FileTask α → α × List FileEvent
  | .done a => (a, [])
  | .report entry next =>
    let (a, events) := next.run fs
    (a, .log entry :: events)
  | .listing path next =>
    let (a, events) := (next (fs.listing path)).run fs
    (a, .listed path :: events)
  | .contents path next =>
    let (a, events) := (next (fs.contents path)).run fs
    (a, .read path :: events)

/-- A task up to its next read or its end, and what it writes to the log until then. -/
def advance : FileTask α → FileTask α × List LogEntry
  | .report entry next =>
    let (task, entries) := next.advance
    (task, entry :: entries)
  | task => (task, [])

/-- A task that waits for a read, after an answer to it. A task that waits for another kind of
read, or for none, is left as it is. -/
def resume : FileTask α → ReadAnswer → FileTask α × List LogEntry
  | .listing _ next, .directory entries => (next entries).advance
  | .contents _ next, .file text => (next text).advance
  | task, _ => (task, [])

@[simp] theorem run_done (fs : FileSystem) (a : α) : (done a).run fs = (a, []) := rfl

@[simp] theorem done_bind (a : α) (f : α → FileTask β) : (done a).bind f = f a := rfl

/-- Running a sequence runs its parts in order. -/
theorem run_bind (fs : FileSystem) (task : FileTask α) (f : α → FileTask β) :
    (task.bind f).run fs =
      (((f (task.run fs).1).run fs).1, (task.run fs).2 ++ ((f (task.run fs).1).run fs).2) := by
  induction task with
  | done => simp [FileTask.bind]
  | report entry next ih => simp [FileTask.bind, run, ih]
  | listing path next ih => simp [FileTask.bind, run, ih]
  | contents path next ih => simp [FileTask.bind, run, ih]

end FileTask

end SexpEditing
