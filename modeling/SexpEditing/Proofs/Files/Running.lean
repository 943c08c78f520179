import SexpEditing.Files.Task

/-!
# Tasks that run, and tasks that are answered

A task can be run to its end on a file system, which gives all answers at once; then it is told by
its answer, the directories that it lists and the files that it reads. Or it can be given one answer
after the other, by whoever has them. With the answers of a file system, both are the same.

## Main definitions

* `FileEvent.listings`, `FileEvent.reads`: the directories and the files among what a task did
* `FileTask.Runs`: what a task does on a file system
* `FileTask.answered`, `FileTask.Takes`: a task after some answers, and the answers for which it
  waits
* `FileSystem.answersIn`: the answers of a file system

## Main results

* `FileTask.Runs.bind`: one task after another
* `FileTask.advance_answered`: a task that was answered waits for a read, or has come to its end
* `FileTask.answered_answersIn`: running is being answered
-/

namespace SexpEditing

/-! ### Tasks on a file system -/

namespace FileEvent

/-- The directories that were listed. -/
def listings (events : List FileEvent) : List Text :=
  events.filterMap fun
    | .listed path => some path
    | .log _ | .read _ => none

/-- The files that were read. -/
def reads (events : List FileEvent) : List Text :=
  events.filterMap fun
    | .read path => some path
    | .log _ | .listed _ => none

theorem listings_append (as bs : List FileEvent) :
    listings (as ++ bs) = listings as ++ listings bs :=
  List.filterMap_append

theorem reads_append (as bs : List FileEvent) : reads (as ++ bs) = reads as ++ reads bs :=
  List.filterMap_append

end FileEvent

/-- On a file system, a task ends with an answer, lists some directories and reads some files, each
in order. -/
structure FileTask.Runs {α : Type} (fs : FileSystem) (task : FileTask α) (answer : α)
    (dirs files : List Text) : Prop where
  answer_eq : (task.run fs).1 = answer
  listings_eq : FileEvent.listings (task.run fs).2 = dirs
  reads_eq : FileEvent.reads (task.run fs).2 = files

namespace FileTask

variable {α β : Type} {fs : FileSystem} {a : α} {dirs files : List Text}

theorem runs_done (fs : FileSystem) (a : α) : (done a).Runs fs a [] [] := ⟨rfl, rfl, rfl⟩

theorem Runs.report {task : FileTask α} (h : task.Runs fs a dirs files) (entry : LogEntry) :
    (FileTask.report entry task).Runs fs a dirs files :=
  ⟨h.answer_eq, h.listings_eq, h.reads_eq⟩

theorem Runs.listing {path : Text} {next : Except Text (List DirectoryEntry) → FileTask α}
    (h : (next (fs.listing path)).Runs fs a dirs files) :
    (FileTask.listing path next).Runs fs a (path :: dirs) files :=
  ⟨h.answer_eq, congrArg (path :: ·) h.listings_eq, h.reads_eq⟩

theorem Runs.contents {path : Text} {next : Except Text Text → FileTask α}
    (h : (next (fs.contents path)).Runs fs a dirs files) :
    (FileTask.contents path next).Runs fs a dirs (path :: files) :=
  ⟨h.answer_eq, h.listings_eq, congrArg (path :: ·) h.reads_eq⟩

/-- One task after another. -/
theorem Runs.bind {task : FileTask α} {f : α → FileTask β} {b : β} {dirs' files' : List Text}
    (h : task.Runs fs a dirs files) (h' : (f a).Runs fs b dirs' files') :
    (task.bind f).Runs fs b (dirs ++ dirs') (files ++ files') := by
  obtain ⟨rfl, rfl, rfl⟩ := h
  constructor
  · rw [run_bind, h'.answer_eq]
  · rw [run_bind, FileEvent.listings_append, h'.listings_eq]
  · rw [run_bind, FileEvent.reads_append, h'.reads_eq]

/-! Tasks in sequence are a lawful monad. -/

theorem bind_done (task : FileTask α) : task.bind .done = task := by
  induction task with
  | done => rfl
  | report entry next ih => exact congrArg (FileTask.report entry) ih
  | listing path next ih => exact congrArg (FileTask.listing path) (funext ih)
  | contents path next ih => exact congrArg (FileTask.contents path) (funext ih)

theorem bind_bind {γ : Type} (task : FileTask α) (f : α → FileTask β) (g : β → FileTask γ) :
    (task.bind f).bind g = task.bind fun a => (f a).bind g := by
  induction task with
  | done => rfl
  | report entry next ih => exact congrArg (FileTask.report entry) ih
  | listing path next ih => exact congrArg (FileTask.listing path) (funext ih)
  | contents path next ih => exact congrArg (FileTask.contents path) (funext ih)

instance : LawfulMonad FileTask := .mk' FileTask bind_done (fun _ _ => rfl) bind_bind

theorem runs_logAll (fs : FileSystem) (entries : List LogEntry) :
    (logAll entries).Runs fs () [] [] := by
  induction entries with
  | nil => exact runs_done fs ()
  | cons entry entries ih => exact ih.report entry

end FileTask

/-! ### Tasks that are stopped at their reads -/

namespace FileTask

variable {α : Type}

/-- What is left of a task after some answers to its reads. -/
def answered (task : FileTask α) (answers : List ReadAnswer) : FileTask α :=
  answers.foldl (fun task answer => (task.resume answer).1) task.advance.1

theorem answered_concat (task : FileTask α) (answers : List ReadAnswer) (answer : ReadAnswer) :
    task.answered (answers ++ [answer]) = ((task.answered answers).resume answer).1 := by
  rw [answered, answered, List.foldl_append]
  rfl

theorem advance_advance (task : FileTask α) : task.advance.1.advance.1 = task.advance.1 := by
  induction task with
  | report entry next ih => exact ih
  | done | listing | contents => rfl

theorem advance_ne_report (task next : FileTask α) (entry : LogEntry) :
    task.advance.1 ≠ .report entry next := by
  induction task with
  | report entry' next' ih => exact ih
  | done | listing | contents => exact nofun

theorem advance_resume {task : FileTask α} (h : task.advance.1 = task) (answer : ReadAnswer) :
    (task.resume answer).1.advance.1 = (task.resume answer).1 := by
  unfold resume
  split
  · exact advance_advance _
  · exact advance_advance _
  · exact h

/-- A task that was answered has come to its next read, or to its end. -/
theorem advance_answered (task : FileTask α) (answers : List ReadAnswer) :
    (task.answered answers).advance.1 = task.answered answers := by
  rw [answered]
  generalize h : task.advance.1 = t
  have ht : t.advance.1 = t := h ▸ advance_advance task
  clear h
  induction answers generalizing t with
  | nil => exact ht
  | cons answer answers ih => exact ih _ (advance_resume ht answer)

/-- A task that has come to its end takes no more answers. -/
theorem answered_append_of_done {task : FileTask α} {answers : List ReadAnswer} {a : α}
    (h : task.answered answers = .done a) (more : List ReadAnswer) :
    task.answered (answers ++ more) = .done a := by
  rw [answered] at h
  rw [answered, List.foldl_append, h]
  induction more with
  | nil => rfl
  | cons answer more ih => exact ih

/-- A task waits for a read, and an answer is of the kind for which it waits. -/
def Takes : FileTask α → ReadAnswer → Prop
  | .listing _ _, .directory _ => True
  | .contents _ _, .file _ => True
  | _, _ => False

theorem resume_of_not_takes {task : FileTask α} {answer : ReadAnswer} (h : ¬task.Takes answer) :
    (task.resume answer).1 = task := by
  cases task with
  | done | report => rfl
  | listing path next =>
    cases answer with
    | directory => exact absurd trivial h
    | file => rfl
  | contents path next =>
    cases answer with
    | directory => rfl
    | file => exact absurd trivial h

end FileTask

/-- The answers that a file system gives to reads. -/
def FileSystem.answersIn (fs : FileSystem) (events : List FileEvent) : List ReadAnswer :=
  events.filterMap fun
    | .log _ => none
    | .listed path => some (.directory (fs.listing path))
    | .read path => some (.file (fs.contents path))

/-- A task that is given the answers of a file system does what it does on the file system. -/
theorem FileTask.answered_answersIn {α : Type} (fs : FileSystem) (task : FileTask α) :
    task.answered (fs.answersIn (task.run fs).2) = .done (task.run fs).1 := by
  induction task with
  | done answer => rfl
  | report entry next ih => exact ih
  | listing path next ih => exact ih (fs.listing path)
  | contents path next ih => exact ih (fs.contents path)

end SexpEditing
