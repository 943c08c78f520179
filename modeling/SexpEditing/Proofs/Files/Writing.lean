import SexpEditing.Proofs.Files.Running

/-!
# What tasks write

A task that is given answers writes to its log on the way. If it is made of two tasks, one after the
other, the log holds what the first one writes and then what the second one does. Most tasks write
messages only; what the log is set up for changes nowhere else.

## Main definitions

* `LogEntry.setups`: the levels for which a log is set up
* `FileTask.written`: what a task writes while it is given answers
* `FileTask.Quiet`: a task that sets up no log

## Main results

* `FileTask.exists_of_answered_bind`: one task after another
* `FileTask.Quiet.advance`, `FileTask.Quiet.resume`: what a quiet task writes, and what is left of
  it
-/

namespace SexpEditing

/-- The levels for which a log is set up, one after the other. -/
def LogEntry.setups (entries : List LogEntry) : List LogLevel :=
  entries.filterMap fun
    | .setup level => some level
    | .message _ _ => none

namespace LogEntry

@[simp] theorem setups_nil : setups [] = [] := rfl

@[simp] theorem setups_append (es fs : List LogEntry) :
    setups (es ++ fs) = setups es ++ setups fs :=
  List.filterMap_append

end LogEntry

namespace FileTask

open LogEntry

variable {α β : Type} {task : FileTask α}

/-! ### One task after another -/

/-- What a task that waits for a read writes while it is given answers. -/
def writtenFrom : FileTask α → List ReadAnswer → List LogEntry
  | _, [] => []
  | task, answer :: answers =>
    (task.resume answer).2 ++ writtenFrom (task.resume answer).1 answers

/-- What a task writes to its log while it is given some answers. -/
def written (task : FileTask α) (answers : List ReadAnswer) : List LogEntry :=
  task.advance.2 ++ task.advance.1.writtenFrom answers

theorem answered_done (a : α) (answers : List ReadAnswer) :
    (done a).answered answers = .done a := by
  have hdone : (done a).answered [] = .done a := rfl
  exact answered_append_of_done hdone answers

theorem written_report (entry : LogEntry) (next : FileTask α) (answers : List ReadAnswer) :
    (report entry next).written answers = entry :: next.written answers := rfl

/-- **One task after another** ends if both end, each with its own answers, and it writes what both
write. -/
theorem exists_of_answered_bind {f : α → FileTask β} {answers : List ReadAnswer} {b : β}
    (h : (task.bind f).answered answers = .done b) :
    ∃ a as bs, task.answered as = .done a ∧ (f a).answered bs = .done b ∧
      (task.bind f).written answers = task.written as ++ (f a).written bs := by
  induction task generalizing answers with
  | done a => exact ⟨a, [], answers, rfl, h, rfl⟩
  | report entry next ih =>
    obtain ⟨a, as, bs, ha, hb, hwritten⟩ := ih h
    exact ⟨a, as, bs, ha, hb, congrArg (entry :: ·) hwritten⟩
  | listing path next ih =>
    -- answers of the other kind are passed over
    induction answers with
    | nil => cases h
    | cons answer answers ihAnswers =>
      cases answer with
      | directory entries =>
        obtain ⟨a, as, bs, ha, hb, hwritten⟩ := ih entries h
        exact ⟨a, .directory entries :: as, bs, ha, hb, hwritten⟩
      | file text => exact ihAnswers h
  | contents path next ih =>
    induction answers with
    | nil => cases h
    | cons answer answers ihAnswers =>
      cases answer with
      | directory entries => exact ihAnswers h
      | file text =>
        obtain ⟨a, as, bs, ha, hb, hwritten⟩ := ih text h
        exact ⟨a, .file text :: as, bs, ha, hb, hwritten⟩

/-! ### Tasks that set up no log -/

/-- A task that sets up no log, whatever its reads are answered. -/
inductive Quiet : FileTask α → Prop
  | done (a : α) : Quiet (.done a)
  | report {next : FileTask α} (severity : Severity) (text : Text) (h : Quiet next) :
    Quiet (.report (.message severity text) next)
  | listing {path : Text} {next : Except Text (List DirectoryEntry) → FileTask α}
    (h : ∀ entries, Quiet (next entries)) : Quiet (.listing path next)
  | contents {path : Text} {next : Except Text Text → FileTask α} (h : ∀ text, Quiet (next text)) :
    Quiet (.contents path next)

theorem Quiet.bind {f : α → FileTask β} (h : task.Quiet) (hf : ∀ a, (f a).Quiet) :
    (task.bind f).Quiet := by
  induction h with
  | done a => exact hf a
  | report severity text _ ih => exact .report severity text ih
  | listing _ ih => exact .listing ih
  | contents _ ih => exact .contents ih

theorem quiet_message (severity : Severity) (text : Text) :
    (FileTask.log (.message severity text)).Quiet :=
  .report severity text (.done ())

/-- A quiet task up to its next read. -/
theorem Quiet.advance (h : task.Quiet) : task.advance.1.Quiet ∧ setups task.advance.2 = [] := by
  induction h with
  | done a => exact ⟨.done a, rfl⟩
  | report severity text _ ih => exact ⟨ih.1, ih.2⟩
  | listing h _ => exact ⟨.listing h, rfl⟩
  | contents h _ => exact ⟨.contents h, rfl⟩

/-- A quiet task after one more answer. -/
theorem Quiet.resume (h : task.Quiet) (answer : ReadAnswer) :
    (task.resume answer).1.Quiet ∧ setups (task.resume answer).2 = [] := by
  cases h with
  | done a => exact ⟨.done a, rfl⟩
  | report severity text h => exact ⟨.report severity text h, rfl⟩
  | listing h =>
    cases answer with
    | directory entries => exact (h entries).advance
    | file text => exact ⟨.listing h, rfl⟩
  | contents h =>
    cases answer with
    | directory entries => exact ⟨.contents h, rfl⟩
    | file text => exact (h text).advance

theorem Quiet.setups_writtenFrom (h : task.Quiet) (answers : List ReadAnswer) :
    setups (task.writtenFrom answers) = [] := by
  induction answers generalizing task with
  | nil => rfl
  | cons answer answers ih =>
    obtain ⟨hrest, hfirst⟩ := h.resume answer
    rw [writtenFrom, setups_append, hfirst, List.nil_append]
    exact ih hrest

/-- **A quiet task** writes messages only. -/
theorem Quiet.setups_written (h : task.Quiet) (answers : List ReadAnswer) :
    setups (task.written answers) = [] := by
  obtain ⟨hrest, hfirst⟩ := h.advance
  rw [written, setups_append, hfirst, List.nil_append]
  exact hrest.setups_writtenFrom answers

/-- What is left of a quiet task is quiet. -/
theorem Quiet.answered (h : task.Quiet) (answers : List ReadAnswer) :
    (task.answered answers).Quiet := by
  have hwaits := h.advance.1
  rw [FileTask.answered]
  generalize task.advance.1 = rest at hwaits
  induction answers generalizing rest with
  | nil => exact hwaits
  | cons answer answers ih => exact ih _ (hwaits.resume answer).1

end FileTask

end SexpEditing
