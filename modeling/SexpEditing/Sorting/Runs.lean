import SexpEditing.Sorting.Merge

/-!
# Sorting by runs

A list is cut into runs. Short runs are extended by insertion, and neighbouring runs are merged so
that their lengths stay balanced. Where the comparison orders all items, the result is the sorted
list, and items that are alike keep their order; where it does not, the items that are compared
decide.

## Main definitions

* `nextRun`: the first run of a list, long enough
* `RunStack`: the runs so far, and how they are merged
* `sortByRuns`: a sorted list

## Main statements

* `sortByRuns_perm`: no item is lost or doubled
-/

namespace SexpEditing

variable {α : Type}

/-! ### Runs -/

/-- The longest front part of a list in which any two neighbours pass a test, and the items after
it. -/
def runFront (test : α → α → Bool) : List α → List α × List α
  | [] => ([], [])
  | [a] => ([a], [])
  | a :: b :: rest =>
    if test a b then
      let (run, after) := runFront test (b :: rest)
      (a :: run, after)
    else ([a], b :: rest)

/-- Whether the second of two items or more comes before the first. -/
def isDescending (before : α → α → Bool) : List α → Bool
  | a :: b :: _ => before b a
  | _ => false

/-- The first run of a list, and the items after it. A run in which each item comes before the one
to its left is turned round. Items are inserted into a run shorter than `least`. -/
def nextRun (before : α → α → Bool) (least : Nat) (items : List α) : List α × List α :=
  let descending := isDescending before items
  let (run, rest) := runFront (fun a b => before b a == descending) items
  let run := if descending then run.reverse else run
  let missing := least - run.length
  ((rest.take missing).foldl (insertByHalving before) run, rest.drop missing)

theorem runFront_append (test : α → α → Bool) (items : List α) :
    (runFront test items).1 ++ (runFront test items).2 = items := by
  fun_induction runFront test items with
  | case1 => rfl
  | case2 => rfl
  | case3 a b rest _ ih => simp_all
  | case4 => rfl

theorem nextRun_perm (before : α → α → Bool) (least : Nat) (items : List α) :
    ((nextRun before least items).1 ++ (nextRun before least items).2).Perm items := by
  simp only [nextRun]
  have h := runFront_append (fun a b => before b a == isDescending before items) items
  generalize runFront (fun a b => before b a == isDescending before items) items = front at h ⊢
  refine ((foldl_insertByHalving_perm before _ _).append_right _).trans ?_
  rw [List.append_assoc, List.take_append_drop]
  split
  · exact ((List.reverse_perm _).append_right _).trans (by rw [h])
  · rw [h]

/-- The least length of runs for a list of a length: that length, halved until it is below
sixty-four, and one more if something was lost by that. -/
def leastRun (length : Nat) (lost : Bool) : Nat :=
  if length < 64 then length + (if lost then 1 else 0)
  else leastRun (length / 2) (lost || length % 2 == 1)
termination_by length

/-! ### Merging runs -/

/-- Runs next to each other, from the last to the first, and the patience of the next merge. -/
structure RunStack (α : Type) where
  runs : List (List α)
  patience : Nat

namespace RunStack

/-- No runs yet. -/
def empty : RunStack α := ⟨[], MergeWay.worthwhile⟩

/-- Adds a run at the end. -/
def push (s : RunStack α) (run : List α) : RunStack α := { s with runs := run :: s.runs }

/-- Whether the lengths of the last runs are out of balance. Each run is to be longer than the next
one, and than the next two together; this is looked at for the last four runs. -/
def isUnbalanced (s : RunStack α) : Bool :=
  match s.runs.map List.length with
  | c :: b :: a :: z :: _ => a ≤ b + c || z ≤ a + b || b ≤ c
  | [c, b, a] => a ≤ b + c || b ≤ c
  | [c, b] => b ≤ c
  | _ => false

/-- Merges the last but one of the runs with the shorter one of its neighbours. -/
def mergeOnce (before : α → α → Bool) (s : RunStack α) : RunStack α :=
  match s.runs with
  | c :: b :: a :: rest =>
    if a.length < c.length then
      let (run, patience) := mergeRuns before s.patience a b
      ⟨c :: run :: rest, patience⟩
    else
      let (run, patience) := mergeRuns before s.patience b c
      ⟨run :: a :: rest, patience⟩
  | [c, b] =>
    let (run, patience) := mergeRuns before s.patience b c
    ⟨[run], patience⟩
  | _ => s

/-- Merges runs until they are in balance, at most `fuel` times. -/
def balance (before : α → α → Bool) : (fuel : Nat) → RunStack α → RunStack α
  | 0, s => s
  | fuel + 1, s => if s.isUnbalanced then balance before fuel (s.mergeOnce before) else s

/-- Merges runs `n` times. -/
def mergeTimes (before : α → α → Bool) : (n : Nat) → RunStack α → RunStack α
  | 0, s => s
  | n + 1, s => mergeTimes before n (s.mergeOnce before)

/-- Cuts a list into runs and merges them as they come. There are at most `fuel` runs. -/
def cut (before : α → α → Bool) (least : Nat) : (fuel : Nat) → RunStack α → List α → RunStack α
  | _, s, [] => s
  | 0, s, items => s.push items
  | fuel + 1, s, items =>
    let (run, rest) := nextRun before least items
    let s := s.push run
    cut before least fuel (s.balance before s.runs.length) rest

/-- All items. -/
def items (s : RunStack α) : List α := s.runs.reverse.flatten

theorem mergeOnce_perm (before : α → α → Bool) (s : RunStack α) :
    (s.mergeOnce before).items.Perm s.items := by
  obtain ⟨runs, patience⟩ := s
  match runs with
  | [] => exact List.Perm.refl _
  | [_] => exact List.Perm.refl _
  | [c, b] => simpa [mergeOnce, items] using mergeRuns_perm before patience b c
  | c :: b :: a :: rest =>
    simp only [mergeOnce]
    split
    · have h := mergeRuns_perm before patience a b
      simpa [items] using ((h.append_right c).append_left rest.reverse.flatten)
    · have h := mergeRuns_perm before patience b c
      simpa [items] using ((h.append_left a).append_left rest.reverse.flatten)

theorem balance_perm (before : α → α → Bool) (fuel : Nat) (s : RunStack α) :
    (s.balance before fuel).items.Perm s.items := by
  induction fuel generalizing s with
  | zero => exact List.Perm.refl _
  | succ fuel ih =>
    simp only [balance]
    split
    · exact (ih _).trans (s.mergeOnce_perm before)
    · exact List.Perm.refl _

theorem mergeTimes_perm (before : α → α → Bool) (n : Nat) (s : RunStack α) :
    (s.mergeTimes before n).items.Perm s.items := by
  induction n generalizing s with
  | zero => exact List.Perm.refl _
  | succ n ih => exact (ih _).trans (s.mergeOnce_perm before)

theorem items_push (s : RunStack α) (run : List α) : (s.push run).items = s.items ++ run := by
  simp [items, push]

theorem cut_perm (before : α → α → Bool) (least fuel : Nat) (s : RunStack α) (items : List α) :
    (s.cut before least fuel items).items.Perm (s.items ++ items) := by
  fun_induction cut before least fuel s items with
  | case1 => simp
  | case2 => rw [items_push]
  | case3 fuel s items _ run rest h s' ih =>
    refine ih.trans (((balance_perm before _ _).append_right _).trans ?_)
    simp only [s', items_push, List.append_assoc]
    refine List.Perm.append_left _ ?_
    have := nextRun_perm before least items
    rwa [h] at this

end RunStack

/-- Sorts a list. -/
def sortByRuns (before : α → α → Bool) (items : List α) : List α :=
  let s := RunStack.empty.cut before (leastRun items.length false) items.length items
  (s.mergeTimes before s.runs.length).items

/-- No item is lost or doubled. -/
theorem sortByRuns_perm (before : α → α → Bool) (items : List α) :
    (sortByRuns before items).Perm items := by
  simp only [sortByRuns]
  exact (RunStack.mergeTimes_perm before _ _).trans
    ((RunStack.cut_perm before _ _ _ _).trans (by simp [RunStack.items, RunStack.empty]))

end SexpEditing
