import SexpEditing.Sorting.Insertion

/-!
# Merging in leaps

Two runs are merged from one end to the other. Items are compared one by one until one run was ahead
several times in a row; from then on, the number of items that a run is ahead is found in leaps of
growing width, for as long as that pays. Where the comparison orders all items, two sorted runs give
the sorted list of their items; where it does not, the items that are compared decide.

## Main definitions

* `leap`: the number of items at the front of a list that fail a test
* `Merge`, `MergeWay`: a merge under way, and the direction in which it goes
* `mergeRuns`: two neighbouring runs as one

## Main statements

* `mergeRuns_perm`: no item is lost or doubled
-/

namespace SexpEditing

variable {α : Type}

/-! ### Leaps -/

/-- Between which places the items of a list start to pass a test, if the item at `last` fails it
and the one at `next` is tried next. Each leap is twice as wide as the one before, and one more. -/
def leapFrom (test : α → Bool) (items : List α) (last next : Nat) : Nat × Nat :=
  if h : next < items.length then
    if test items[next] then (last + 1, next) else leapFrom test items next (2 * next + 1)
  else
    (last + 1, items.length)
termination_by items.length - next

/-- The number of items at the front of a list that fail a test, if the others pass it. -/
def leap (middle : Middle) (test : α → Bool) (items : List α) : Nat :=
  match items with
  | [] => 0
  | a :: _ =>
    if test a then 0
    else
      let (lo, hi) := leapFrom test items 0 1
      placeBetween middle test items lo hi

/-! ### A merge under way -/

/-- A merge under way. Of the two runs, the one that is held is never used up before the other. -/
structure Merge (α : Type) where
  /-- The items that have their place, from the last to the first. -/
  merged : List α
  held : List α
  others : List α

namespace Merge

/-- Whether what is left has its place: the items that are held come last. -/
def isDone (m : Merge α) : Bool := decide (m.held.length ≤ 1) || m.others.isEmpty

/-- All items, if those that are left have their place. -/
def result (m : Merge α) : List α := m.merged.reverse ++ (m.others ++ m.held)

/-- Gives places to the first items that are held. -/
def takeHeld (m : Merge α) (n : Nat) : Merge α :=
  { m with merged := (m.held.take n).reverse ++ m.merged, held := m.held.drop n }

/-- Gives places to the first other items. -/
def takeOthers (m : Merge α) (n : Nat) : Merge α :=
  { m with merged := (m.others.take n).reverse ++ m.merged, others := m.others.drop n }

/-- The items of a merge, in no particular order. -/
def items (m : Merge α) : List α := m.merged ++ (m.held ++ m.others)

theorem result_perm (m : Merge α) : m.result.Perm m.items :=
  (List.reverse_perm _).append List.perm_append_comm

theorem takeHeld_perm (m : Merge α) (n : Nat) : (m.takeHeld n).items.Perm m.items := by
  simp only [items, takeHeld]
  refine (((List.reverse_perm _).append_right m.merged).append_right _).trans ?_
  refine (List.perm_append_comm.append_right _).trans ?_
  rw [List.append_assoc, ← List.append_assoc (m.held.take n), List.take_append_drop]

theorem takeOthers_perm (m : Merge α) (n : Nat) : (m.takeOthers n).items.Perm m.items := by
  simp only [items, takeOthers]
  refine (((List.reverse_perm _).append_right m.merged).append_right _).trans ?_
  refine (List.perm_append_comm.append_right _).trans ?_
  rw [List.append_assoc]
  refine List.Perm.append_left _ ((List.perm_append_comm_assoc _ _ _).trans ?_)
  rw [List.take_append_drop]

end Merge

/-- A direction of merging. -/
structure MergeWay (α : Type) where
  /-- Whether an item comes before another one in this direction. -/
  before : α → α → Bool
  middle : Middle
  /-- Whether leaps begin with the run that is held. -/
  heldFirst : Bool

namespace MergeWay

/-- From the first items to the last. -/
def forward (before : α → α → Bool) : MergeWay α := ⟨before, .upper, true⟩

/-- From the last items to the first. -/
def backward (before : α → α → Bool) : MergeWay α := ⟨fun a b => before b a, .lower, false⟩

/-- How often a leap must take an item ahead of the other run to pay. -/
def worthwhile : Nat := 7

variable (w : MergeWay α)

/-- Merges item by item, until a run is done or was ahead `patience` times in a row. The last two
numbers say how often each run was ahead in a row so far. -/
def oneByOne (patience : Nat) (merged held others : List α) (heldAhead othersAhead : Nat) :
    Merge α :=
  match held, others with
  | a :: a' :: held, b :: others =>
    if w.before b a then
      if patience ≤ othersAhead + 1 then ⟨b :: merged, a :: a' :: held, others⟩
      else oneByOne patience (b :: merged) (a :: a' :: held) others 0 (othersAhead + 1)
    else
      if patience ≤ heldAhead + 1 then ⟨a :: merged, a' :: held, b :: others⟩
      else oneByOne patience (a :: merged) (a' :: held) (b :: others) (heldAhead + 1) 0
  | held, others => ⟨merged, held, others⟩
termination_by held.length + others.length

/-- The number of items that are held and do not come after the first other item. -/
def leapOverHeld (m : Merge α) : Nat :=
  match m.others with
  | [] => 0
  | b :: _ => leap w.middle (fun a => w.before b a) m.held

/-- The number of other items that come before the first item that is held. -/
def leapOverOthers (m : Merge α) : Nat :=
  match m.held with
  | [] => 0
  | a :: _ => leap w.middle (fun b => !w.before b a) m.others

/-- Takes the items that a leap passes, and then one of the other run. Answers the width of the leap
too. -/
def leapOnce (overHeld : Bool) (m : Merge α) : Merge α × Nat :=
  if overHeld then
    let n := w.leapOverHeld m
    let m := m.takeHeld n
    (if m.isDone then m else m.takeOthers 1, n)
  else
    let n := w.leapOverOthers m
    let m := m.takeOthers n
    (if m.isDone then m else m.takeHeld 1, n)

/-- Leaps over one run, and then over the other. Answers the width of the wider leap too. -/
def leapBoth (m : Merge α) : Merge α × Nat :=
  let (m, n) := w.leapOnce w.heldFirst m
  if m.isDone then (m, n)
  else
    let (m, k) := w.leapOnce (!w.heldFirst) m
    (m, max n k)

/-- Merges in leaps for as long as that pays. Patience shrinks while it pays, and grows when it no
longer does. There are at most `fuel` leaps. -/
def inLeaps : (fuel patience : Nat) → Merge α → Merge α × Nat
  | 0, patience, m => (m, patience)
  | fuel + 1, patience, m =>
    let (m, width) := w.leapBoth m
    if m.isDone then (m, patience)
    else if worthwhile ≤ width then inLeaps fuel (max 1 (patience - 1)) m
    else (m, patience + 1)

/-- Merges item by item and in leaps by turns. There are at most `fuel` turns. -/
def byTurns : (fuel patience : Nat) → Merge α → Merge α × Nat
  | 0, patience, m => (m, patience)
  | fuel + 1, patience, m =>
    if m.isDone then (m, patience)
    else
      let m := w.oneByOne patience m.merged m.held m.others 0 0
      if m.isDone then (m, patience)
      else
        let (m, patience) := w.inLeaps (m.held.length + m.others.length) patience m
        byTurns fuel patience m

/-- Merges two runs of which the first item of the second comes before all others. Answers the
patience that is left too. -/
def merge (patience : Nat) (held others : List α) : List α × Nat :=
  let start : Merge α := ⟨[], held, others⟩
  let (m, patience) := w.byTurns (held.length + others.length) patience (start.takeOthers 1)
  (m.result, patience)

/-! No item is lost or doubled on the way. -/

theorem oneByOne_perm (patience : Nat) (merged held others : List α) (heldAhead othersAhead : Nat) :
    (w.oneByOne patience merged held others heldAhead othersAhead).items.Perm
      (merged ++ (held ++ others)) := by
  have takeOther {merged held others : List α} {b : α} :
      ((b :: merged) ++ (held ++ others)).Perm (merged ++ (held ++ b :: others)) :=
    List.perm_middle.symm.trans (List.Perm.append_left _ List.perm_middle.symm)
  have takeHeld {merged held others : List α} {a : α} :
      ((a :: merged) ++ (held ++ others)).Perm (merged ++ ((a :: held) ++ others)) :=
    List.perm_middle.symm
  fun_induction oneByOne w patience merged held others heldAhead othersAhead with
  | case1 => exact takeOther
  | case2 _ _ _ _ _ _ _ _ _ _ ih => exact ih.trans takeOther
  | case3 => exact takeHeld
  | case4 _ _ _ _ _ _ _ _ _ _ ih => exact ih.trans takeHeld
  | case5 => exact List.Perm.refl _

theorem leapOnce_perm (overHeld : Bool) (m : Merge α) :
    (w.leapOnce overHeld m).1.items.Perm m.items := by
  simp only [leapOnce]
  split
  · split
    · exact m.takeHeld_perm _
    · exact (Merge.takeOthers_perm _ 1).trans (m.takeHeld_perm _)
  · split
    · exact m.takeOthers_perm _
    · exact (Merge.takeHeld_perm _ 1).trans (m.takeOthers_perm _)

theorem leapBoth_perm (m : Merge α) : (w.leapBoth m).1.items.Perm m.items := by
  simp only [leapBoth]
  split
  · exact w.leapOnce_perm _ m
  · exact (w.leapOnce_perm _ _).trans (w.leapOnce_perm _ m)

theorem inLeaps_perm (fuel patience : Nat) (m : Merge α) :
    (w.inLeaps fuel patience m).1.items.Perm m.items := by
  induction fuel generalizing patience m with
  | zero => exact List.Perm.refl _
  | succ fuel ih =>
    simp only [inLeaps]
    split
    · exact w.leapBoth_perm m
    · split
      · exact (ih _ _).trans (w.leapBoth_perm m)
      · exact w.leapBoth_perm m

theorem byTurns_perm (fuel patience : Nat) (m : Merge α) :
    (w.byTurns fuel patience m).1.items.Perm m.items := by
  induction fuel generalizing patience m with
  | zero => exact List.Perm.refl _
  | succ fuel ih =>
    have h := w.oneByOne_perm patience m.merged m.held m.others 0 0
    simp only [byTurns]
    split
    · exact List.Perm.refl _
    · split
      · exact h
      · exact (ih _ _).trans ((w.inLeaps_perm _ _ _).trans h)

theorem merge_perm (patience : Nat) (held others : List α) :
    (w.merge patience held others).1.Perm (held ++ others) := by
  simp only [merge]
  exact (Merge.result_perm _).trans ((w.byTurns_perm _ _ _).trans (Merge.takeOthers_perm _ 1))

end MergeWay

/-! ### Two runs -/

/-- Two runs as one. Items at the outer ends that have their place already are left there, and the
shorter one of the remaining runs is held. Answers the patience that is left too. -/
def mergeRuns (before : α → α → Bool) (patience : Nat) (first second : List α) :
    List α × Nat :=
  match second with
  | [] => (first, patience)
  | b :: _ =>
    let n := leap .upper (fun a => before b a) first
    let front := first.take n
    let first := first.drop n
    match first.getLast? with
    | none => (front ++ second, patience)
    | some a =>
      let k := second.length - leap .lower (fun b => before b a) second.reverse
      let back := second.drop k
      let second := second.take k
      if second.isEmpty then (front ++ first ++ back, patience)
      else if first.length ≤ second.length then
        let (merged, patience) := (MergeWay.forward before).merge patience first second
        (front ++ merged ++ back, patience)
      else
        let (merged, patience) :=
          (MergeWay.backward before).merge patience second.reverse first.reverse
        (front ++ merged.reverse ++ back, patience)

/-- No item is lost or doubled. -/
theorem mergeRuns_perm (before : α → α → Bool) (patience : Nat) (first second : List α) :
    (mergeRuns before patience first second).1.Perm (first ++ second) := by
  cases second with
  | nil => simp [mergeRuns]
  | cons b rest =>
    simp only [mergeRuns]
    generalize b :: rest = second
    generalize leap .upper (fun a => before b a) first = n
    have hn := List.take_append_drop n first
    split
    · rename_i h
      rw [List.getLast?_eq_none_iff.mp h, List.append_nil] at hn
      rw [hn]
    · rename_i a _
      generalize second.length - leap .lower (fun b => before b a) second.reverse = k
      have hk := List.take_append_drop k second
      have whole : (first.take n ++ (first.drop n ++ second.take k) ++ second.drop k).Perm
          (first ++ second) := by
        rw [← List.append_assoc, hn, List.append_assoc, hk]
      split
      · rename_i h
        rwa [List.isEmpty_iff.mp h, List.append_nil] at whole
      · split
        · exact (((MergeWay.merge_perm _ _ _ _).append_left _).append_right _).trans whole
        · have h := (MergeWay.backward before).merge_perm patience (second.take k).reverse
            (first.drop n).reverse
          have h : _ := (List.reverse_perm _).trans (h.trans
            (((List.reverse_perm _).append (List.reverse_perm _)).trans List.perm_append_comm))
          exact ((h.append_left _).append_right _).trans whole

end SexpEditing
