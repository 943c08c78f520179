/-!
# Sorting by insertion

Items are inserted one by one among others, each at a place that is found by halving. Where the
comparison orders all items, they stay sorted; where it does not, the places that are probed decide.

## Main definitions

* `Middle`, `placeBetween`: the place at which a test starts to hold, found by halving
* `insertByHalving`: items with one more at its place

## Main statements

* `foldl_insertByHalving_perm`: no item is lost or doubled
-/

namespace SexpEditing

variable {α : Type}

/-- Which one of an even number of places is the middle one. -/
inductive Middle
  | lower
  | upper
deriving DecidableEq, Repr

/-- The middle of the places from `lo` up to, but not including, `hi`. -/
def Middle.between : Middle → (lo hi : Nat) → Nat
  | .lower, lo, hi => (lo + hi - 1) / 2
  | .upper, lo, hi => (lo + hi) / 2

theorem Middle.le_between (m : Middle) {lo hi : Nat} (h : lo < hi) : lo ≤ m.between lo hi := by
  cases m <;> simp only [between] <;> omega

theorem Middle.between_lt (m : Middle) {lo hi : Nat} (h : lo < hi) : m.between lo hi < hi := by
  cases m <;> simp only [between] <;> omega

/-- The first place from `lo` up to `hi` at which items pass a test, if they pass it from some place
on. -/
def placeBetween (middle : Middle) (test : α → Bool) (items : List α) (lo hi : Nat) : Nat :=
  if h : lo < hi then
    let m := middle.between lo hi
    have := middle.le_between h
    have := middle.between_lt h
    if items[m]?.any test then placeBetween middle test items lo m
    else placeBetween middle test items (m + 1) hi
  else
    lo
termination_by hi - lo

/-- Items with one more, which is put before the first item that it comes before. -/
def insertByHalving (before : α → α → Bool) (items : List α) (a : α) : List α :=
  let place := placeBetween .upper (before a) items 0 items.length
  items.take place ++ a :: items.drop place

theorem insertByHalving_perm (before : α → α → Bool) (items : List α) (a : α) :
    (insertByHalving before items a).Perm (a :: items) := by
  simp only [insertByHalving]
  refine List.perm_middle.trans (List.Perm.cons a ?_)
  rw [List.take_append_drop]

/-- No item is lost or doubled. -/
theorem foldl_insertByHalving_perm (before : α → α → Bool) (items run : List α) :
    (items.foldl (insertByHalving before) run).Perm (run ++ items) := by
  induction items generalizing run with
  | nil => simp
  | cons a items ih =>
    exact (ih _).trans (((insertByHalving_perm before run a).append_right items).trans
      List.perm_middle.symm)

end SexpEditing
