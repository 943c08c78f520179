/-!
# Binary search

A search in an ordered array by a test that says on which side of an item the wanted place lies.
The order in which items are probed is part of the result: where several items match, or the array
is not ordered, it decides which index is found.

## Main definitions

* `SearchResult`: an item that matches, or the gap where one would stand
* `search`: halves the window that is still possible until it is empty
-/

namespace SexpEditing

/-- Where a search ended. -/
inductive SearchResult
  /-- The item with this index matches. -/
  | found (index : Nat)
  /-- No item matches; the wanted place is just before the item with this index. -/
  | gap (index : Nat)
deriving DecidableEq, Repr

/-- Searches the window of indexes from `lo` up to, but not including, `hi`. The middle of an even
number of items is the lower one. -/
def searchWindow {α : Type} (items : Array α) (side : α → Ordering) (lo hi : Nat)
    (h : hi ≤ items.size) : SearchResult :=
  if hlt : lo < hi then
    let middle := (lo + hi - 1) / 2
    have : middle < items.size := by omega
    match side items[middle] with
    | .eq => .found middle
    | .lt => searchWindow items side lo middle (by omega)
    | .gt => searchWindow items side (middle + 1) hi h
  else
    .gap lo
termination_by hi - lo

/-- Searches an array. The test answers on which side of an item the wanted place lies: `lt`
before it, `gt` after it, `eq` on it. -/
def search {α : Type} (items : Array α) (side : α → Ordering) : SearchResult :=
  searchWindow items side 0 items.size (Nat.le_refl _)

end SexpEditing
