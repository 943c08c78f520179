import SexpEditing.Search

/-!
# Ranges of offsets

A range holds the offsets from its start up to, but not including, its stop.

## Main definitions

* `Range.side`: where an offset lies relative to a range
* `Range.union`: the least range that holds all of some ranges
* `RangeSource`: ranges gathered from things that may be absent or grouped
* `searchRanges`: the range that holds an offset, among ranges in increasing order
-/

namespace SexpEditing

/-- The offsets from `start` up to, but not including, `stop`. -/
structure Range where
  start : Int
  stop : Int
deriving DecidableEq, Repr

/-- Why ranges have no union. -/
inductive RangeError
  /-- There was no range to begin with. -/
  | noRanges
deriving DecidableEq, Repr

/-- The wording of an error. -/
def RangeError.message : RangeError → String
  | .noRanges => "need at least one range"

namespace Range

/-- Where an offset lies: before the range, in it, or at its stop or after. -/
def side (r : Range) (offset : Int) : Ordering :=
  if offset < r.start then .lt else if offset ≥ r.stop then .gt else .eq

/-- The least range that holds two ranges. -/
def join (r s : Range) : Range := ⟨min r.start s.start, max r.stop s.stop⟩

/-- The least range that holds a range and every range of a list. -/
def joinAll (r : Range) (rs : List Range) : Range := rs.foldl join r

/-- The least range that holds every range of a list, which must not be empty. -/
def union : List Range → Except RangeError Range
  | [] => .error .noRanges
  | r :: rs => .ok (r.joinAll rs)

@[simp] theorem joinAll_nil (r : Range) : r.joinAll [] = r := rfl

@[simp] theorem joinAll_cons (r s : Range) (rs : List Range) :
    r.joinAll (s :: rs) = (r.join s).joinAll rs := rfl

theorem side_eq_eq_iff (r : Range) (offset : Int) :
    r.side offset = .eq ↔ r.start ≤ offset ∧ offset < r.stop := by
  unfold side
  split
  · simp only [reduceCtorEq, false_iff]
    omega
  · split <;> simp only [reduceCtorEq, false_iff, true_iff] <;> omega

theorem side_eq_lt_iff (r : Range) (offset : Int) : r.side offset = .lt ↔ offset < r.start := by
  unfold side
  split
  · next h => exact iff_of_true rfl h
  · next h => split <;> simp [h]

theorem side_eq_gt_iff {r : Range} (hr : r.start ≤ r.stop) (offset : Int) :
    r.side offset = .gt ↔ r.stop ≤ offset := by
  unfold side
  split
  · simp only [reduceCtorEq, false_iff]
    omega
  · split <;> simp only [reduceCtorEq, false_iff, true_iff] <;> omega

end Range

/-- Where ranges are gathered from: nothing, one range, or a group of further sources. -/
inductive RangeSource
  | absent
  | single (range : Range)
  | group (members : List RangeSource)
deriving Inhabited

namespace RangeSource

mutual

/-- The ranges of a source, in order. -/
def ranges : RangeSource → List Range
  | .absent => []
  | .single r => [r]
  | .group members => rangesOf members

/-- The ranges of several sources, in order. -/
def rangesOf : List RangeSource → List Range
  | [] => []
  | s :: rest => s.ranges ++ rangesOf rest

end

/-- The least range that holds every range of some sources. -/
def union (sources : List RangeSource) : Except RangeError Range := Range.union (rangesOf sources)

end RangeSource

/-- Finds the item whose range holds an offset, or the gap before the first item that starts after
it. The items stand in increasing order and do not overlap. -/
def searchRanges {α : Type} (items : Array α) (range : α → Range) (offset : Int) : SearchResult :=
  search items fun item => (range item).side offset

end SexpEditing
