import SexpEditing.Search

/-!
# What a binary search finds

A search says where a place lies among items that stand in order. The items before the place come
first, then those at it, then those after it; under this condition a gap splits the items exactly.

## Main definitions

* `InOrder`: the items stand in order with respect to a place

## Main results

* `side_of_search_found`: an item that is found lies at the place
* `sides_of_search_gap`: a gap has the items before the place on its left, the others on its right
-/

namespace SexpEditing

variable {α : Type} {items : Array α} {side : α → Ordering}

/-- The items stand in order with respect to a place: once the place lies before an item, it lies
before all that follow, and while it lies after an item, it lies after all that precede. -/
def InOrder (items : Array α) (side : α → Ordering) : Prop :=
  ∀ i j (hi : i < items.size) (hj : j < items.size), i < j →
    (side items[i] = .lt → side items[j] = .lt) ∧ (side items[j] = .gt → side items[i] = .gt)

theorem side_of_searchWindow_found {lo hi i : Nat} {h : hi ≤ items.size}
    (hf : searchWindow items side lo hi h = .found i) :
    ∃ hi : i < items.size, side items[i] = .eq := by
  fun_induction searchWindow items side lo hi h with
  | case1 lo hi h hlt middle hm heq =>
    have he : middle = i := SearchResult.found.inj hf
    exact he ▸ ⟨hm, heq⟩
  | case2 lo hi h hlt middle hm heq ih => exact ih hf
  | case3 lo hi h hlt middle hm heq ih => exact ih hf
  | case4 => cases hf

/-- An item that is found lies at the wanted place. -/
theorem side_of_search_found {i : Nat} (hf : search items side = .found i) :
    ∃ hi : i < items.size, side items[i] = .eq :=
  side_of_searchWindow_found hf

/-- The window of a search keeps the gap: what lies to its left is before the place, what lies to
its right is after it. -/
theorem sides_of_searchWindow_gap (ho : InOrder items side) {lo hi i : Nat} {h : hi ≤ items.size}
    (hlo : lo ≤ hi) (hleft : ∀ j (hj : j < items.size), j < lo → side items[j] = .gt)
    (hright : ∀ j (hj : j < items.size), hi ≤ j → side items[j] = .lt)
    (hg : searchWindow items side lo hi h = .gap i) :
    i ≤ items.size ∧ (∀ j (hj : j < items.size), j < i → side items[j] = .gt) ∧
      ∀ j (hj : j < items.size), i ≤ j → side items[j] = .lt := by
  fun_induction searchWindow items side lo hi h with
  | case1 => cases hg
  | case2 lo hi h hlt middle hm heq ih =>
    -- the place lies before the middle item, hence before all that follow it
    have hmid : middle = (lo + hi - 1) / 2 := rfl
    refine ih (by omega) hleft (fun j hj hmj => ?_) hg
    rcases Nat.lt_or_eq_of_le hmj with hmj | rfl
    · exact (ho middle j hm hj hmj).1 heq
    · exact heq
  | case3 lo hi h hlt middle hm heq ih =>
    have hmid : middle = (lo + hi - 1) / 2 := rfl
    refine ih (by omega) (fun j hj hjm => ?_) hright hg
    rcases Nat.lt_or_eq_of_le (Nat.lt_succ_iff.mp hjm) with hjm | rfl
    · exact (ho j middle hj hm hjm).2 heq
    · exact heq
  | case4 lo hi h hlt =>
    cases hg
    exact ⟨by omega, hleft, fun j hj hlj => hright j hj (by omega)⟩

/-- A gap splits the items: those on its left lie before the place, those on its right after it. -/
theorem sides_of_search_gap (ho : InOrder items side) {i : Nat}
    (hg : search items side = .gap i) :
    i ≤ items.size ∧ (∀ j (hj : j < items.size), j < i → side items[j] = .gt) ∧
      ∀ j (hj : j < items.size), i ≤ j → side items[j] = .lt :=
  sides_of_searchWindow_gap ho (Nat.zero_le _) (fun _ _ h => absurd h (Nat.not_lt_zero _))
    (fun _ hj h => absurd hj (Nat.not_lt_of_le h)) hg

end SexpEditing
