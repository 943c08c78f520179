import SexpEditing.Proofs.Token.Order

/-!
# Queries by offset

What a query by offset finds is what a walk over all tokens finds. The tokens of a text are in
order, so those that a walk passes over come first: going forward, it stops at the first token
behind them; going backward, at the last of them.

## Main definitions

* `Token.isAhead`: the tokens that a query looks for
* `Token.nearest`: what a walk over all tokens finds

## Main results

* `Token.Ordered.indexAfter_eq_nearest`, `Token.Ordered.indexBefore_eq_nearest`: the searches by
  halving find what a walk finds
* `TokenIndex.queries_are_linear`: so do all queries on the index of a text
-/

namespace SexpEditing

namespace Token

/-- Whether a token is one that is looked for: going forward from an offset, one that ends after
it; going backward, one that starts before it. -/
def isAhead (offset : Int) : Direction → Token → Bool
  | .forward, u => offset < u.stop
  | .backward, u => u.start < offset

/-- What a walk over all tokens finds, with its index: going forward, the first token that ends
after an offset; going backward, the last one that starts before it. -/
def nearest (ts : List Token) (offset : Int) : Direction → Option (Token × Nat)
  | .forward => ts.zipIdx.find? fun u => u.1.isAhead offset .forward
  | .backward => ts.zipIdx.findRev? fun u => u.1.isAhead offset .backward

variable {ts : List Token}

/-- A walk finds nothing only if there is nothing to be found. -/
theorem nearest_eq_none_iff (offset : Int) (d : Direction) :
    nearest ts offset d = none ↔ ∀ u ∈ ts, u.isAhead offset d = false := by
  have hmem : (∀ u ∈ ts.zipIdx.map Prod.fst, u.isAhead offset d = false) ↔
      ∀ u ∈ ts.zipIdx, u.1.isAhead offset d = false := List.forall_mem_map
  rw [List.zipIdx_map_fst] at hmem
  rw [hmem]
  cases d with
  | forward => simp [nearest]
  | backward => simp [nearest, List.findRev?_eq_find?_reverse]

theorem countP_zipIdx (p : Token → Bool) : ts.zipIdx.countP (fun u => p u.1) = ts.countP p := by
  rw [← List.zipIdx_map_fst 0 ts, List.countP_map]
  simp [Function.comp_def]

theorem pairwise_zipIdx {R : Token → Token → Prop} (h : ts.Pairwise R) :
    ts.zipIdx.Pairwise fun u v => R u.1 v.1 := by
  rwa [← List.pairwise_map, List.zipIdx_map_fst]

section Ordered

variable (h : Ordered ts)
include h

/-- Going forward, a walk stops behind the tokens that end at the offset or before it. -/
theorem Ordered.nearest_forward (offset : Int) :
    nearest ts offset .forward = ts.zipIdx[countEnded ts offset]? := by
  have hnot : (fun u : Token × Nat => u.1.isAhead offset .forward) =
      fun u => !decide (u.1.stop ≤ offset) := by
    funext u
    rw [isAhead, ← decide_not]
    simp only [Int.not_le]
  rw [nearest, hnot, find?_not_eq_getElem? (pairwise_zipIdx (h.pairwise_stops offset)),
    countP_zipIdx fun u => decide (u.stop ≤ offset), countEnded]

/-- Going backward, it stops at the last of the tokens that start before the offset. -/
theorem Ordered.nearest_backward (offset : Int) :
    nearest ts offset .backward =
      (previousIndex (countBefore ts offset)).bind fun i => ts.zipIdx[i]? := by
  rw [nearest]
  simp only [isAhead]
  rw [findRev?_eq_getElem? (pairwise_zipIdx (h.pairwise_starts offset)),
    countP_zipIdx fun u => decide (u.start < offset), countBefore]

/-- **Halving finds what a walk finds**, going forward. -/
theorem Ordered.indexAfter_eq_nearest (offset : Int) :
    indexAfter ts.toArray offset = (nearest ts offset .forward).map Prod.snd := by
  rw [h.indexAfter_eq, h.nearest_forward, List.getElem?_zipIdx]
  split
  · next hlt => simp [hlt]
  · next hge => simp [List.getElem?_eq_none (Nat.le_of_not_lt hge)]

/-- **Halving finds what a walk finds**, going backward. -/
theorem Ordered.indexBefore_eq_nearest (offset : Int) :
    indexBefore ts.toArray offset = (nearest ts offset .backward).map Prod.snd := by
  rw [h.indexBefore_eq, h.nearest_backward]
  cases hc : countBefore ts offset with
  | zero => rfl
  | succ i =>
    have hi : i < ts.length := by
      have hle : countBefore ts offset ≤ ts.length := List.countP_le_length
      omega
    simp [previousIndex, hi]

end Ordered

end Token

namespace TokenIndex

open Token

/-- A scan finds what a walk over the tokens finds. -/
theorem scan_eq_nearest (t : Text) (offset : Int) (d : Direction) (trivia : Bool) :
    (ofText t).scan offset d trivia = (nearest (tokensWith trivia t) offset d).map Prod.fst := by
  have h : Ordered (tokensWith trivia t) := ordered_tokensWith trivia t
  cases d with
  | forward =>
    rw [scan_forward_eq, h.nearest_forward, List.getElem?_zipIdx, Option.map_map]
    exact Option.map_id'.symm
  | backward =>
    rw [scan_backward_eq, h.nearest_backward, Option.map_bind]
    congr 1
    funext i
    rw [Function.comp_apply, List.getElem?_zipIdx, Option.map_map]
    exact Option.map_id'.symm

/-- **Queries by offset.** For every text and every offset, inside the text or not, the index of a
significant token that a query answers is that of the first one that ends after the offset, or of
the last one that starts before it, and there is no answer exactly if there is no such token. The
same holds of the token that a scan answers, on all tokens and on the significant ones, and a scan
of a text is one of all its tokens. -/
theorem queries_are_linear (t : Text) (offset : Int) :
    ((ofText t).significantAfter offset =
        (nearest (significantTokens t) offset .forward).map Prod.snd ∧
      ((ofText t).significantAfter offset = none ↔
        ∀ u ∈ significantTokens t, u.stop ≤ offset)) ∧
    ((ofText t).significantBefore offset =
        (nearest (significantTokens t) offset .backward).map Prod.snd ∧
      ((ofText t).significantBefore offset = none ↔
        ∀ u ∈ significantTokens t, offset ≤ u.start)) ∧
    ∀ d : Direction, SexpEditing.scan t offset d = (ofText t).scan offset d true ∧
      ∀ trivia : Bool, (ofText t).scan offset d trivia =
          (nearest (tokensWith trivia t) offset d).map Prod.fst ∧
        ((ofText t).scan offset d trivia = none ↔
          ∀ u ∈ tokensWith trivia t, u.isAhead offset d = false) := by
  have h : Ordered (significantTokens t) := ordered_significantTokens t
  have hafter : (ofText t).significantAfter offset =
      (nearest (significantTokens t) offset .forward).map Prod.snd := h.indexAfter_eq_nearest offset
  have hbefore : (ofText t).significantBefore offset =
      (nearest (significantTokens t) offset .backward).map Prod.snd :=
    h.indexBefore_eq_nearest offset
  refine ⟨⟨hafter, ?_⟩, ⟨hbefore, ?_⟩, fun d => ⟨rfl, fun trivia => ?_⟩⟩
  · rw [hafter, Option.map_eq_none_iff, nearest_eq_none_iff]
    simp [isAhead]
  · rw [hbefore, Option.map_eq_none_iff, nearest_eq_none_iff]
    simp [isAhead]
  · have hscan := scan_eq_nearest t offset d trivia
    exact ⟨hscan, by rw [hscan, Option.map_eq_none_iff, nearest_eq_none_iff]⟩

end TokenIndex

end SexpEditing
