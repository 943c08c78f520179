import SexpEditing.Proofs.Document.Lines
import SexpEditing.Proofs.Sexp.Enclosing

/-!
# Counting the children of a list

The walk that counts siblings goes from unit to unit; a child of a list, on the other hand, is known
by its last token, which stands directly in the list. Each unit has exactly one such token, so the
walk counts the children one by one until it runs out of steps, meets the cursor or leaves the list.

## Main definitions

* `endsChild`: a token ends a child of a list
* `childrenBefore`: the number of children of a list that end before a cursor

## Main results

* `Span.countAfter_eq_min`: the walk counts the children that end among the first tokens
* `Navigator.Shows.argIndex_contextIn`: the number of elements that a context reports
-/

namespace SexpEditing

open Matching

namespace Span

variable {kinds : List TokenKind}

/-- Whether the token with index `i` ends a child of the list that the token with index `o` opens:
an atom, a string or a closed list that stands directly in it, or marks that nothing follows. -/
def endsChild (kinds : List TokenKind) (o i : Nat) : Bool :=
  (unclosedAt kinds (i + 1)).head? == some o &&
    match kinds[i]? with
    | none | some .opener => false
    | some .mark => kinds[i + 1]?.all fun kind => kind == .closer
    | some _ => true

theorem endsChild_eq_false_of_head? {o i : Nat} (h : (unclosedAt kinds (i + 1)).head? ≠ some o) :
    endsChild kinds o i = false := by
  rw [endsChild, beq_eq_false_iff_ne.mpr h, Bool.false_and]

theorem endsChild_eq_false_of_opener {o i : Nat} (h : kinds[i]? = some .opener) :
    endsChild kinds o i = false := by
  simp [endsChild, h]

/-- A mark that is followed by something else than a closing delimiter ends no child. -/
theorem endsChild_eq_false_of_mark {o i : Nat} {kind : TokenKind} (hm : kinds[i]? = some .mark)
    (hk : kinds[i + 1]? = some kind) (hc : kind ≠ .closer) : endsChild kinds o i = false := by
  simp [endsChild, hm, hk, hc]

theorem unclosedAt_of_le_skipMarks {first i : Nat} (hi : first ≤ i)
    (hs : i ≤ skipMarks kinds first) : unclosedAt kinds i = unclosedAt kinds first :=
  unclosedAt_eq_of_marks hi fun _ hj hji => mark_of_lt_skipMarks hj (by omega)

/-- While the opener of a list stands on top of the stack, what is open above is its own. -/
theorem head?_ne_of_mem {o i n : Nat} (hm : i ∈ unclosedAt kinds n) (ho : o < i) :
    (unclosedAt kinds n).head? ≠ some o := by
  intro h
  obtain ⟨outer, hs⟩ := List.head?_eq_some_iff.mp h
  obtain ⟨-, -, rfl⟩ := eq_of_unclosedAt_eq_cons hs
  rw [hs, List.mem_cons] at hm
  rcases hm with rfl | hm
  · exact Nat.lt_irrefl _ ho
  · have := lt_of_mem_unclosedAt hm
    omega

/-- Skipped marks end no child, unless a closing delimiter comes next. -/
theorem endsChild_eq_false_of_lt_skipMarks {kind : TokenKind}
    {o first i : Nat} (hk : kinds[skipMarks kinds first]? = some kind) (hc : kind ≠ .closer)
    (hi : first ≤ i) (hs : i < skipMarks kinds first) : endsChild kinds o i = false := by
  have hm := mark_of_lt_skipMarks hi hs
  rcases Nat.lt_or_eq_of_le (Nat.succ_le_of_lt hs) with hlt | heq
  · exact endsChild_eq_false_of_mark hm (mark_of_lt_skipMarks (by omega) hlt) (by decide)
  · exact endsChild_eq_false_of_mark hm (by rw [← hk, ← heq]) hc

section Directly

variable {o first : Nat} (hd : (unclosedAt kinds first).head? = some o)
include hd

theorem lt_of_head? : o < first := by
  obtain ⟨outer, hs⟩ := List.head?_eq_some_iff.mp hd
  exact (eq_of_unclosedAt_eq_cons hs).1

/-- Where no unit starts, the list holds no further child. -/
theorem endsChild_eq_false_of_after_eq_none (h : after kinds first = none) {i : Nat}
    (hi : first ≤ i) : endsChild kinds o i = false := by
  have ho := lt_of_head? hd
  have hle : first ≤ skipMarks kinds first := le_skipMarks first
  rw [after] at h
  split at h
  · next hk =>
    -- there are no tokens any more
    have hlen : kinds.length ≤ first := Nat.le_of_not_lt fun hn => by
      have := skipMarks_lt hn
      rw [List.getElem?_eq_getElem this] at hk
      cases hk
    simp [endsChild, List.getElem?_eq_none (show kinds.length ≤ i by omega)]
  · next hk =>
    split at h
    · cases h
    · -- the list itself is closed here
      have hfirst : skipMarks kinds first = first := by omega
      rw [hfirst] at hk
      have hm : Matches kinds o first := ⟨hk, hd⟩
      apply endsChild_eq_false_of_head?
      intro hh
      exact hm.not_mem_unclosedAt (by omega) (List.mem_of_head? hh)
  · next hk =>
    -- a list begins that nothing closes, and all that follows is inside it
    have hno := closerOf?_eq_none_iff.mp (Option.map_eq_none_iff.mp h)
    by_cases his : i < skipMarks kinds first
    · exact endsChild_eq_false_of_lt_skipMarks hk (by decide) hi his
    · exact endsChild_eq_false_of_head?
        (head?_ne_of_mem (mem_unclosedAt_of_unmatched hk hno (by omega)) (by omega))
  · cases h

/-- A unit has no end of a child before its last token. -/
theorem endsChild_eq_false_of_lt_last {u : Span} (h : after kinds first = some u) {i : Nat}
    (hi : first ≤ i) (hl : i < u.last) : endsChild kinds o i = false := by
  have ho := lt_of_head? hd
  have hle : first ≤ skipMarks kinds first := le_skipMarks first
  rw [after] at h
  split at h
  · cases h
  · next hk =>
    split at h
    · cases h
      simp only at hl
      -- the unit is made up of marks, and another mark follows
      exact endsChild_eq_false_of_mark (mark_of_lt_skipMarks hi (by omega))
        (mark_of_lt_skipMarks (i := first) (by omega) (by omega)) (by decide)
    · cases h
  · next hk =>
    obtain ⟨c, hc, rfl⟩ := Option.map_eq_some_iff.mp h
    rw [closerOf?_eq_some_iff] at hc
    simp only at hl
    rcases Nat.lt_trichotomy i (skipMarks kinds first) with hlt | heq | hgt
    · exact endsChild_eq_false_of_lt_skipMarks hk (by decide) hi hlt
    · exact endsChild_eq_false_of_opener (by rw [heq, hk])
    · -- inside the unit the stack is higher
      exact endsChild_eq_false_of_head?
        (head?_ne_of_mem (hc.mem_unclosedAt (by omega) (by omega)) (by omega))
  · next kind hc _ hk =>
    cases h
    exact endsChild_eq_false_of_lt_skipMarks hk (by simpa using hc) hi hl

/-- No child of the list ends in an initial part of a unit. -/
theorem countP_endsChild_eq_zero {u : Span} (h : after kinds first = some u) {n : Nat}
    (hn : first + n ≤ u.last) : (List.range' first n).countP (endsChild kinds o) = 0 := by
  rw [List.countP_eq_zero]
  intro i hi
  rw [List.mem_range'_1] at hi
  rw [endsChild_eq_false_of_lt_last hd h hi.1 (by omega)]
  decide

/-- After a unit the reading stands directly in the list again. -/
theorem head?_unclosedAt_last {u : Span} (h : after kinds first = some u) :
    (unclosedAt kinds (u.last + 1)).head? = some o := by
  have hle : first ≤ skipMarks kinds first := le_skipMarks first
  rw [after] at h
  split at h
  · cases h
  · split at h
    · cases h
      simp only
      have hlast : skipMarks kinds first - 1 + 1 ≤ skipMarks kinds first := by omega
      rw [unclosedAt_of_le_skipMarks (by omega) hlast, hd]
    · cases h
  · obtain ⟨c, hc, rfl⟩ := Option.map_eq_some_iff.mp h
    rw [closerOf?_eq_some_iff] at hc
    simp only
    rw [hc.unclosedAt_succ, unclosedAt_of_le_skipMarks hle (Nat.le_refl _), hd]
  · next kind hc ho hk =>
    cases h
    simp only
    rw [unclosedAt_succ_of_ne (by simpa [hk] using ho) (by simpa [hk] using hc),
      unclosedAt_of_le_skipMarks hle (Nat.le_refl _), hd]

/-- The last token of a unit ends a child. -/
theorem endsChild_last {u : Span} (h : after kinds first = some u) :
    endsChild kinds o u.last = true := by
  have hh := head?_unclosedAt_last hd h
  rw [endsChild, hh, beq_self_eq_true, Bool.true_and]
  rw [after] at h
  split at h
  · cases h
  · next hk =>
    split at h
    · next hlt =>
      cases h
      -- the last of some marks, and the list is closed after it
      have hm : kinds[skipMarks kinds first - 1]? = some .mark :=
        mark_of_lt_skipMarks (show first ≤ skipMarks kinds first - 1 by omega) (by omega)
      have hnext : skipMarks kinds first - 1 + 1 = skipMarks kinds first := by omega
      simp [hm, hnext, hk]
    · cases h
  · obtain ⟨c, hc, rfl⟩ := Option.map_eq_some_iff.mp h
    rw [closerOf?_eq_some_iff] at hc
    simp [hc.1]
  · next kind hc ho hk =>
    cases h
    simp only [hk]
    cases kind with
    | mark => simp [List.getElem?_eq_none (skipMarks_stop hk)]
    | opener => exact absurd rfl ho
    | space | comment | closer | atom | string => rfl

end Directly

/-- **The walk counts the children** that end among the first `limit` tokens. -/
theorem countAfter_eq_min {o limit steps first : Nat}
    (hd : (unclosedAt kinds first).head? = some o) :
    countAfter kinds limit steps first =
      min steps ((List.range' first (limit - first)).countP (endsChild kinds o)) := by
  induction steps generalizing first with
  | zero => simp [countAfter]
  | succ steps ih =>
    rw [countAfter]
    cases ha : after kinds first with
    | none =>
      have hz : (List.range' first (limit - first)).countP (endsChild kinds o) = 0 := by
        rw [List.countP_eq_zero]
        intro i hi
        rw [endsChild_eq_false_of_after_eq_none hd ha (List.mem_range'_1.mp hi).1]
        decide
      rw [hz, Nat.min_zero]
    | some u =>
      obtain ⟨-, hle, -⟩ := after_eq_some ha
      simp only
      split
      · next hlt =>
        -- no child ends before the last token of the unit, one ends with it
        have hz := countP_endsChild_eq_zero hd ha (n := u.last - first) (by omega)
        have hsplit : limit - first = (u.last - first) + ((limit - (u.last + 1)) + 1) := by omega
        have hlast : first + (u.last - first) = u.last := by omega
        rw [ih (head?_unclosedAt_last hd ha), hsplit, ← List.range'_append_1, List.countP_append,
          hz, hlast, List.range'_succ, List.countP_cons, endsChild_last hd ha, if_pos rfl]
        omega
      · next hlt =>
        -- the unit reaches beyond the limit, and so do all children that come later
        rw [countP_endsChild_eq_zero hd ha (by omega), Nat.min_zero]

/-- Counting over all indexes, where one property bounds them below and another one above. -/
theorem countP_range_and {p q : Nat → Bool} {n lo hi : Nat} (hhi : hi ≤ n)
    (hp : ∀ i, p i = true → lo ≤ i) (hq : ∀ i < n, q i = true ↔ i < hi) :
    (List.range n).countP (fun i => p i && q i) = (List.range' lo (hi - lo)).countP p := by
  by_cases hle : lo ≤ hi
  · have hsplit : n = lo + ((hi - lo) + (n - hi)) := by omega
    have hlow : (List.range' 0 lo).countP (fun i => p i && q i) = 0 := by
      rw [List.countP_eq_zero]
      intro i hi' h
      rw [List.mem_range'_1] at hi'
      have := hp i (Bool.and_eq_true_iff.mp h).1
      omega
    have hhigh : (List.range' hi (n - hi)).countP (fun i => p i && q i) = 0 := by
      rw [List.countP_eq_zero]
      intro i hi' h
      rw [List.mem_range'_1] at hi'
      have := (hq i (by omega)).mp (Bool.and_eq_true_iff.mp h).2
      omega
    have hmid : (List.range' lo (hi - lo)).countP (fun i => p i && q i) =
        (List.range' lo (hi - lo)).countP p := by
      apply List.countP_congr
      intro i hi'
      rw [List.mem_range'_1] at hi'
      rw [(hq i (by omega)).mpr (by omega), Bool.and_true]
    have hend : lo + (hi - lo) = hi := by omega
    rw [List.range_eq_range', hsplit, ← List.range'_append_1, ← List.range'_append_1,
      List.countP_append, List.countP_append, Nat.zero_add, hlow, Nat.zero_add, hend, hhigh, hmid,
      Nat.add_zero]
  · have hz : hi - lo = 0 := by omega
    rw [hz, List.range'_zero, List.countP_nil, List.countP_eq_zero]
    intro i hi' h
    rw [List.mem_range] at hi'
    have h₁ := hp i (Bool.and_eq_true_iff.mp h).1
    have h₂ := (hq i hi').mp (Bool.and_eq_true_iff.mp h).2
    omega

end Span

/-- Whether the token with index `i` ends a child of the list that `opener` opens: an atom, a
string or a closed list that stands directly in it, or marks that nothing follows in it. -/
def endsChild (ts : List Token) (opener : Token) (i : Nat) : Bool :=
  (unclosedAfter [] (ts.take (i + 1))).head? == some opener &&
    match ts[i]?.map fun t : Token => t.kind with
    | none | some .opener => false
    | some .mark => ts[i + 1]?.all fun t => t.is .closer
    | some _ => true

/-- The number of children of a list that end before a cursor. -/
def childrenBefore (ts : List Token) (opener : Token) (cursor : Int) : Nat :=
  (List.range ts.length).countP fun i =>
    endsChild ts opener i && ts[i]?.any fun t => t.stop < cursor

section Tokens

open Token

variable {ts : List Token}

theorem head?_unclosedAfter_iff (h : Ordered ts) {i o : Nat} (hi : i < ts.length)
    (ho : o < ts.length) :
    (unclosedAfter [] (ts.take (i + 1))).head? = some ts[o] ↔
      (unclosedAt (ts.map (·.kind)) (i + 1)).head? = some o := by
  have hm := congrArg List.head? (unclosedAfter_take (Nat.succ_le_of_lt hi))
  rw [List.head?_map, List.head?_map] at hm
  cases hs : (unclosedAt (ts.map (·.kind)) (i + 1)).head? with
  | none => simp_all
  | some o' =>
    have ho' : o' < ts.length := by
      have := lt_of_mem_unclosedAt (List.mem_of_head? hs)
      omega
    have hu : (unclosedAfter [] (ts.take (i + 1))).head? = some ts[o'] := by
      rw [hs, Option.map_some, List.getElem?_eq_getElem ho'] at hm
      obtain ⟨t, ht, he⟩ := Option.map_eq_some_iff.mp hm
      rw [ht, he]
    rw [hu, Option.some.injEq, Option.some.injEq]
    -- tokens at different places start at different offsets
    constructor
    · intro he
      rcases Nat.lt_trichotomy o' o with hlt | heq | hgt
      · have := h.start_lt_start hlt ho
        rw [he] at this
        exact absurd this (Int.lt_irrefl _)
      · exact heq
      · have := h.start_lt_start hgt ho'
        rw [he] at this
        exact absurd this (Int.lt_irrefl _)
    · rintro rfl
      rfl

theorem endsChild_eq (h : Ordered ts) {i o : Nat} (hi : i < ts.length) (ho : o < ts.length) :
    endsChild ts ts[o] i = Span.endsChild (ts.map (·.kind)) o i := by
  have hhead : ((unclosedAfter [] (ts.take (i + 1))).head? == some ts[o]) =
      ((unclosedAt (ts.map (·.kind)) (i + 1)).head? == some o) := by
    rw [Bool.eq_iff_iff, beq_iff_eq, beq_iff_eq, head?_unclosedAfter_iff h hi ho]
  rw [endsChild, Span.endsChild, hhead, List.getElem?_map, List.getElem?_map]
  cases ts[i + 1]? <;> rfl

theorem childrenBefore_eq (h : Ordered ts) {o : Nat} (ho : o < ts.length)
    (hk : ts[o].kind = .opener) (cursor : Int) :
    childrenBefore ts ts[o] cursor =
      (List.range' (o + 1) (countEnded ts (cursor - 1) - (o + 1))).countP
        (Span.endsChild (ts.map (·.kind)) o) := by
  -- a child of a list ends after its opener
  have hp (i : Nat) (hc : Span.endsChild (ts.map (·.kind)) o i = true) : o + 1 ≤ i := by
    rw [Span.endsChild, Bool.and_eq_true, beq_iff_eq] at hc
    have hlt := lt_of_mem_unclosedAt (List.mem_of_head? hc.1)
    rcases Nat.lt_or_eq_of_le (Nat.lt_succ_iff.mp hlt) with hlt | rfl
    · exact hlt
    · simp [ho, hk] at hc
  have hq (i : Nat) (hi : i < ts.length) :
      (ts[i]?.any fun t => t.stop < cursor) = true ↔ i < countEnded ts (cursor - 1) := by
    rw [h.lt_countEnded_iff hi, List.getElem?_eq_getElem hi]
    simp only [Option.any_some, decide_eq_true_eq]
    omega
  have hn : countEnded ts (cursor - 1) ≤ ts.length := List.countP_le_length
  rw [childrenBefore, ← Span.countP_range_and hn hp hq]
  apply List.countP_congr
  intro i hi
  rw [endsChild_eq h (List.mem_range.mp hi) ho]

namespace Navigator

variable {nav : Navigator} (h : nav.Shows ts)
include h

/-- **The number of elements** that a context reports is the number of children before the cursor,
up to the limit on steps. -/
theorem Shows.argIndex_contextIn {o : Nat} (ho : o < ts.length) (hk : ts[o].kind = .opener)
    (cursor : Int) :
    (nav.contextIn ts[o] cursor).argIndex =
      (min nav.maxSteps (childrenBefore ts ts[o] cursor) : Nat) := by
  have hd : (unclosedAt (ts.map (·.kind)) (o + 1)).head? = some o := by
    rw [unclosedAt_succ_of_opener (by simp [ho, hk]), List.head?_cons]
  rw [contextIn, h.countSiblings_eq, h.ordered.countEnded_stop, Span.countAfter_eq_min hd,
    childrenBefore_eq h.ordered ho hk]

/-- The head that a context reports is the token after the opener, if that is an atom. -/
theorem Shows.head_contextIn {o : Nat} (ho : o < ts.length) (cursor : Int) :
    (nav.contextIn ts[o] cursor).head =
      (ts[o + 1]?.filter fun t => t.is .atom).map (·.text) := by
  rw [contextIn, firstChild, h.significantAfter_eq, h.ordered.countEnded_stop]
  by_cases hn : o + 1 < ts.length
  · simp only [if_pos hn, Option.bind_eq_bind, Option.bind_some, h.tokens_getElem?,
      List.getElem?_eq_getElem hn, Option.filter_some, is]
    -- a closing delimiter is no atom
    generalize ts[o + 1] = t
    obtain ⟨⟨kind, text⟩, range⟩ := t
    cases kind <;> rfl
  · simp [hn]

end Navigator

end Tokens

end SexpEditing
