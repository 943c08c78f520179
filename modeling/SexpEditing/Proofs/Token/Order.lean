import SexpEditing.Proofs.Search
import SexpEditing.Token.Index

/-!
# Tokens in order

The tokens of a text are not empty and follow one another. Hence an offset splits them: those that
start before it come first, and so do those that end at it or before it. The two numbers say all
that a motion needs to know of an offset.

## Main definitions

* `Token.Ordered`: tokens that are not empty and do not overlap, in increasing order
* `Token.LaidOut`: such tokens, some of which may be empty
* `Token.countBefore`, `Token.countEnded`: how many tokens start before an offset, and how many end
  at it or before it
* `significantTokens`: the tokens of a text that carry structure
* `tokensWith`: the tokens of a text, with white space and comments or without

## Main results

* `Token.ordered_tokenize`, `Token.ordered_significantTokens`: the tokens of a text are in order
* `Token.Ordered.indexBefore_eq`, `Token.Ordered.indexAfter_eq`: the searches by offset in terms of
  the two numbers
* `TokenIndex.scan_backward_eq`, `TokenIndex.scan_forward_eq`: so are the scans of a text
-/

namespace SexpEditing

/-! ### Counting an initial part -/

section CountInitial

variable {α : Type} {p : α → Bool} {l : List α}

/-- Where a property holds of an initial part only, the index decides whether it holds. -/
theorem lt_countP_iff (h : l.Pairwise fun a b => p b → p a) {i : Nat} (hi : i < l.length) :
    i < l.countP p ↔ p l[i] := by
  induction l generalizing i with
  | nil => simp at hi
  | cons a l ih =>
    rw [List.pairwise_cons] at h
    rw [List.countP_cons]
    by_cases ha : p a
    · cases i with
      | zero => simp [ha]
      | succ i => simpa [ha] using ih h.2 (by simpa using hi)
    · -- nothing after `a` has the property either
      have hl : ∀ b ∈ l, ¬ p b := fun b hb hpb => ha (h.1 b hb hpb)
      have hz : l.countP p = 0 := List.countP_eq_zero.mpr hl
      cases i with
      | zero => simp [ha, hz]
      | succ i => simpa [ha, hz] using hl _ (List.getElem_mem (by simpa using hi))

/-- A number that decides in the same way is the count. -/
theorem countP_eq_of_lt_iff (h : l.Pairwise fun a b => p b → p a) {n : Nat} (hn : n ≤ l.length)
    (hp : ∀ i (hi : i < l.length), i < n ↔ p l[i]) : l.countP p = n := by
  have hc := List.countP_le_length (p := p) (l := l)
  rcases Nat.lt_trichotomy (l.countP p) n with hlt | heq | hgt
  · have := (lt_countP_iff h (by omega)).mpr ((hp _ (by omega)).mp hlt)
    omega
  · exact heq
  · have := (hp n (by omega)).mpr ((lt_countP_iff h (by omega)).mp hgt)
    omega

/-- The members with the property are the initial part of that length. -/
theorem filter_eq_take_countP (h : l.Pairwise fun a b => p b → p a) :
    l.filter p = l.take (l.countP p) := by
  induction l with
  | nil => rfl
  | cons a l ih =>
    rw [List.pairwise_cons] at h
    by_cases ha : p a
    · rw [List.filter_cons_of_pos ha, List.countP_cons_of_pos ha, List.take_succ_cons, ih h.2]
    · have hl : ∀ b ∈ l, ¬ p b := fun b hb hpb => ha (h.1 b hb hpb)
      rw [List.filter_cons_of_neg ha, List.countP_cons_of_neg ha, List.countP_eq_zero.mpr hl,
        List.filter_eq_nil_iff.mpr hl, List.take_zero]

/-- The first member without the property is the one behind that part. -/
theorem find?_not_eq_getElem? (h : l.Pairwise fun a b => p b → p a) :
    (l.find? fun a => !p a) = l[l.countP p]? := by
  induction l with
  | nil => rfl
  | cons a l ih =>
    rw [List.pairwise_cons] at h
    by_cases ha : p a
    · rw [List.find?_cons_of_neg (by simpa using ha), List.countP_cons_of_pos ha,
        List.getElem?_cons_succ, ih h.2]
    · have hl : ∀ b ∈ l, ¬ p b := fun b hb hpb => ha (h.1 b hb hpb)
      rw [List.find?_cons_of_pos (by simpa using ha), List.countP_cons_of_neg ha,
        List.countP_eq_zero.mpr hl, List.getElem?_cons_zero]

/-- The last member with the property is the last one of that part. -/
theorem findRev?_eq_getElem? (h : l.Pairwise fun a b => p b → p a) :
    l.findRev? p = (Token.previousIndex (l.countP p)).bind fun i => l[i]? := by
  rw [List.findRev?_eq_find?_reverse, ← List.getLast?_filter, filter_eq_take_countP h,
    List.getLast?_take]
  cases hc : l.countP p with
  | zero => rfl
  | succ i =>
    have hi : i < l.length := by
      have hle : l.countP p ≤ l.length := List.countP_le_length
      omega
    simp [Token.previousIndex, hi]

end CountInitial

namespace Token

/-- Tokens that are not empty and do not overlap, in increasing order. -/
structure Ordered (ts : List Token) : Prop where
  pairwise : ts.Pairwise fun s t => s.stop ≤ t.start
  start_lt_stop : ∀ t ∈ ts, t.start < t.stop

/-- The number of tokens that start before an offset. -/
def countBefore (ts : List Token) (offset : Int) : Nat := ts.countP fun t => t.start < offset

/-- The number of tokens that end at an offset or before it. -/
def countEnded (ts : List Token) (offset : Int) : Nat := ts.countP fun t => t.stop ≤ offset

/-- Tokens that do not overlap, in increasing order. They may be empty. -/
structure LaidOut (ts : List Token) : Prop where
  pairwise : ts.Pairwise fun s t => s.stop ≤ t.start
  start_le_stop : ∀ t ∈ ts, t.start ≤ t.stop

theorem LaidOut.of_append_left {ts us : List Token} (h : LaidOut (ts ++ us)) : LaidOut ts :=
  ⟨(List.pairwise_append.mp h.pairwise).1,
    fun t ht => h.start_le_stop t (List.mem_append_left us ht)⟩

theorem LaidOut.of_append_right {ts us : List Token} (h : LaidOut (ts ++ us)) : LaidOut us :=
  ⟨(List.pairwise_append.mp h.pairwise).2.1,
    fun t ht => h.start_le_stop t (List.mem_append_right ts ht)⟩

theorem LaidOut.filter {ts : List Token} (h : LaidOut ts) (p : Token → Bool) :
    LaidOut (ts.filter p) :=
  ⟨h.pairwise.filter p, fun t ht => h.start_le_stop t (List.mem_filter.mp ht).1⟩

/-- No token starts before the first one. -/
theorem LaidOut.start_le {ts : List Token} {first t : Token} (h : LaidOut ts)
    (hf : ts.head? = some first) (ht : t ∈ ts) : first.start ≤ t.start := by
  obtain ⟨rest, rfl⟩ := List.head?_eq_some_iff.mp hf
  rcases List.mem_cons.mp ht with rfl | ht
  · exact Int.le_refl _
  · have hstop := List.rel_of_pairwise_cons h.pairwise ht
    have hle := h.start_le_stop first (by simp)
    omega

/-- No token stops after the last one. -/
theorem LaidOut.stop_le {ts : List Token} {last t : Token} (h : LaidOut ts)
    (hl : ts.getLast? = some last) (ht : t ∈ ts) : t.stop ≤ last.stop := by
  obtain ⟨init, rfl⟩ := List.getLast?_eq_some_iff.mp hl
  rcases List.mem_append.mp ht with ht | ht
  · have hstart := (List.pairwise_append.mp h.pairwise).2.2 t ht last (by simp)
    have hle := h.start_le_stop last (by simp)
    omega
  · obtain rfl := List.mem_singleton.mp ht
    exact Int.le_refl _

theorem Ordered.laidOut {ts : List Token} (h : Ordered ts) : LaidOut ts :=
  ⟨h.pairwise, fun t ht => Int.le_of_lt (h.start_lt_stop t ht)⟩

theorem Ordered.nil : Ordered [] := ⟨List.Pairwise.nil, by simp⟩

theorem Ordered.filter {ts : List Token} (h : Ordered ts) (p : Token → Bool) :
    Ordered (ts.filter p) :=
  ⟨h.pairwise.filter p, fun t ht => h.start_lt_stop t (List.mem_filter.mp ht).1⟩

theorem Ordered.of_append_left {ts us : List Token} (h : Ordered (ts ++ us)) : Ordered ts :=
  ⟨(List.pairwise_append.mp h.pairwise).1,
    fun t ht => h.start_lt_stop t (List.mem_append_left us ht)⟩

theorem Ordered.of_append_right {ts us : List Token} (h : Ordered (ts ++ us)) : Ordered us :=
  ⟨(List.pairwise_append.mp h.pairwise).2.1,
    fun t ht => h.start_lt_stop t (List.mem_append_right ts ht)⟩

section Ordered

variable {ts : List Token} (h : Ordered ts)
include h

theorem Ordered.stop_le_start {i j : Nat} (hij : i < j) (hj : j < ts.length) :
    ts[i].stop ≤ ts[j].start :=
  List.pairwise_iff_getElem.mp h.pairwise i j (by omega) hj hij

theorem Ordered.start_lt {i : Nat} (hi : i < ts.length) : ts[i].start < ts[i].stop :=
  h.start_lt_stop _ (List.getElem_mem hi)

theorem Ordered.start_lt_start {i j : Nat} (hij : i < j) (hj : j < ts.length) :
    ts[i].start < ts[j].start :=
  Int.lt_of_lt_of_le (h.start_lt (by omega)) (h.stop_le_start hij hj)

theorem Ordered.stop_lt_stop {i j : Nat} (hij : i < j) (hj : j < ts.length) :
    ts[i].stop < ts[j].stop :=
  Int.lt_of_le_of_lt (h.stop_le_start hij hj) (h.start_lt hj)

theorem Ordered.start_le_start {i j : Nat} (hij : i ≤ j) (hj : j < ts.length) :
    ts[i].start ≤ ts[j].start := by
  rcases Nat.lt_or_eq_of_le hij with hlt | rfl
  · exact Int.le_of_lt (h.start_lt_start hlt hj)
  · exact Int.le_refl _

theorem Ordered.stop_le_stop {i j : Nat} (hij : i ≤ j) (hj : j < ts.length) :
    ts[i].stop ≤ ts[j].stop := by
  rcases Nat.lt_or_eq_of_le hij with hlt | rfl
  · exact Int.le_of_lt (h.stop_lt_stop hlt hj)
  · exact Int.le_refl _

/-- A token that starts before another one ends before that starts. -/
theorem Ordered.stop_le_of_start_lt {s t : Token} (hs : s ∈ ts) (ht : t ∈ ts)
    (hlt : s.start < t.start) : s.stop ≤ t.start := by
  obtain ⟨i, hi, rfl⟩ := List.getElem_of_mem hs
  obtain ⟨j, hj, rfl⟩ := List.getElem_of_mem ht
  refine h.stop_le_start (Nat.lt_of_not_le fun hji => ?_) hj
  rcases Nat.lt_or_eq_of_le hji with hji | rfl
  · have := h.start_lt_start hji hi
    omega
  · omega

theorem Ordered.start_lt_stop_of_le {i j : Nat} (hij : i ≤ j) (hj : j < ts.length) :
    ts[i].start < ts[j].stop := by
  rcases Nat.lt_or_eq_of_le hij with hlt | rfl
  · exact Int.lt_trans (h.start_lt_start hlt hj) (h.start_lt hj)
  · exact h.start_lt hj

theorem Ordered.pairwise_starts (offset : Int) :
    ts.Pairwise fun s t => decide (t.start < offset) → decide (s.start < offset) := by
  rw [List.pairwise_iff_getElem]
  intro i j hi hj hij
  have := h.start_lt_start hij hj
  simp only [decide_eq_true_eq]
  omega

theorem Ordered.pairwise_stops (offset : Int) :
    ts.Pairwise fun s t => decide (t.stop ≤ offset) → decide (s.stop ≤ offset) := by
  rw [List.pairwise_iff_getElem]
  intro i j hi hj hij
  have := h.stop_lt_stop hij hj
  simp only [decide_eq_true_eq]
  omega

theorem Ordered.lt_countBefore_iff {i : Nat} (hi : i < ts.length) (offset : Int) :
    i < countBefore ts offset ↔ ts[i].start < offset := by
  rw [countBefore, lt_countP_iff (h.pairwise_starts offset) hi, decide_eq_true_eq]

theorem Ordered.lt_countEnded_iff {i : Nat} (hi : i < ts.length) (offset : Int) :
    i < countEnded ts offset ↔ ts[i].stop ≤ offset := by
  rw [countEnded, lt_countP_iff (h.pairwise_stops offset) hi, decide_eq_true_eq]

theorem Ordered.filter_start_lt (offset : Int) :
    ts.filter (fun t => t.start < offset) = ts.take (countBefore ts offset) :=
  filter_eq_take_countP (h.pairwise_starts offset)

theorem Ordered.countBefore_eq {offset : Int} {n : Nat} (hn : n ≤ ts.length)
    (hp : ∀ i (hi : i < ts.length), i < n ↔ ts[i].start < offset) : countBefore ts offset = n :=
  countP_eq_of_lt_iff (h.pairwise_starts offset) hn (by simpa using hp)

theorem Ordered.countEnded_eq {offset : Int} {n : Nat} (hn : n ≤ ts.length)
    (hp : ∀ i (hi : i < ts.length), i < n ↔ ts[i].stop ≤ offset) : countEnded ts offset = n :=
  countP_eq_of_lt_iff (h.pairwise_stops offset) hn (by simpa using hp)

/-- As many tokens start before the start of a token as precede it. -/
theorem Ordered.countBefore_start {i : Nat} (hi : i < ts.length) :
    countBefore ts ts[i].start = i := by
  apply h.countBefore_eq (Nat.le_of_lt hi)
  intro j hj
  rcases Nat.lt_trichotomy j i with hlt | rfl | hgt
  · have := h.start_lt_start hlt hi
    omega
  · omega
  · have := h.start_lt_start hgt hj
    omega

/-- Before an offset that a token reaches, the token itself and those that precede it start. -/
theorem Ordered.countBefore_within {i : Nat} (hi : i < ts.length) {offset : Int}
    (hlo : ts[i].start < offset) (hhi : offset ≤ ts[i].stop) :
    countBefore ts offset = i + 1 := by
  apply h.countBefore_eq hi
  intro j hj
  rcases Nat.lt_trichotomy j i with hlt | rfl | hgt
  · have := h.start_lt_start hlt hi
    omega
  · omega
  · have := h.stop_le_start hgt hj
    omega

/-- The token itself and those that precede it end at its stop or before. -/
theorem Ordered.countEnded_stop {i : Nat} (hi : i < ts.length) :
    countEnded ts ts[i].stop = i + 1 := by
  apply h.countEnded_eq hi
  intro j hj
  rcases Nat.lt_trichotomy j i with hlt | rfl | hgt
  · have := h.stop_lt_stop hlt hi
    omega
  · omega
  · have := h.stop_lt_stop hgt hj
    omega

/-- At an offset that a token holds, those that precede it have ended, and it has not. -/
theorem Ordered.countEnded_within {i : Nat} (hi : i < ts.length) {offset : Int}
    (hlo : ts[i].start ≤ offset) (hhi : offset < ts[i].stop) :
    countEnded ts offset = i := by
  apply h.countEnded_eq (Nat.le_of_lt hi)
  intro j hj
  rcases Nat.lt_or_ge j i with hlt | hge
  · have := h.stop_le_start hlt hi
    omega
  · have := h.stop_le_stop hge hj
    omega

/-- The first token from the stop of a token on is the one after it. -/
theorem Ordered.find?_stop_le {i : Nat} (hi : i < ts.length) :
    (ts.find? fun t => ts[i].stop ≤ t.start) = ts[i + 1]? := by
  have hbefore {j : Nat} (hj : j < i + 1) : ¬ ts[i].stop ≤ ts[j].start := by
    have hlt := h.start_lt hi
    rcases Nat.lt_or_eq_of_le (Nat.lt_succ_iff.mp hj) with hji | rfl
    · have := h.start_lt_start hji hi
      omega
    · omega
  by_cases hn : i + 1 < ts.length
  · rw [List.getElem?_eq_getElem hn, List.find?_eq_some_iff_getElem]
    refine ⟨by simpa using h.stop_le_start (Nat.lt_succ_self i) hn, i + 1, hn, rfl, ?_⟩
    intro j hj
    simpa using hbefore hj
  · rw [List.getElem?_eq_none (by omega), List.find?_eq_none]
    intro t ht
    obtain ⟨j, hj, rfl⟩ := List.getElem_of_mem ht
    simpa using hbefore (by omega : j < i + 1)

/-! ### Searching by offset -/

theorem Ordered.inOrder (offset : Int) :
    InOrder ts.toArray fun t => t.range.side offset := by
  intro i j hi hj hij
  rw [List.size_toArray] at hi hj
  have hs := h.start_lt_start hij hj
  have he := h.stop_lt_stop hij hj
  simp only [List.getElem_toArray]
  rw [Range.side_eq_lt_iff, Range.side_eq_lt_iff, Range.side_eq_gt_iff (Int.le_of_lt (h.start_lt hi)),
    Range.side_eq_gt_iff (Int.le_of_lt (h.start_lt hj))]
  exact ⟨fun hlt => Int.lt_trans hlt hs, fun hle => Int.le_of_lt (Int.lt_of_lt_of_le he hle)⟩

omit h in
/-- A token that is found holds the offset. -/
theorem holds_of_found {offset : Int} {i : Nat}
    (hs : search ts.toArray (fun t => t.range.side offset) = .found i) :
    ∃ hi : i < ts.length, ts[i].start ≤ offset ∧ offset < ts[i].stop := by
  obtain ⟨hi, he⟩ := side_of_search_found hs
  rw [Range.side_eq_eq_iff, List.getElem_toArray] at he
  exact ⟨by simpa using hi, he⟩

/-- The tokens on the left of a gap have started and ended, the others have done neither. -/
theorem Ordered.counts_of_gap {offset : Int} {i : Nat}
    (hs : search ts.toArray (fun t => t.range.side offset) = .gap i) :
    countBefore ts offset = i ∧ countEnded ts offset = i := by
  obtain ⟨hi, hl, hr⟩ := sides_of_search_gap (h.inOrder offset) hs
  rw [List.size_toArray] at hi
  have hleft {j : Nat} (hj : j < ts.length) (hji : j < i) : ts[j].stop ≤ offset := by
    have hside := hl j (by simpa using hj) hji
    simp only [List.getElem_toArray] at hside
    exact (Range.side_eq_gt_iff (Int.le_of_lt (h.start_lt hj)) offset).mp hside
  have hright {j : Nat} (hj : j < ts.length) (hij : i ≤ j) : offset < ts[j].start := by
    have hside := hr j (by simpa using hj) hij
    simp only [List.getElem_toArray] at hside
    exact (Range.side_eq_lt_iff _ offset).mp hside
  constructor
  · refine h.countBefore_eq hi fun j hj => ?_
    have hlt := h.start_lt hj
    rcases Nat.lt_or_ge j i with hji | hij
    · have := hleft hj hji
      omega
    · have := hright hj hij
      omega
  · refine h.countEnded_eq hi fun j hj => ?_
    have hlt := h.start_lt hj
    rcases Nat.lt_or_ge j i with hji | hij
    · have := hleft hj hji
      omega
    · have := hright hj hij
      omega

/-- **Going backward**, a search finds the last token that starts before the offset. -/
theorem Ordered.indexBefore_eq (offset : Int) :
    indexBefore ts.toArray offset = previousIndex (countBefore ts offset) := by
  unfold indexBefore searchRanges
  cases hs : search ts.toArray fun t => t.range.side offset with
  | found i =>
    obtain ⟨hi, hlo, hhi⟩ := holds_of_found hs
    -- the token that holds the offset counts unless it starts there
    by_cases hlt : ts[i].start < offset
    · rw [h.countBefore_within hi hlt (Int.le_of_lt hhi)]
      simp [hi, hlt, previousIndex]
    · obtain rfl : offset = ts[i].start := by omega
      rw [h.countBefore_start hi]
      simp [hi]
  | gap i => simp only [(h.counts_of_gap hs).1]

/-- **Going forward**, a search finds the first token that ends after the offset. -/
theorem Ordered.indexAfter_eq (offset : Int) :
    indexAfter ts.toArray offset =
      if countEnded ts offset < ts.length then some (countEnded ts offset) else none := by
  unfold indexAfter searchRanges
  cases hs : search ts.toArray fun t => t.range.side offset with
  | found i =>
    obtain ⟨hi, hlo, hhi⟩ := holds_of_found hs
    rw [h.countEnded_within hi hlo hhi, if_pos hi]
  | gap i => simp only [(h.counts_of_gap hs).2, List.size_toArray]

end Ordered

/-! ### Laying out -/

theorem le_start_of_mem_layOut {start : Int} {ls : List Lexeme} {t : Token}
    (ht : t ∈ Lexeme.layOut start ls) : start ≤ t.start := by
  induction ls generalizing start with
  | nil => simp at ht
  | cons l rest ih =>
    rw [Lexeme.layOut_cons, List.mem_cons] at ht
    rcases ht with rfl | ht
    · exact Int.le_refl _
    · have := ih ht
      omega

/-- Lexemes that are not empty are laid out in order. -/
theorem ordered_layOut {start : Int} {ls : List Lexeme} (h : ∀ l ∈ ls, l.text ≠ []) :
    Ordered (Lexeme.layOut start ls) := by
  induction ls generalizing start with
  | nil => exact Ordered.nil
  | cons l rest ih =>
    obtain ⟨hp, hs⟩ : Ordered (Lexeme.layOut (start + l.text.length) rest) :=
      ih fun m hm => h m (by simp [hm])
    have hl := List.length_pos_iff.mpr (h l (by simp))
    rw [Lexeme.layOut_cons]
    refine ⟨List.pairwise_cons.mpr ⟨fun t ht => le_start_of_mem_layOut ht, hp⟩, fun t ht => ?_⟩
    rcases List.mem_cons.mp ht with rfl | ht
    · simp only [Token.start, Token.stop]
      omega
    · exact hs t ht

theorem text_ne_nil_of_mem_lexemes {t : Text} {l : Lexeme} (h : l ∈ lexemes t) : l.text ≠ [] := by
  fun_induction lexemes t with
  | case1 => simp at h
  | case2 t l' after hn ih =>
    rcases List.mem_cons.mp h with rfl | h
    · exact text_ne_nil_of_nextLexeme hn
    · exact ih h

/-- A token lies where the lexemes before it end. -/
theorem exists_around_of_mem_layOut {start : Int} {ls : List Lexeme} {t : Token}
    (ht : t ∈ Lexeme.layOut start ls) :
    ∃ ls₁ ls₂, ls = ls₁ ++ t.toLexeme :: ls₂ ∧
      t.start = start + (ls₁.flatMap fun l => l.text).length ∧
      t.stop = t.start + t.text.length := by
  induction ls generalizing start with
  | nil => simp at ht
  | cons l rest ih =>
    rw [Lexeme.layOut_cons, List.mem_cons] at ht
    rcases ht with rfl | ht
    · exact ⟨[], rest, by simp [Token.start, Token.stop]⟩
    · obtain ⟨ls₁, ls₂, rfl, hstart, hstop⟩ := ih ht
      refine ⟨l :: ls₁, ls₂, rfl, ?_, hstop⟩
      rw [hstart, List.flatMap_cons, List.length_append]
      omega

/-- The lexemes cover a text from its start, up to where no further one begins. -/
theorem exists_flatMap_lexemes_append (t : Text) :
    ∃ rest, ((lexemes t).flatMap fun l => l.text) ++ rest = t ∧ nextLexeme rest = none := by
  fun_induction lexemes t with
  | case1 t hn => exact ⟨t, rfl, hn⟩
  | case2 t l after hn ih =>
    obtain ⟨rest, hrest, hnone⟩ := ih
    refine ⟨rest, ?_, hnone⟩
    rw [List.flatMap_cons, List.append_assoc, hrest, nextLexeme_append hn]

/-- The text around a token. -/
theorem exists_around_of_mem_tokenize {t : Text} {u : Token} (hu : u ∈ tokenize t) :
    ∃ before after, t = before ++ u.text ++ after ∧ u.start = before.length ∧
      u.stop = u.start + u.text.length := by
  obtain ⟨ls₁, ls₂, hls, hstart, hstop⟩ := exists_around_of_mem_layOut hu
  obtain ⟨rest, hrest, -⟩ := exists_flatMap_lexemes_append t
  refine ⟨ls₁.flatMap fun l => l.text, (ls₂.flatMap fun l => l.text) ++ rest, ?_, ?_, hstop⟩
  · rw [← hrest, hls]
    simp
  · omega

/-- The tokens of a text are in order. -/
theorem ordered_tokenize (t : Text) : Ordered (tokenize t) :=
  ordered_layOut fun _ h => text_ne_nil_of_mem_lexemes h

end Token

/-- The tokens of a text that carry structure. -/
def significantTokens (t : Text) : List Token := (tokenize t).filter fun u => !u.isTrivia

/-- The tokens of a text, with white space and comments or without. -/
def tokensWith (trivia : Bool) (t : Text) : List Token :=
  if trivia then tokenize t else significantTokens t

theorem Token.ordered_significantTokens (t : Text) : Token.Ordered (significantTokens t) :=
  (Token.ordered_tokenize t).filter _

theorem Token.ordered_tokensWith (trivia : Bool) (t : Text) :
    Token.Ordered (tokensWith trivia t) := by
  cases trivia with
  | false => exact Token.ordered_significantTokens t
  | true => exact Token.ordered_tokenize t

namespace TokenIndex

open Token

/-- A scan forward finds the first token that has not ended at the offset. -/
theorem scan_forward_eq (t : Text) (offset : Int) (trivia : Bool) :
    (ofText t).scan offset .forward trivia =
      (tokensWith trivia t)[countEnded (tokensWith trivia t) offset]? := by
  have hscan : (ofText t).scan offset .forward trivia =
      (indexAfter (tokensWith trivia t).toArray offset).bind fun i => (tokensWith trivia t)[i]? := by
    cases trivia <;> simp [scan, ofText, ofTokens, tokensWith, significantTokens]
  rw [hscan, (ordered_tokensWith trivia t).indexAfter_eq]
  split
  · rfl
  · next hge => rw [List.getElem?_eq_none (Nat.le_of_not_lt hge), Option.bind_none]

/-- A scan backward finds the last token that has started before the offset. -/
theorem scan_backward_eq (t : Text) (offset : Int) (trivia : Bool) :
    (ofText t).scan offset .backward trivia =
      (previousIndex (countBefore (tokensWith trivia t) offset)).bind
        fun i => (tokensWith trivia t)[i]? := by
  rw [← (ordered_tokensWith trivia t).indexBefore_eq]
  cases trivia <;> simp [scan, ofText, ofTokens, tokensWith, significantTokens]

end TokenIndex

end SexpEditing
