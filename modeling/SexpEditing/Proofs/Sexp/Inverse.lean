import SexpEditing.Proofs.Expr.Units
import SexpEditing.Proofs.Sexp.Enclosing

/-!
# Going there and back

A motion forward sets out from a token and skips the quotation marks after it; a motion backward
ends at a token and takes in all the quotation marks before it. So going back from where a motion
forward ended leads to where it set out, or past some marks before that. The other way round, a
motion forward from where a motion backward ended skips just the marks that were taken in, unless
there is nothing but marks to go over. Either motion makes progress.

## Main definitions

* `Token.lastBefore`: the last of some tokens that start before an offset

## Main results

* `Span.before_of_after`, `Span.after_of_before`: there and back, by index
* `Navigator.motions_are_inverse`: there and back from every offset of every text
-/

namespace SexpEditing

open Matching Token

namespace Span

variable {kinds : List TokenKind}

theorem firstMark_eq_of_marks {m n : Nat} (hmn : m ≤ n)
    (h : ∀ j, m ≤ j → j < n → kinds[j]? = some .mark) :
    firstMark kinds n = firstMark kinds m := by
  induction n with
  | zero => rw [Nat.le_zero.mp hmn]
  | succ n ih =>
    rcases Nat.lt_or_eq_of_le hmn with hlt | rfl
    · rw [firstMark, if_pos (h n (by omega) (Nat.lt_succ_self n))]
      exact ih (by omega) fun j hj hjn => h j hj (by omega)
    · rfl

/-- Going back over marks stops at once only if none stands there. -/
theorem firstMark_eq_self_or (n : Nat) :
    firstMark kinds n = n ∨ ∃ i, n = i + 1 ∧ kinds[i]? = some .mark := by
  cases n with
  | zero => exact .inl rfl
  | succ i =>
    by_cases hm : kinds[i]? = some .mark
    · exact .inr ⟨i, rfl, hm⟩
    · exact .inl (by rw [firstMark, if_neg hm])

/-- The marks before a token that is no mark are skipped up to it. -/
theorem skipMarks_firstMark {i : Nat} (hi : i < kinds.length) (hm : kinds[i]? ≠ some .mark) :
    skipMarks kinds (firstMark kinds i) = i := by
  have hle : firstMark kinds i ≤ i := firstMark_le i
  have hmarks : ∀ j, firstMark kinds i ≤ j → j < i → kinds[j]? = some .mark :=
    fun _ => mark_of_firstMark_le
  generalize firstMark kinds i = m at hle hmarks
  fun_induction skipMarks kinds m with
  | case1 m h ih =>
    rcases Nat.lt_or_eq_of_le hle with hlt | rfl
    · exact ih hlt fun j hj => hmarks j (by omega)
    · exact absurd h.2 hm
  | case2 m h =>
    rcases Nat.lt_or_eq_of_le hle with hlt | rfl
    · exact absurd ⟨by omega, hmarks m (Nat.le_refl m) hlt⟩ h
    · rfl

/-- **Back from the end of a unit** that a motion forward went over: the unit again, with the
marks before it. -/
theorem before_of_after {n : Nat} {u : Span} (h : after kinds n = some u) :
    before kinds (u.last + 1) = some { u with first := firstMark kinds n } := by
  have hle : n ≤ skipMarks kinds n := le_skipMarks n
  have hskipped : ∀ j, n ≤ j → j < skipMarks kinds n → kinds[j]? = some .mark :=
    fun _ => mark_of_lt_skipMarks
  rw [after] at h
  generalize skipMarks kinds n = i at h hle hskipped
  split at h
  · cases h
  · -- marks alone: the unit ends with the last of them
    split at h
    · next hni =>
      cases h
      have hmarks : firstMark kinds (i - 1) = firstMark kinds n :=
        firstMark_eq_of_marks (by omega) fun j hj hji => hskipped j hj (by omega)
      simp only [before, hskipped (i - 1) (by omega) (by omega), hmarks]
    · cases h
  · -- a list: its closing delimiter leads back to the opening one
    obtain ⟨c, hc, rfl⟩ := Option.map_eq_some_iff.mp h
    obtain ⟨hk, ho⟩ := closerOf?_eq_some_iff.mp hc
    simp only [before, hk, ho, Option.map_some, firstMark_eq_of_marks hle hskipped]
  · -- one token
    next kind hc ho hk =>
    cases h
    rw [before]
    split
    · next hn => exact absurd (hk.symm.trans hn) (by simp)
    · next hn => exact absurd (Option.some.inj (hk.symm.trans hn)) ho
    · next hn => exact absurd (Option.some.inj (hk.symm.trans hn)) hc
    · rw [firstMark_eq_of_marks hle hskipped]

/-- **Forward from the start of a unit** that a motion backward went over: the unit again, if it
does not end with a mark. -/
theorem after_of_before {n : Nat} {u : Span} (h : before kinds n = some u)
    (hm : kinds[u.last]? ≠ some .mark) : after kinds u.first = some u := by
  obtain ⟨-, -, hl⟩ := before_eq_some h
  cases n with
  | zero => cases h
  | succ last =>
    rw [before] at h
    split at h
    · cases h
    · cases h
    · next hk =>
      -- a list: the opening delimiter is no mark, so the marks before it are skipped up to it
      obtain ⟨o, ho, rfl⟩ := Option.map_eq_some_iff.mp h
      have hmatch : Matches kinds o last := ⟨hk, ho⟩
      have hopen : kinds[o]? = some .opener := hmatch.opener
      rw [after, skipMarks_firstMark (Nat.lt_trans hmatch.lt hmatch.closer_lt) (by simp [hopen]),
        hopen]
      simp only [closerOf?_eq_some_iff.mpr hmatch, Option.map_some]
    · next kind ho hc hk =>
      cases h
      rw [after, skipMarks_firstMark hl hm]
      split
      · next hn => exact absurd (hk.symm.trans hn) (by simp)
      · next hn => exact absurd (Option.some.inj (hk.symm.trans hn)) hc
      · next hn => exact absurd (Option.some.inj (hk.symm.trans hn)) ho
      · rfl

end Span

namespace Token

/-- The last of some tokens that start before an offset. -/
def lastBefore (ts : List Token) (offset : Int) : Option Token :=
  (ts.filter fun t => t.start < offset).getLast?

section Ordered

variable {ts : List Token} (h : Ordered ts)
include h

theorem Ordered.lastBefore_eq {offset : Int} {i : Nat} (hi : i < ts.length)
    (hc : countBefore ts offset = i + 1) : lastBefore ts offset = some ts[i] := by
  rw [lastBefore, h.filter_start_lt, hc, List.getLast?_take, if_neg (Nat.succ_ne_zero i)]
  simp [hi]

theorem Ordered.exists_of_lastBefore {offset : Int} {t : Token}
    (hl : lastBefore ts offset = some t) :
    ∃ i, countBefore ts offset = i + 1 ∧ ts[i]? = some t := by
  have hle : countBefore ts offset ≤ ts.length := List.countP_le_length
  cases hc : countBefore ts offset with
  | zero =>
    rw [lastBefore, h.filter_start_lt, hc] at hl
    cases hl
  | succ i =>
    have hi : i < ts.length := by omega
    rw [h.lastBefore_eq hi hc] at hl
    exact ⟨i, rfl, by rw [List.getElem?_eq_getElem hi, hl]⟩

/-- The last token before the start of a token is the one that it follows. -/
theorem Ordered.lastBefore_start {i : Nat} (hi : i + 1 < ts.length) :
    lastBefore ts ts[i + 1].start = some ts[i] :=
  h.lastBefore_eq (Nat.lt_of_succ_lt hi) (h.countBefore_start hi)

theorem Ordered.countBefore_stop {i : Nat} (hi : i < ts.length) :
    countBefore ts ts[i].stop = i + 1 :=
  h.countBefore_within hi (h.start_lt hi) (Int.le_refl _)

/-- No two tokens are the same. -/
theorem Ordered.index_unique {i j : Nat} {t : Token} (hi : ts[i]? = some t)
    (hj : ts[j]? = some t) : i = j := by
  obtain ⟨hilt, rfl⟩ := List.getElem?_eq_some_iff.mp hi
  obtain ⟨hjlt, heq⟩ := List.getElem?_eq_some_iff.mp hj
  have hcount := h.countBefore_start hilt
  rw [← heq, h.countBefore_start hjlt] at hcount
  exact hcount.symm

theorem Ordered.countEnded_start {i : Nat} (hi : i < ts.length) :
    countEnded ts ts[i].start = i :=
  h.countEnded_within hi (Int.le_refl _) (h.start_lt hi)

end Ordered

end Token

namespace Navigator

section Shows

variable {nav : Navigator} {ts : List Token} (h : nav.Shows ts)
include h

/-- The unit that a motion forward goes over, by the tokens it starts and ends with. -/
theorem Shows.exists_of_forwardSexp {p : Int} {s : Sexp} (hs : nav.forwardSexp p = some s) :
    ∃ u, Span.after (ts.map (·.kind)) u.first = some u ∧ u.first = countEnded ts p ∧
      u.first ≤ u.last ∧ u.last < ts.length ∧ u.sexp ts = some s := by
  rw [h.forwardSexp_eq] at hs
  obtain ⟨u, hu, hs⟩ := Option.bind_eq_some_iff.mp hs
  obtain ⟨hfirst, hle, hlt⟩ := Span.after_eq_some hu
  rw [← hfirst] at hu hle
  exact ⟨u, hu, hfirst, hle, by simpa using hlt, hs⟩

/-- The unit that a motion backward goes over, by the tokens it starts and ends with. -/
theorem Shows.exists_of_backwardSexp {p : Int} {s : Sexp} (hs : nav.backwardSexp p = some s) :
    ∃ u, Span.before (ts.map (·.kind)) (u.last + 1) = some u ∧ u.last + 1 = countBefore ts p ∧
      u.first ≤ u.last ∧ u.last < ts.length ∧ u.sexp ts = some s := by
  rw [h.backwardSexp_eq] at hs
  obtain ⟨u, hu, hs⟩ := Option.bind_eq_some_iff.mp hs
  obtain ⟨hle, hlast, hlt⟩ := Span.before_eq_some hu
  rw [← hlast] at hu
  exact ⟨u, hu, hlast, hle, by simpa using hlt, hs⟩

/-- A motion forward ends after the offset. -/
theorem Shows.lt_stop_of_forwardSexp {p : Int} {s : Sexp} (hs : nav.forwardSexp p = some s) :
    p < s.range.stop ∧ s.range.start < s.range.stop := by
  obtain ⟨u, -, hfirst, hle, hlt, hsexp⟩ := h.exists_of_forwardSexp hs
  rw [Span.sexp_eq_some (Nat.lt_of_le_of_lt hle hlt) hlt] at hsexp
  cases hsexp
  -- the last token of the unit has not ended at the offset
  have hlast : ¬ ts[u.last].stop ≤ p :=
    mt (h.ordered.lt_countEnded_iff hlt p).mpr (by omega)
  exact ⟨Int.lt_of_not_ge hlast, h.ordered.start_lt_stop_of_le hle hlt⟩

/-- A motion backward ends before the offset. -/
theorem Shows.start_lt_of_backwardSexp {p : Int} {s : Sexp} (hs : nav.backwardSexp p = some s) :
    s.range.start < p ∧ s.range.start < s.range.stop := by
  obtain ⟨u, -, hlast, hle, hlt, hsexp⟩ := h.exists_of_backwardSexp hs
  have hfirst : u.first < ts.length := Nat.lt_of_le_of_lt hle hlt
  rw [Span.sexp_eq_some hfirst hlt] at hsexp
  cases hsexp
  exact ⟨(h.ordered.lt_countBefore_iff hfirst p).mp (by omega),
    h.ordered.start_lt_stop_of_le hle hlt⟩

/-- Back from where a motion forward ended: the same unit, or one that starts with more marks. -/
theorem Shows.exists_backwardSexp_of_forwardSexp {p : Int} {s : Sexp}
    (hs : nav.forwardSexp p = some s) :
    ∃ s', nav.backwardSexp s.range.stop = some s' ∧ s'.range.stop = s.range.stop ∧
      s'.opener = s.opener ∧ s'.closer = s.closer ∧ s'.range.start ≤ s.range.start ∧
      (s' = s ∨ ∃ t, lastBefore ts s.range.start = some t ∧ t.kind = .mark) := by
  obtain ⟨u, hu, -, hle, hlt, hsexp⟩ := h.exists_of_forwardSexp hs
  have hfirst : u.first < ts.length := Nat.lt_of_le_of_lt hle hlt
  rw [Span.sexp_eq_some hfirst hlt] at hsexp
  cases hsexp
  have hback := Span.before_of_after hu
  have hmark : Span.firstMark (ts.map (·.kind)) u.first ≤ u.first := Span.firstMark_le _
  have hmarks : Span.firstMark (ts.map (·.kind)) u.first = u.first ∨
      ∃ i, u.first = i + 1 ∧ (ts.map (·.kind))[i]? = some .mark :=
    Span.firstMark_eq_self_or u.first
  rw [h.backwardSexp_eq, h.ordered.countBefore_stop hlt, hback, Option.bind_some,
    Span.sexp_eq_some (u := { u with first := _ }) (Nat.lt_of_le_of_lt hmark hfirst) hlt]
  refine ⟨_, rfl, rfl, rfl, rfl, ?_, ?_⟩
  · rcases Nat.lt_or_eq_of_le hmark with hm | hm
    · exact Int.le_of_lt (h.ordered.start_lt_start hm hfirst)
    · simp only [hm, Int.le_refl]
  · rcases hmarks with hm | ⟨i, hi, hm⟩
    · exact .inl (by simp only [hm])
    · -- a mark stands before the first token
      have hlt' : i + 1 < ts.length := by omega
      refine .inr ⟨ts[i], ?_, ?_⟩
      · simp only [hi]
        exact h.ordered.lastBefore_start hlt'
      · simpa [Nat.lt_of_succ_lt hlt'] using hm

/-- Forward from where a motion backward ended: the same unit, if it does not end with a mark. -/
theorem Shows.forwardSexp_of_backwardSexp {p : Int} {s : Sexp}
    (hs : nav.backwardSexp p = some s)
    (hm : ∀ t, lastBefore ts s.range.stop = some t → t.kind ≠ .mark) :
    nav.forwardSexp s.range.start = some s := by
  obtain ⟨u, hu, -, hle, hlt, hsexp⟩ := h.exists_of_backwardSexp hs
  have hfirst : u.first < ts.length := Nat.lt_of_le_of_lt hle hlt
  have hwhole := hsexp
  rw [Span.sexp_eq_some hfirst hlt] at hsexp
  cases hsexp
  have hkind : ts[u.last].kind ≠ .mark :=
    hm _ (h.ordered.lastBefore_eq hlt (h.ordered.countBefore_stop hlt))
  rw [h.forwardSexp_eq, h.ordered.countEnded_start hfirst,
    Span.after_of_before hu (by simpa [hlt] using hkind), Option.bind_some, hwhole]

end Shows

/-- **There and back.** From every offset, a motion forward ends after it, and a motion back from
there goes over a unit with the same end and the same delimiters, which starts where the first one
started unless a quotation mark is the token just before that. A motion backward ends before the
offset, and unless the last token of its unit is a quotation mark, a motion forward from there goes
over the same unit. -/
theorem motions_are_inverse (d : Document) (maxSteps : Nat) (p : Int) :
    (∀ s, (ofDocument d maxSteps).forwardSexp p = some s →
      p < s.range.stop ∧ s.range.start < s.range.stop ∧
      ∃ s', (ofDocument d maxSteps).backwardSexp s.range.stop = some s' ∧
        s'.range.stop = s.range.stop ∧ s'.opener = s.opener ∧ s'.closer = s.closer ∧
        s'.range.start ≤ s.range.start ∧
        (s' = s ∨ ∃ t, lastBefore (significantTokens d.text) s.range.start = some t ∧
          t.kind = .mark)) ∧
    (∀ s, (ofDocument d maxSteps).backwardSexp p = some s →
      s.range.start < p ∧ s.range.start < s.range.stop ∧
      ((∀ t, lastBefore (significantTokens d.text) s.range.stop = some t → t.kind ≠ .mark) →
        (ofDocument d maxSteps).forwardSexp s.range.start = some s)) := by
  have h := shows_ofDocument d maxSteps
  constructor
  · intro s hs
    obtain ⟨hp, hlt⟩ := h.lt_stop_of_forwardSexp hs
    exact ⟨hp, hlt, h.exists_backwardSexp_of_forwardSexp hs⟩
  · intro s hs
    obtain ⟨hp, hlt⟩ := h.start_lt_of_backwardSexp hs
    exact ⟨hp, hlt, h.forwardSexp_of_backwardSexp hs⟩

/-- From behind a quotation mark a motion forward leaves it out, and the motion back takes it in. -/
example :
    let nav := ofDocument (.ofText (Text.ofString "'(a b)")) 0
    (nav.forwardSexp 1).map Sexp.range = some ⟨1, 6⟩ ∧
      (nav.backwardSexp 6).map Sexp.range = some ⟨0, 6⟩ ∧
      nav.forwardSexp 0 = nav.backwardSexp 6 := by
  decide +kernel

end Navigator

end SexpEditing
