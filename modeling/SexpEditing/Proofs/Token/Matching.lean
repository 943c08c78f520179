import SexpEditing.Token.Index

/-!
# Which delimiters match

The matches among some tokens depend on their kinds alone. `Matching.unclosedAt` gives the openers
that are unclosed at each place; a closing delimiter matches the innermost one there. The stack
below an opener is the stack at the opener, so what stands between two delimiters that match leaves
no trace.

## Main definitions

* `Matching.unclosedAt`: the openers that are unclosed after the first tokens, innermost first
* `Matching.Matches`: a closing delimiter matches an opener

## Main results

* `Matching.eq_of_unclosedAt_eq_cons`: the stack below an opener is the stack at the opener
* `Matching.Matches.closer_unique`: an opener has at most one closing delimiter
* `Matching.mem_unclosedAt_of_unmatched`: an opener without one stays on the stack
* `TokenIndex.partnerOf_eq_some_iff`: the partners of an index are the delimiters that match
-/

namespace SexpEditing

namespace Matching

/-- The indexes of the openers that are unclosed after the first `n` tokens, innermost first. -/
def unclosedAt (kinds : List TokenKind) : (n : Nat) → List Nat
  | 0 => []
  | n + 1 =>
    match kinds[n]? with
    | some .opener => n :: unclosedAt kinds n
    | some .closer => (unclosedAt kinds n).tail
    | _ => unclosedAt kinds n

/-- The closing delimiter with index `c` matches the opener with index `o`. -/
def Matches (kinds : List TokenKind) (o c : Nat) : Prop :=
  kinds[c]? = some .closer ∧ (unclosedAt kinds c).head? = some o

variable {kinds : List TokenKind}

@[simp] theorem unclosedAt_zero : unclosedAt kinds 0 = [] := rfl

theorem unclosedAt_succ_of_opener {n : Nat} (h : kinds[n]? = some .opener) :
    unclosedAt kinds (n + 1) = n :: unclosedAt kinds n := by
  simp only [unclosedAt, h]

theorem unclosedAt_succ_of_closer {n : Nat} (h : kinds[n]? = some .closer) :
    unclosedAt kinds (n + 1) = (unclosedAt kinds n).tail := by
  simp only [unclosedAt, h]

theorem unclosedAt_succ_of_ne {n : Nat} (ho : kinds[n]? ≠ some .opener)
    (hc : kinds[n]? ≠ some .closer) : unclosedAt kinds (n + 1) = unclosedAt kinds n := by
  rw [unclosedAt]
  split
  · contradiction
  · contradiction
  · rfl

/-! ### The stack at a place -/

/-- The stack below an opener is the stack at the opener. -/
theorem eq_of_unclosedAt_eq_cons {n o : Nat} {outer : List Nat}
    (h : unclosedAt kinds n = o :: outer) :
    o < n ∧ kinds[o]? = some .opener ∧ outer = unclosedAt kinds o := by
  induction n using Nat.strongRecOn generalizing o outer with
  | _ n ih =>
    cases n with
    | zero => simp at h
    | succ n =>
      by_cases ho : kinds[n]? = some .opener
      · rw [unclosedAt_succ_of_opener ho] at h
        cases h
        exact ⟨Nat.lt_succ_self _, ho, rfl⟩
      · by_cases hc : kinds[n]? = some .closer
        · rw [unclosedAt_succ_of_closer hc] at h
          cases hs : unclosedAt kinds n with
          | nil => simp [hs] at h
          | cons p rest =>
            -- below `p` lies the stack at `p`, which is shorter
            obtain ⟨hp, -, hr⟩ := ih _ (Nat.lt_succ_self _) hs
            rw [hs, List.tail_cons, hr] at h
            obtain ⟨ho', hk, he⟩ := ih p (Nat.lt_succ_of_lt hp) h
            exact ⟨by omega, hk, he⟩
        · rw [unclosedAt_succ_of_ne ho hc] at h
          obtain ⟨ho', hk, he⟩ := ih _ (Nat.lt_succ_self _) h
          exact ⟨by omega, hk, he⟩

theorem lt_of_mem_unclosedAt {n o : Nat} (h : o ∈ unclosedAt kinds n) : o < n := by
  -- below the top of the stack lies the stack at an earlier token
  induction n using Nat.strongRecOn with
  | _ n ih =>
    cases hs : unclosedAt kinds n with
    | nil => simp [hs] at h
    | cons p outer =>
      obtain ⟨hp, -, rfl⟩ := eq_of_unclosedAt_eq_cons hs
      rw [hs, List.mem_cons] at h
      rcases h with rfl | h
      · exact hp
      · exact Nat.lt_trans (ih p hp h) hp

theorem opener_of_mem_unclosedAt {n o : Nat} (h : o ∈ unclosedAt kinds n) :
    kinds[o]? = some .opener := by
  induction n using Nat.strongRecOn with
  | _ n ih =>
    cases hs : unclosedAt kinds n with
    | nil => simp [hs] at h
    | cons p outer =>
      obtain ⟨hp, hk, rfl⟩ := eq_of_unclosedAt_eq_cons hs
      rw [hs, List.mem_cons] at h
      rcases h with rfl | h
      · exact hk
      · exact ih p hp h

/-- What is unclosed later and was read already is unclosed now. -/
theorem mem_unclosedAt_of_le {m n o : Nat} (h : o ∈ unclosedAt kinds n) (hm : m ≤ n) (ho : o < m) :
    o ∈ unclosedAt kinds m := by
  induction n with
  | zero => simp at h
  | succ n ih =>
    rcases Nat.lt_or_eq_of_le hm with hlt | rfl
    · refine ih ?_ (by omega)
      by_cases hopen : kinds[n]? = some .opener
      · rw [unclosedAt_succ_of_opener hopen, List.mem_cons] at h
        rcases h with rfl | h
        · omega
        · exact h
      · by_cases hclose : kinds[n]? = some .closer
        · rw [unclosedAt_succ_of_closer hclose] at h
          exact List.mem_of_mem_tail h
        · rwa [unclosedAt_succ_of_ne hopen hclose] at h
    · exact h

/-! ### Matches -/

namespace Matches

variable {o c : Nat}

theorem unclosedAt_eq (h : Matches kinds o c) : unclosedAt kinds c = o :: unclosedAt kinds o := by
  obtain ⟨outer, hs⟩ := List.head?_eq_some_iff.mp h.2
  rw [hs, (eq_of_unclosedAt_eq_cons hs).2.2]

theorem lt (h : Matches kinds o c) : o < c := (eq_of_unclosedAt_eq_cons h.unclosedAt_eq).1

theorem opener (h : Matches kinds o c) : kinds[o]? = some .opener :=
  (eq_of_unclosedAt_eq_cons h.unclosedAt_eq).2.1

theorem closer_lt (h : Matches kinds o c) : c < kinds.length :=
  (List.getElem?_eq_some_iff.mp h.1).1

/-- What stands between two delimiters that match leaves no trace on the stack. -/
theorem unclosedAt_succ (h : Matches kinds o c) :
    unclosedAt kinds (c + 1) = unclosedAt kinds o := by
  rw [unclosedAt_succ_of_closer h.1, h.unclosedAt_eq, List.tail_cons]

theorem mem_unclosedAt (h : Matches kinds o c) {n : Nat} (ho : o < n) (hn : n ≤ c) :
    o ∈ unclosedAt kinds n :=
  mem_unclosedAt_of_le (by rw [h.unclosedAt_eq]; exact List.mem_cons_self) hn ho

/-- An opener that was closed is on the stack no more. -/
theorem not_mem_unclosedAt (h : Matches kinds o c) {n : Nat} (hn : c < n) :
    o ∉ unclosedAt kinds n := by
  intro hm
  have ho := h.lt
  have hm := mem_unclosedAt_of_le hm (m := c + 1) hn (by omega)
  rw [h.unclosedAt_succ] at hm
  exact absurd (lt_of_mem_unclosedAt hm) (Nat.lt_irrefl o)

theorem opener_unique {o' : Nat} (h : Matches kinds o c) (h' : Matches kinds o' c) : o = o' :=
  Option.some.inj (h.2.symm.trans h'.2)

/-- An opener has at most one closing delimiter. -/
theorem closer_unique {c' : Nat} (h : Matches kinds o c) (h' : Matches kinds o c') : c = c' := by
  rcases Nat.lt_trichotomy c c' with hlt | heq | hgt
  · exact absurd (h'.mem_unclosedAt h'.lt (Nat.le_refl c')) (h.not_mem_unclosedAt hlt)
  · exact heq
  · exact absurd (h.mem_unclosedAt h.lt (Nat.le_refl c)) (h'.not_mem_unclosedAt hgt)

end Matches

/-- An opener that nothing closes stays on the stack. -/
theorem mem_unclosedAt_of_unmatched {o n : Nat} (ho : kinds[o]? = some .opener)
    (h : ∀ c, ¬ Matches kinds o c) (hn : o < n) : o ∈ unclosedAt kinds n := by
  induction n with
  | zero => omega
  | succ n ih =>
    by_cases hopen : kinds[n]? = some .opener
    · rw [unclosedAt_succ_of_opener hopen, List.mem_cons]
      rcases Nat.lt_or_eq_of_le (Nat.lt_succ_iff.mp hn) with hlt | rfl
      · exact .inr (ih hlt)
      · exact .inl rfl
    · have hlt : o < n := by
        rcases Nat.lt_or_eq_of_le (Nat.lt_succ_iff.mp hn) with hlt | rfl
        · exact hlt
        · exact absurd ho hopen
      -- a closing delimiter takes the top off, and that is another opener
      by_cases hclose : kinds[n]? = some .closer
      · rw [unclosedAt_succ_of_closer hclose]
        have hm := ih hlt
        cases hs : unclosedAt kinds n with
        | nil => simp [hs] at hm
        | cons p rest =>
          rw [hs, List.mem_cons] at hm
          rcases hm with rfl | hm
          · exact absurd ⟨hclose, by simp [hs]⟩ (h n)
          · exact hm
      · rw [unclosedAt_succ_of_ne hopen hclose]
        exact ih hlt

/-! ### The table of partners -/

/-- The delimiters with indexes `i` and `x` match, and the closing one is among the first `n`
tokens. -/
def MatchedBefore (kinds : List TokenKind) (n i x : Nat) : Prop :=
  (Matches kinds i x ∧ x < n) ∨ (Matches kinds x i ∧ i < n)

theorem matchedBefore_succ_iff {n i x : Nat} :
    MatchedBefore kinds (n + 1) i x ↔
      MatchedBefore kinds n i x ∨ (x = n ∧ Matches kinds i n) ∨ (i = n ∧ Matches kinds x n) := by
  constructor
  · rintro (⟨h, hx⟩ | ⟨h, hi⟩)
    · rcases Nat.lt_or_eq_of_le (Nat.lt_succ_iff.mp hx) with hx | rfl
      · exact .inl (.inl ⟨h, hx⟩)
      · exact .inr (.inl ⟨rfl, h⟩)
    · rcases Nat.lt_or_eq_of_le (Nat.lt_succ_iff.mp hi) with hi | rfl
      · exact .inl (.inr ⟨h, hi⟩)
      · exact .inr (.inr ⟨rfl, h⟩)
  · rintro ((⟨h, hx⟩ | ⟨h, hi⟩) | ⟨rfl, h⟩ | ⟨rfl, h⟩)
    · exact .inl ⟨h, Nat.lt_succ_of_lt hx⟩
    · exact .inr ⟨h, Nat.lt_succ_of_lt hi⟩
    · exact .inl ⟨h, Nat.lt_succ_self _⟩
    · exact .inr ⟨h, Nat.lt_succ_self _⟩

/-- What is known after the first `n` of some tokens: the stack, and the matches so far. -/
structure Reads (m : Matching) (kinds : List TokenKind) (n : Nat) : Prop where
  unclosed_eq : m.unclosed = unclosedAt kinds n
  size_eq : m.partners.size = kinds.length
  partners_iff (i x : Nat) : m.partners[i]? = some (some x) ↔ MatchedBefore kinds n i x

theorem reads_empty : (empty kinds.length).Reads kinds 0 where
  unclosed_eq := rfl
  size_eq := by simp [empty]
  partners_iff i x := by simp [empty, MatchedBefore, Array.getElem?_replicate]

/-- A token that closes no list makes no match. -/
theorem Reads.of_no_match {m m' : Matching} {n : Nat} (h : m.Reads kinds n)
    (hu : m'.unclosed = unclosedAt kinds (n + 1)) (hp : m'.partners = m.partners)
    (hno : ∀ o, ¬ Matches kinds o n) : m'.Reads kinds (n + 1) where
  unclosed_eq := hu
  size_eq := by rw [hp, h.size_eq]
  partners_iff i x := by
    rw [hp, h.partners_iff, matchedBefore_succ_iff]
    constructor
    · exact .inl
    · rintro (h | ⟨-, h⟩ | ⟨-, h⟩)
      · exact h
      · exact absurd h (hno i)
      · exact absurd h (hno x)

/-- Closing the innermost list makes the one match of its two delimiters. -/
theorem Reads.close {m : Matching} {n o : Nat} (h : m.Reads kinds n) (hm : Matches kinds o n) :
    Reads ⟨unclosedAt kinds (n + 1), (m.partners.setIfInBounds o (some n)).setIfInBounds n (some o)⟩
      kinds (n + 1) where
  unclosed_eq := rfl
  size_eq := by simp [h.size_eq]
  partners_iff i x := by
    have ho := hm.lt
    have hn := hm.closer_lt
    simp only [Array.getElem?_setIfInBounds, Array.size_setIfInBounds, h.size_eq,
      matchedBefore_succ_iff]
    -- the closing delimiter, its opener, and all others
    by_cases hin : n = i
    · subst hin
      simp only [if_true, hn, Option.some.injEq]
      constructor
      · rintro rfl
        exact .inr (.inr ⟨trivial, hm⟩)
      · rintro ((⟨h', hx⟩ | ⟨-, hi⟩) | ⟨rfl, h'⟩ | ⟨-, h'⟩)
        · have := h'.lt
          omega
        · omega
        · exact absurd h'.lt (Nat.lt_irrefl _)
        · exact hm.opener_unique h'
    · by_cases hio : o = i
      · subst hio
        simp only [if_neg hin, if_true, Nat.lt_trans ho hn, Option.some.injEq]
        constructor
        · rintro rfl
          exact .inr (.inl ⟨rfl, hm⟩)
        · rintro ((⟨h', hx⟩ | ⟨h', -⟩) | ⟨rfl, -⟩ | ⟨hi, -⟩)
          · exact hm.closer_unique h'
          · exact absurd (hm.opener.symm.trans h'.1) (by simp)
          · rfl
          · exact absurd hi.symm hin
      · simp only [if_neg hin, if_neg hio, h.partners_iff]
        constructor
        · exact .inl
        · rintro (h' | ⟨rfl, h'⟩ | ⟨rfl, -⟩)
          · exact h'
          · exact absurd (hm.opener_unique h') hio
          · exact absurd rfl hin

/-- **One token** is read as the stack tells. -/
theorem Reads.step {m : Matching} {n : Nat} {kind : TokenKind} (h : m.Reads kinds n)
    (hk : kinds[n]? = some kind) : (m.step kind n).Reads kinds (n + 1) := by
  by_cases hopen : kind = .opener
  · subst hopen
    refine h.of_no_match ?_ rfl fun o ho => ?_
    · rw [unclosedAt_succ_of_opener hk, ← h.unclosed_eq]
      rfl
    · exact absurd (hk.symm.trans ho.1) (by simp)
  · by_cases hclose : kind = .closer
    · subst hclose
      cases hs : m.unclosed with
      | nil =>
        -- no list is open, so this delimiter closes none
        have hstack : unclosedAt kinds n = [] := by rw [← h.unclosed_eq, hs]
        have hstep : m.step .closer n = m := by simp only [Matching.step, hs]
        rw [hstep]
        refine h.of_no_match ?_ rfl fun o ho => ?_
        · rw [unclosedAt_succ_of_closer hk, hstack, hs, List.tail_nil]
        · exact absurd ho.2 (by simp [hstack])
      | cons o outer =>
        have hstack : unclosedAt kinds n = o :: outer := by rw [← h.unclosed_eq, hs]
        have hstep : m.step .closer n = ⟨unclosedAt kinds (n + 1),
            (m.partners.setIfInBounds o (some n)).setIfInBounds n (some o)⟩ := by
          simp only [Matching.step, hs, unclosedAt_succ_of_closer hk, hstack, List.tail_cons]
        rw [hstep]
        exact h.close ⟨hk, by rw [hstack, List.head?_cons]⟩
    · have hstep : m.step kind n = m := by
        cases kind <;> first | contradiction | rfl
      rw [hstep]
      have hc : kinds[n]? ≠ some .closer := by simpa [hk] using hclose
      refine h.of_no_match ?_ rfl fun o ho => hc ho.1
      rw [unclosedAt_succ_of_ne (by simpa [hk] using hopen) hc, h.unclosed_eq]

/-- All tokens are read as the stack tells. -/
theorem Reads.run {m : Matching} {n : Nat} {ts : List Token} (h : m.Reads kinds n)
    (hts : ∀ i (hi : i < ts.length), kinds[n + i]? = some ts[i].kind) :
    (m.run n ts).Reads kinds (n + ts.length) := by
  induction ts generalizing m n with
  | nil => exact h
  | cons t rest ih =>
    have hstep := h.step (hts 0 (by simp))
    have hrest := ih hstep fun i hi => by
      have := hts (i + 1) (by simpa using hi)
      rwa [Nat.add_assoc, Nat.add_comm 1]
    rw [run_cons, List.length_cons, Nat.add_comm rest.length, ← Nat.add_assoc]
    exact hrest

/-- The partners among some tokens are the delimiters that match. -/
theorem partners_ofTokens_eq_some_iff (ts : List Token) (i x : Nat) :
    (ofTokens ts).partners[i]? = some (some x) ↔
      Matches (ts.map (·.kind)) i x ∨ Matches (ts.map (·.kind)) x i := by
  have hr : (empty (ts.map (·.kind)).length).Reads (ts.map (·.kind)) 0 := reads_empty
  rw [List.length_map] at hr
  have hr := hr.run fun i (hi : i < ts.length) => by simp [hi]
  rw [Nat.zero_add] at hr
  rw [ofTokens, hr.partners_iff]
  constructor
  · rintro (⟨h, -⟩ | ⟨h, -⟩)
    · exact .inl h
    · exact .inr h
  · rintro (h | h)
    · exact .inl ⟨h, by simpa using h.closer_lt⟩
    · exact .inr ⟨h, by simpa using h.closer_lt⟩

/-! ### The stack of tokens -/

theorem unclosedAfter_append (stack ts us : List Token) :
    unclosedAfter stack (ts ++ us) = unclosedAfter (unclosedAfter stack ts) us := by
  induction ts generalizing stack with
  | nil => rfl
  | cons t rest ih =>
    simp only [List.cons_append, unclosedAfter]
    cases t.kind <;> simp [ih]

/-- The openers that are unclosed after the first tokens, by their indexes. -/
theorem unclosedAfter_take {ts : List Token} {n : Nat} (hn : n ≤ ts.length) :
    (unclosedAfter [] (ts.take n)).map some =
      (unclosedAt (ts.map (·.kind)) n).map fun i => ts[i]? := by
  induction n with
  | zero => rfl
  | succ n ih =>
    have ih := ih (by omega)
    have hlt : n < ts.length := by omega
    have hk : (ts.map (·.kind))[n]? = some ts[n].kind := by simp [hlt]
    rw [List.take_succ_eq_append_getElem hlt, unclosedAfter_append]
    generalize unclosedAfter [] (ts.take n) = stack at ih ⊢
    -- both stacks take the same step
    by_cases hopen : ts[n].kind = .opener
    · rw [unclosedAt_succ_of_opener (by rw [hk, hopen]), List.map_cons, ← ih]
      simp [unclosedAfter, hopen, hlt]
    · by_cases hclose : ts[n].kind = .closer
      · rw [unclosedAt_succ_of_closer (by rw [hk, hclose]), List.map_tail, ← ih]
        simp [unclosedAfter, hclose, List.map_tail]
      · rw [unclosedAt_succ_of_ne (by simpa [hk] using hopen) (by simpa [hk] using hclose), ← ih]
        cases hkind : ts[n].kind <;> simp_all [unclosedAfter]

end Matching

/-- The partner of a significant token is the delimiter that matches it. -/
theorem TokenIndex.partnerOf_eq_some_iff (ts : List Token) (i x : Nat) :
    (TokenIndex.ofTokens ts).partnerOf i = some x ↔
      let kinds := (ts.filter fun t => !t.isTrivia).map (·.kind)
      Matching.Matches kinds i x ∨ Matching.Matches kinds x i := by
  simp only [partnerOf, Int.natCast_nonneg, if_true, Int.toNat_natCast, Option.join_eq_some_iff]
  exact Matching.partners_ofTokens_eq_some_iff _ i x

end SexpEditing
