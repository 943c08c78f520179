import SexpEditing.Proofs.Token.Matching

/-!
# The one way to pair delimiters

Pairs of delimiters are nested if none crosses another, everything between two partners has its
partner there as well, and no opener that is left over precedes a closing delimiter that is left
over. The stack of unclosed openers finds such pairs, and there are no others: whoever keeps these
laws pairs a closing delimiter with the innermost opener that is unclosed before it.

## Main definitions

* `Matching.IsPairing`: partners that are nested

## Main results

* `Matching.isPairing_of_matches_iff`: the delimiters that match are nested
* `Matching.IsPairing.matches_iff`: nested partners are the delimiters that match
-/

namespace SexpEditing

namespace Matching

variable {kinds : List TokenKind} {partner : Nat → Option Nat}

/-- A token that opens or closes. -/
def DelimiterAt (kinds : List TokenKind) (i : Nat) : Prop :=
  kinds[i]? = some .opener ∨ kinds[i]? = some .closer

/-- Partners that are nested. -/
structure IsPairing (kinds : List TokenKind) (partner : Nat → Option Nat) : Prop where
  symm : ∀ i j, partner i = some j → partner j = some i
  irrefl : ∀ i, partner i ≠ some i
  /-- The first of two partners opens, the other one closes. -/
  kinds_eq : ∀ i j, partner i = some j → i < j →
    kinds[i]? = some .opener ∧ kinds[j]? = some .closer
  not_cross : ∀ i j k l, partner i = some j → partner k = some l → i < k → k < j → ¬j < l
  /-- A delimiter between two partners has its partner between them. -/
  between : ∀ i j k, partner i = some j → i < k → k < j → DelimiterAt kinds k →
    ∃ l, partner k = some l ∧ i < l ∧ l < j
  /-- Left over are first closing delimiters and then openers. -/
  leftover : ∀ i j, i < j → kinds[i]? = some .opener → kinds[j]? = some .closer →
    partner i = none → partner j ≠ none

/-! ### The delimiters that match -/

/-- An opener between two delimiters that match is closed between them. -/
theorem Matches.exists_closer_between {o c k : Nat} (h : Matches kinds o c) (ho : o < k)
    (hc : k < c) (hk : kinds[k]? = some .opener) : ∃ l, Matches kinds k l ∧ l < c := by
  -- left open, it would lie on the stack above the opener that is closed next
  have hnot : k ∉ unclosedAt kinds c := by
    rw [h.unclosedAt_eq, List.mem_cons]
    rintro (rfl | hmem)
    · exact Nat.lt_irrefl k ho
    · exact Nat.lt_asymm ho (lt_of_mem_unclosedAt hmem)
  by_cases hclosed : ∃ l, Matches kinds k l
  · obtain ⟨l, hl⟩ := hclosed
    refine ⟨l, hl, Nat.lt_of_not_le fun hcl => ?_⟩
    exact hnot (hl.mem_unclosedAt hc hcl)
  · exact absurd (mem_unclosedAt_of_unmatched hk (not_exists.mp hclosed) hc) hnot

/-- A closing delimiter between two delimiters that match closes something between them. -/
theorem Matches.exists_opener_between {o c k : Nat} (h : Matches kinds o c) (ho : o < k)
    (hc : k < c) (hk : kinds[k]? = some .closer) : ∃ l, Matches kinds l k ∧ o < l := by
  have hmem := h.mem_unclosedAt ho (Nat.le_of_lt hc)
  cases hstack : unclosedAt kinds k with
  | nil =>
    rw [hstack] at hmem
    cases hmem
  | cons l outer =>
    have hl : Matches kinds l k := ⟨hk, by rw [hstack]; rfl⟩
    refine ⟨l, hl, ?_⟩
    rw [hl.unclosedAt_eq, List.mem_cons] at hmem
    rcases hmem with rfl | hmem
    · exact absurd (h.closer_unique hl) (Nat.ne_of_gt hc)
    · exact lt_of_mem_unclosedAt hmem

section Matches

variable (h : ∀ i x, partner i = some x ↔ Matches kinds i x ∨ Matches kinds x i)
include h

/-- The first of two partners is matched by the other one. -/
theorem matches_of_partner {i j : Nat} (hi : partner i = some j) (hij : i < j) :
    Matches kinds i j := by
  rcases (h i j).mp hi with hm | hm
  · exact hm
  · exact absurd hm.lt (Nat.lt_asymm hij)

theorem exists_partner_between {i j k : Nat} (hi : partner i = some j) (hik : i < k) (hkj : k < j)
    (hk : DelimiterAt kinds k) : ∃ l, partner k = some l ∧ i < l ∧ l < j := by
  have hm := matches_of_partner h hi (Nat.lt_trans hik hkj)
  rcases hk with hk | hk
  · obtain ⟨l, hl, hlj⟩ := hm.exists_closer_between hik hkj hk
    exact ⟨l, (h k l).mpr (.inl hl), Nat.lt_trans hik hl.lt, hlj⟩
  · obtain ⟨l, hl, hil⟩ := hm.exists_opener_between hik hkj hk
    exact ⟨l, (h k l).mpr (.inr hl), hil, Nat.lt_trans hl.lt hkj⟩

/-- **The delimiters that match are nested.** -/
theorem isPairing_of_matches_iff : IsPairing kinds partner where
  symm := by
    intro i j hi
    exact (h j i).mpr ((h i j).mp hi).symm
  irrefl := by
    intro i hi
    rcases (h i i).mp hi with hm | hm <;> exact Nat.lt_irrefl i hm.lt
  kinds_eq := by
    intro i j hi hij
    have hm := matches_of_partner h hi hij
    exact ⟨hm.opener, hm.1⟩
  not_cross := by
    intro i j k l hi hk hik hkj hjl
    -- the opener in the middle has its partner before `j`, and no second one
    have hopen := (matches_of_partner h hk (Nat.lt_trans hkj hjl)).opener
    obtain ⟨l', hl', -, hlt⟩ := exists_partner_between h hi hik hkj (.inl hopen)
    obtain rfl := Option.some.inj (hk.symm.trans hl')
    exact Nat.lt_asymm hjl hlt
  between := by
    intro i j k hi hik hkj hk
    exact exists_partner_between h hi hik hkj hk
  leftover := by
    intro i j hij hi hj hnone
    -- the opener is still on the stack, so there is something to close
    have hmem : i ∈ unclosedAt kinds j := by
      apply mem_unclosedAt_of_unmatched hi _ hij
      intro c hc
      have hsome := (h i c).mpr (.inl hc)
      rw [hnone] at hsome
      cases hsome
    obtain ⟨o, outer, hstack⟩ := List.exists_cons_of_ne_nil (List.ne_nil_of_mem hmem)
    have hm : Matches kinds o j := ⟨hj, by rw [hstack]; rfl⟩
    rw [(h j o).mpr (.inr hm)]
    exact Option.some_ne_none o

end Matches

/-! ### There are no other nested pairs -/

/-- No opener lies on the stack twice. -/
theorem mem_tail_iff {n o : Nat} :
    o ∈ (unclosedAt kinds n).tail ↔
      o ∈ unclosedAt kinds n ∧ (unclosedAt kinds n).head? ≠ some o := by
  cases hstack : unclosedAt kinds n with
  | nil => simp
  | cons top outer =>
    obtain ⟨-, -, rfl⟩ := eq_of_unclosedAt_eq_cons hstack
    rw [List.tail_cons, List.mem_cons, List.head?_cons, ne_eq, Option.some.injEq]
    constructor
    · intro hmem
      exact ⟨.inr hmem, Nat.ne_of_gt (lt_of_mem_unclosedAt hmem)⟩
    · rintro ⟨rfl | hmem, hne⟩
      · exact absurd rfl hne
      · exact hmem

namespace IsPairing

variable (h : IsPairing kinds partner)
include h

/-- What closes comes after what it closes. -/
theorem lt_of_closer {o c : Nat} (hc : kinds[c]? = some .closer) (hp : partner c = some o) :
    o < c := by
  rcases Nat.lt_trichotomy o c with hlt | rfl | hgt
  · exact hlt
  · exact absurd hp (h.irrefl o)
  · exact absurd (hc.symm.trans (h.kinds_eq c o hp hgt).1) (by simp)

/-- What opens comes before what closes it. -/
theorem lt_of_opener {o c : Nat} (ho : kinds[o]? = some .opener) (hp : partner o = some c) :
    o < c := by
  rcases Nat.lt_trichotomy o c with hlt | rfl | hgt
  · exact hlt
  · exact absurd hp (h.irrefl o)
  · exact absurd (ho.symm.trans (h.kinds_eq c o (h.symm o c hp) hgt).2) (by simp)

/-- Where the stack holds the openers without a partner so far, its top is the partner of the
closing delimiter that comes next. -/
theorem head?_eq_of_mem_iff {n : Nat} (hn : kinds[n]? = some .closer)
    (hmem : ∀ o, o ∈ unclosedAt kinds n ↔
      kinds[o]? = some .opener ∧ o < n ∧ ∀ c, partner o = some c → n ≤ c) :
    (unclosedAt kinds n).head? = partner n := by
  cases hp : partner n with
  | none =>
    -- an opener on the stack would be left over before `n`, or have its partner behind it
    rw [List.head?_eq_none_iff, List.eq_nil_iff_forall_not_mem]
    intro o ho
    obtain ⟨hopen, hon, hlater⟩ := (hmem o).mp ho
    cases hpo : partner o with
    | none => exact h.leftover o n hon hopen hn hpo hp
    | some c =>
      have hne : c ≠ n := by
        rintro rfl
        rw [h.symm o c hpo] at hp
        cases hp
      have hnc : n < c := Nat.lt_of_le_of_ne (hlater c hpo) hne.symm
      obtain ⟨l, hl, -⟩ := h.between o c n hpo hon hnc (.inr hn)
      rw [hp] at hl
      cases hl
  | some o =>
    have hon := h.lt_of_closer hn hp
    have hpo := h.symm n o hp
    have hstack : o ∈ unclosedAt kinds n := by
      refine (hmem o).mpr ⟨(h.kinds_eq o n hpo hon).1, hon, fun c hc => ?_⟩
      exact Nat.le_of_eq (Option.some.inj (hpo.symm.trans hc))
    cases htop : unclosedAt kinds n with
    | nil =>
      rw [htop] at hstack
      cases hstack
    | cons top outer =>
      rw [List.head?_cons]
      obtain ⟨-, -, rfl⟩ := eq_of_unclosedAt_eq_cons htop
      rw [htop, List.mem_cons] at hstack
      rcases hstack with rfl | hbelow
      · rfl
      · -- an opener above it would have its partner before `n`
        obtain ⟨hopen, htn, hlater⟩ := (hmem top).mp (by rw [htop]; exact List.mem_cons_self)
        obtain ⟨l, hl, -, hln⟩ :=
          h.between o n top hpo (lt_of_mem_unclosedAt hbelow) htn (.inl hopen)
        exact absurd (hlater l hl) (Nat.not_le_of_lt hln)

/-- What does not close is nobody's later partner. -/
theorem ne_of_not_closer {n o : Nat} (hn : kinds[n]? ≠ some .closer) (hon : o < n) :
    partner o ≠ some n := by
  intro hp
  exact hn (h.kinds_eq o n hp hon).2

omit h in
/-- A partner that is still to come does not come yet. -/
theorem later_succ_iff {n o : Nat} :
    (∀ c, partner o = some c → n + 1 ≤ c) ↔
      (∀ c, partner o = some c → n ≤ c) ∧ partner o ≠ some n := by
  constructor
  · intro hlater
    refine ⟨fun c hc => Nat.le_of_succ_le (hlater c hc), fun hn => ?_⟩
    exact Nat.not_succ_le_self n (hlater n hn)
  · rintro ⟨hlater, hne⟩ c hc
    refine Nat.lt_of_le_of_ne (hlater c hc) ?_
    rintro rfl
    exact hne hc

/-- The stack holds the openers whose partner, if they have one, is still to come. -/
theorem mem_unclosedAt_iff (n o : Nat) :
    o ∈ unclosedAt kinds n ↔
      kinds[o]? = some .opener ∧ o < n ∧ ∀ c, partner o = some c → n ≤ c := by
  induction n generalizing o with
  | zero => simp
  | succ n ih =>
    rw [later_succ_iff]
    by_cases hopen : kinds[n]? = some .opener
    · have hclose : kinds[n]? ≠ some .closer := by simp [hopen]
      rw [unclosedAt_succ_of_opener hopen, List.mem_cons, ih]
      constructor
      · rintro (rfl | ⟨ho, hon, hlater⟩)
        · refine ⟨hopen, Nat.lt_succ_self o, fun c hc => ?_, h.irrefl o⟩
          exact Nat.le_of_lt (h.lt_of_opener hopen hc)
        · exact ⟨ho, Nat.lt_succ_of_lt hon, hlater, h.ne_of_not_closer hclose hon⟩
      · rintro ⟨ho, hon, hlater, -⟩
        rcases Nat.lt_or_eq_of_le (Nat.lt_succ_iff.mp hon) with hon | rfl
        · exact .inr ⟨ho, hon, hlater⟩
        · exact .inl rfl
    · have hlt {o : Nat} (ho : kinds[o]? = some .opener) (hon : o < n + 1) : o < n := by
        refine Nat.lt_of_le_of_ne (Nat.lt_succ_iff.mp hon) ?_
        rintro rfl
        exact hopen ho
      by_cases hclose : kinds[n]? = some .closer
      · -- the top of the stack is taken away, and that is the partner of `n`
        have htail : o ∈ unclosedAt kinds (n + 1) ↔
            o ∈ unclosedAt kinds n ∧ (unclosedAt kinds n).head? ≠ some o := by
          rw [unclosedAt_succ_of_closer hclose]
          exact mem_tail_iff
        rw [htail, h.head?_eq_of_mem_iff hclose ih, ih]
        constructor
        · rintro ⟨⟨ho, hon, hlater⟩, hne⟩
          exact ⟨ho, Nat.lt_succ_of_lt hon, hlater, fun hp => hne (h.symm o n hp)⟩
        · rintro ⟨ho, hon, hlater, hne⟩
          exact ⟨⟨ho, hlt ho hon, hlater⟩, fun hp => hne (h.symm n o hp)⟩
      · rw [unclosedAt_succ_of_ne hopen hclose, ih]
        constructor
        · rintro ⟨ho, hon, hlater⟩
          exact ⟨ho, Nat.lt_succ_of_lt hon, hlater, h.ne_of_not_closer hclose hon⟩
        · rintro ⟨ho, hon, hlater, -⟩
          exact ⟨ho, hlt ho hon, hlater⟩

/-- A closing delimiter is paired with the innermost opener that is unclosed before it. -/
theorem head?_unclosedAt {n : Nat} (hn : kinds[n]? = some .closer) :
    (unclosedAt kinds n).head? = partner n :=
  h.head?_eq_of_mem_iff hn (h.mem_unclosedAt_iff n)

/-- **Nested partners** are the delimiters that match. -/
theorem matches_iff (i x : Nat) :
    partner i = some x ↔ Matches kinds i x ∨ Matches kinds x i := by
  have hclose {o c : Nat} : Matches kinds o c ↔ kinds[c]? = some .closer ∧ partner c = some o := by
    constructor
    · rintro ⟨hc, hhead⟩
      exact ⟨hc, by rw [← h.head?_unclosedAt hc, hhead]⟩
    · rintro ⟨hc, hp⟩
      exact ⟨hc, by rw [h.head?_unclosedAt hc, hp]⟩
  constructor
  · intro hp
    rcases Nat.lt_trichotomy i x with hlt | rfl | hgt
    · exact .inl (hclose.mpr ⟨(h.kinds_eq i x hp hlt).2, h.symm i x hp⟩)
    · exact absurd hp (h.irrefl i)
    · exact .inr (hclose.mpr ⟨(h.kinds_eq x i (h.symm i x hp) hgt).2, hp⟩)
  · rintro (hm | hm)
    · exact h.symm x i (hclose.mp hm).2
    · exact (hclose.mp hm).2

end IsPairing

end Matching

end SexpEditing
