import Mathlib.Order.Lattice
import Mathlib.Tactic.Set
import SexpEditing.Number.Binary64

/-!
# Whole numbers among the binary64 numbers

The number that a numeral is read as is computed in two ways: as a natural number, if it is one,
and as a number of least units. The two agree: a numeral is read as a natural number exactly if its
least units make up that many ones, and are not too many.

## Main statements

* `Binary64.nearest_fst_lt`, `Binary64.le_nearest_snd`: the significand and the exponent of the
  nearest number are in their bounds
* `Decimal.nearestNat?_eq_some_iff`: which natural number a numeral is read as
-/

namespace SexpEditing

theorem powerOfTwo_add (m n : Nat) : powerOfTwo (m + n) = powerOfTwo m * powerOfTwo n :=
  Nat.pow_add 2 m n

theorem powerOfTwo_pos (n : Nat) : 0 < powerOfTwo n := Nat.two_pow_pos n

theorem powerOfTwo_le_of_le {m n : Nat} (h : m ≤ n) : powerOfTwo m ≤ powerOfTwo n :=
  Nat.pow_le_pow_right Nat.two_pos h

theorem powerOfTwo_lt_of_lt {m n : Nat} (h : m < n) : powerOfTwo m < powerOfTwo n :=
  Nat.pow_lt_pow_right Nat.one_lt_two h

theorem roundQuotient_le (num den : Nat) : roundQuotient num den ≤ num / den + 1 := by
  simp only [roundQuotient]
  split <;> omega

namespace Binary64

/-- A quotient divided by a power of two: the power goes to the numerator or to the denominator. -/
theorem scale_eq (num den : Nat) (e : Int) :
    scale num den e = (num * powerOfTwo (-e).toNat, den * powerOfTwo e.toNat) := by
  unfold scale
  split
  · have : (-e).toNat = 0 := by omega
    simp [this, powerOfTwo]
  · have : e.toNat = 0 := by omega
    simp [this, powerOfTwo]

/-- Whether the quotient `num / den`, divided by a power of two, has at most 53 bits before its
point. -/
def HasRoom (num den : Nat) (e : Int) : Prop :=
  num * powerOfTwo (-e).toNat < powerOfTwo 53 * (den * powerOfTwo e.toNat)

theorem HasRoom.mono {num den : Nat} {e e' : Int} (h : HasRoom num den e) (he : e ≤ e') :
    HasRoom num den e' := by
  have hn : num * powerOfTwo (-e').toNat ≤ num * powerOfTwo (-e).toNat :=
    Nat.mul_le_mul_left _ (powerOfTwo_le_of_le (by omega))
  have hd : den * powerOfTwo e.toNat ≤ den * powerOfTwo e'.toNat :=
    Nat.mul_le_mul_left _ (powerOfTwo_le_of_le (by omega))
  exact hn.trans_lt (h.trans_le (Nat.mul_le_mul_left _ hd))

/-- One bit more than the difference of the lengths is always room enough. -/
theorem hasRoom_of_log2 (num : Nat) {den : Nat} (hd : den ≠ 0) :
    HasRoom num den ((num.log2 : Int) - den.log2 - 53 + 1) := by
  set e : Int := (num.log2 : Int) - den.log2 - 53 + 1 with he
  calc num * powerOfTwo (-e).toNat
      < powerOfTwo (num.log2 + 1) * powerOfTwo (-e).toNat :=
        Nat.mul_lt_mul_of_pos_right Nat.lt_log2_self (powerOfTwo_pos _)
    _ = powerOfTwo (num.log2 + 1 + (-e).toNat) := (powerOfTwo_add _ _).symm
    _ = powerOfTwo (53 + (den.log2 + e.toNat)) := by congr 1; omega
    _ = powerOfTwo 53 * (powerOfTwo den.log2 * powerOfTwo e.toNat) := by
        rw [powerOfTwo_add, powerOfTwo_add]
    _ ≤ powerOfTwo 53 * (den * powerOfTwo e.toNat) :=
        Nat.mul_le_mul_left _ (Nat.mul_le_mul_right _ (Nat.log2_self_le hd))

theorem hasRoom_lastBit (num : Nat) {den : Nat} (hd : den ≠ 0) :
    HasRoom num den (lastBit num den) := by
  simp only [lastBit, scale_eq]
  -- the quotient has one bit too many before its point, or none; the least exponent only adds room
  split
  · next h =>
    have hpos : 0 < den * powerOfTwo ((num.log2 : Int) - den.log2 - 53).toNat :=
      Nat.mul_pos (Nat.pos_of_ne_zero hd) (powerOfTwo_pos _)
    exact HasRoom.mono ((Nat.div_lt_iff_lt_mul hpos).mp h) (le_max_right _ _)
  · exact (hasRoom_of_log2 num hd).mono (le_max_right _ _)

theorem le_lastBit (num den : Nat) : -1074 ≤ lastBit num den := le_max_left _ _

theorem nearest_fst_lt (num : Nat) {den : Nat} (hd : den ≠ 0) :
    (nearest num den).1 < powerOfTwo 53 := by
  have hroom := hasRoom_lastBit num hd
  have hpos : 0 < den * powerOfTwo (lastBit num den).toNat :=
    Nat.mul_pos (Nat.pos_of_ne_zero hd) (powerOfTwo_pos _)
  simp only [nearest, scale_eq]
  split
  · exact powerOfTwo_lt_of_lt (by omega)
  · next hne =>
    have hle := roundQuotient_le (num * powerOfTwo (-lastBit num den).toNat)
      (den * powerOfTwo (lastBit num den).toNat)
    have hlt := (Nat.div_lt_iff_lt_mul hpos).mpr hroom
    omega

theorem le_nearest_snd (num den : Nat) : -1074 ≤ (nearest num den).2 := by
  have h := le_lastBit num den
  simp only [nearest]
  split
  · exact Int.le_add_one h
  · exact h

theorem toNat?_of_nonneg {significand k : Nat} {exponent : Int} (h : 0 ≤ exponent) :
    toNat? (significand, exponent) = some k ↔
      significand * powerOfTwo exponent.toNat = k ∧ k < limit := by
  simp only [toNat?, if_pos h, Option.ite_none_right_eq_some, Option.some.injEq]
  constructor
  · rintro ⟨hlt, rfl⟩
    exact ⟨rfl, hlt⟩
  · rintro ⟨rfl, hlt⟩
    exact ⟨hlt, rfl⟩

theorem toNat?_of_neg {significand k : Nat} {exponent : Int} (h : ¬ 0 ≤ exponent) :
    toNat? (significand, exponent) = some k ↔
      significand = k * powerOfTwo (-exponent).toNat := by
  simp only [toNat?, if_neg h, Option.ite_none_right_eq_some, Option.some.injEq]
  constructor
  · rintro ⟨hmod, rfl⟩
    exact (Nat.div_mul_cancel (Nat.dvd_of_mod_eq_zero hmod)).symm
  · rintro rfl
    exact ⟨Nat.mul_mod_left _ _, Nat.mul_div_cancel _ (powerOfTwo_pos _)⟩

/-- A binary64 number as a natural number, told from its least units. -/
theorem toNat?_eq_some_iff {significand k : Nat} {exponent : Int}
    (hs : significand < powerOfTwo 53) (he : -1074 ≤ exponent) :
    toNat? (significand, exponent) = some k ↔
      significand * powerOfTwo (exponent + 1074).toNat = k * powerOfTwo 1074 ∧ k < limit := by
  by_cases h : 0 ≤ exponent
  · have hsum : (exponent + 1074).toNat = exponent.toNat + 1074 := by omega
    rw [toNat?_of_nonneg h, hsum, powerOfTwo_add, ← Nat.mul_assoc,
      Nat.mul_right_cancel_iff (powerOfTwo_pos 1074)]
  · -- the units of a one are those of the last bit, taken as often as the bit goes into a one
    have hsum : powerOfTwo 1074 =
        powerOfTwo (-exponent).toNat * powerOfTwo (exponent + 1074).toNat := by
      rw [← powerOfTwo_add]
      congr 1
      omega
    rw [toNat?_of_neg h, hsum, ← Nat.mul_assoc, Nat.mul_right_cancel_iff (powerOfTwo_pos _)]
    refine (and_iff_left_of_imp fun hk => ?_).symm
    calc k ≤ k * powerOfTwo (-exponent).toNat := Nat.le_mul_of_pos_right _ (powerOfTwo_pos _)
      _ = significand := hk.symm
      _ < powerOfTwo 53 := hs
      _ ≤ limit := powerOfTwo_le_of_le (by omega)

end Binary64

namespace Decimal

open Binary64

theorem decimalQuotient_snd_ne_zero (digits : Nat) (exponent : Int) :
    (decimalQuotient digits exponent).2 ≠ 0 := by
  simp only [decimalQuotient]
  split
  · simp
  · exact (Nat.pow_pos (by omega)).ne'

theorem bounds_of_nearest? {d : Decimal} {significand : Nat} {exponent : Int}
    (h : d.nearest? = some (significand, exponent)) :
    significand < powerOfTwo 53 ∧ -1074 ≤ exponent := by
  simp only [nearest?] at h
  split at h
  · obtain ⟨rfl, rfl⟩ := Prod.mk.inj (Option.some.inj h)
    exact ⟨powerOfTwo_pos _, by omega⟩
  · split at h
    · cases h
    · have hn := Option.some.inj h
      have hlt := nearest_fst_lt (decimalQuotient d.digits d.exponent).1
        (decimalQuotient_snd_ne_zero d.digits d.exponent)
      have hle := le_nearest_snd (decimalQuotient d.digits d.exponent).1
        (decimalQuotient d.digits d.exponent).2
      rw [hn] at hlt hle
      exact ⟨hlt, hle⟩

/-- The digits of a numeral, without the sign, are read as a natural number exactly if their least
units make up so many ones, and are not too many. -/
theorem nearest?_toNat?_eq_some_iff (d : Decimal) (k : Nat) :
    d.nearest?.bind toNat? = some k ↔
      d.magnitude = k * powerOfTwo 1074 ∧ d.magnitude < unitLimit := by
  have hone := powerOfTwo_pos 1074
  cases h : d.nearest? with
  | none => simp [magnitude, h]
  | some p =>
    obtain ⟨significand, exponent⟩ := p
    obtain ⟨hs, he⟩ := bounds_of_nearest? h
    simp only [Option.bind_some, magnitude, h, toNat?_eq_some_iff hs he, unitLimit]
    constructor
    · rintro ⟨hk, hlt⟩
      have hlt' : k * powerOfTwo 1074 < limit * powerOfTwo 1074 :=
        Nat.mul_lt_mul_of_pos_right hlt hone
      rw [hk, Nat.min_eq_left hlt'.le]
      exact ⟨rfl, hlt'⟩
    · rintro ⟨hk, hlt⟩
      have hlt' : significand * powerOfTwo (exponent + 1074).toNat < limit * powerOfTwo 1074 := by
        refine Nat.lt_of_not_le fun hge => ?_
        rw [Nat.min_eq_right hge] at hlt
        exact Nat.lt_irrefl _ hlt
      rw [Nat.min_eq_left hlt'.le] at hk
      rw [hk] at hlt'
      exact ⟨hk, Nat.lt_of_mul_lt_mul_right hlt'⟩

/-- A numeral is read as a natural number exactly if its least units make up so many ones, and are
not too many. Zero may have a sign. -/
theorem nearestNat?_eq_some_iff (d : Decimal) (k : Nat) :
    d.nearestNat? = some k ↔
      d.units = (k * powerOfTwo 1074 : Nat) ∧ d.units < (unitLimit : Nat) := by
  have hone := powerOfTwo_pos 1074
  have hlimit : 0 < unitLimit := Nat.mul_pos (powerOfTwo_pos _) hone
  simp only [nearestNat?, units]
  cases d.negative with
  | false =>
    simp only [Bool.false_eq_true, ↓reduceIte, nearest?_toNat?_eq_some_iff, Int.natCast_inj,
      Int.ofNat_lt]
  | true =>
    simp only [↓reduceIte, Option.filter_eq_some_iff, nearest?_toNat?_eq_some_iff, beq_iff_eq]
    constructor
    · rintro ⟨⟨hk, -⟩, rfl⟩
      have hzero : -((0 : Nat) : Int) = 0 := rfl
      rw [Nat.zero_mul] at hk ⊢
      rw [hk, hzero]
      exact ⟨rfl, Int.natCast_pos.mpr hlimit⟩
    · rintro ⟨hk, -⟩
      -- the number of units is at most zero, and that of the ones at least zero
      have hzero : d.magnitude = 0 ∧ k * powerOfTwo 1074 = 0 := by omega
      obtain ⟨hm, hk⟩ := hzero
      obtain rfl : k = 0 := (Nat.mul_eq_zero.mp hk).resolve_right hone.ne'
      exact ⟨⟨by rw [hm, Nat.zero_mul], hm ▸ hlimit⟩, rfl⟩

end Decimal

end SexpEditing
