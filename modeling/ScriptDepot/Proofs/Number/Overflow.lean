import Mathlib.Algebra.Order.Field.Power
import Mathlib.Algebra.Order.Field.Rat
import Mathlib.Tactic.Linarith
import Mathlib.Tactic.NormNum
import Mathlib.Tactic.Positivity
import Mathlib.Tactic.Ring
import ScriptDepot.Number.Binary64
/-!
# The numerals that are too great for a double

A numeral is read as an infinity exactly when it is at least half a unit past the greatest finite
number, `(2 ^ 53 - 1) · 2 ^ 971`, where the tie goes to the even neighbour above.  The conversion is
integer arithmetic throughout; here it is compared with the rational number that the numeral stands
for.
-/

namespace ScriptDepot

def Decimal.value (d : Decimal) : ℚ := d.digits * 10 ^ d.power

/-- The least number that is rounded to an infinity. -/
def Binary64.overflow : ℚ := (2 ^ 53 - 1 / 2) * 2 ^ (971 : ℤ)

/-! ## Rounding a quotient -/

theorem roundDiv_cases (num den : Nat) :
    roundDiv num den = num / den ∧ 2 * (num % den) < den ∨
      roundDiv num den = num / den + 1 ∧ den < 2 * (num % den) ∨
      roundDiv num den = num / den + num / den % 2 ∧ 2 * (num % den) = den := by
  unfold roundDiv
  dsimp only
  split
  · exact .inl ⟨rfl, by assumption⟩
  split
  · exact .inr (.inl ⟨rfl, by assumption⟩)
  · exact .inr (.inr ⟨rfl, by omega⟩)

theorem le_roundDiv_iff {num den n : Nat} (hden : 0 < den) (heven : n % 2 = 0) :
    n ≤ roundDiv num den ↔ 2 * n * den ≤ 2 * num + den := by
  have hdiv := Nat.div_add_mod num den
  have hmod := Nat.mod_lt num hden
  have hround := roundDiv_cases num den
  generalize num / den = q at *
  generalize num % den = r at *
  rcases Nat.lt_trichotomy n (q + 1) with hlt | rfl | hgt
  · have hle : n * den ≤ den * q := by
      rw [Nat.mul_comm]
      exact Nat.mul_le_mul_left den (by omega)
    rw [Nat.mul_assoc]
    constructor
    · intro _
      omega
    · intro _
      omega
  · have hexpand : 2 * (q + 1) * den = 2 * (den * q) + 2 * den := by ring
    rw [hexpand]
    omega
  · have hle : den * q + 2 * den ≤ n * den := by
      calc den * q + 2 * den = (q + 2) * den := by ring
        _ ≤ n * den := Nat.mul_le_mul_right den (by omega)
    rw [Nat.mul_assoc]
    omega

theorem cast_le_roundDiv_iff {num den n : Nat} (hden : 0 < den) (heven : n % 2 = 0) :
    n ≤ roundDiv num den ↔ (n : ℚ) - 1 / 2 ≤ num / den := by
  have hpos : (0 : ℚ) < den := by exact_mod_cast hden
  have hcast : 2 * n * den ≤ 2 * num + den ↔ 2 * (n : ℚ) * den ≤ 2 * num + den := by
    exact_mod_cast Iff.rfl
  rw [le_roundDiv_iff hden heven, hcast, le_div_iff₀ hpos]
  constructor <;> intro h <;> linarith

/-! ## Powers with positive and negative parts -/

theorem pow_toNat_div {b : ℚ} (hb : b ≠ 0) (k : ℤ) :
    b ^ k.toNat / b ^ (-k).toNat = b ^ k := by
  rw [← zpow_natCast, ← zpow_natCast, ← zpow_sub₀ hb]
  congr 1
  omega

namespace Binary64

theorem pow_le_ratio_iff {num den : Nat} (hden : 0 < den) (k : ℤ) :
    den * Nat.pow 2 k.toNat ≤ num * Nat.pow 2 (-k).toNat ↔ (2 : ℚ) ^ k ≤ num / den := by
  have hpos : (0 : ℚ) < den := by exact_mod_cast hden
  have hpow : (0 : ℚ) < 2 ^ (-k).toNat := by positivity
  have hcast : den * Nat.pow 2 k.toNat ≤ num * Nat.pow 2 (-k).toNat ↔
      (den : ℚ) * 2 ^ k.toNat ≤ num * 2 ^ (-k).toNat := by
    simp only [Nat.pow_eq]
    exact_mod_cast Iff.rfl
  rw [hcast, ← pow_toNat_div two_ne_zero k, div_le_div_iff₀ hpow hpos, mul_comm (den : ℚ)]

theorem ratio_bounds {num den : Nat} (hnum : 0 < num) (hden : 0 < den) :
    (2 : ℚ) ^ ((num.log2 : ℤ) - den.log2 - 1) ≤ num / den ∧
      (num / den : ℚ) < 2 ^ ((num.log2 : ℤ) - den.log2 + 1) := by
  have hpos : (0 : ℚ) < den := by exact_mod_cast hden
  have hnumLow : (2 : ℚ) ^ num.log2 ≤ num := by
    exact_mod_cast Nat.log2_self_le (Nat.ne_of_gt hnum)
  have hnumHigh : (num : ℚ) < 2 ^ (num.log2 + 1) := by exact_mod_cast Nat.lt_log2_self
  have hdenLow : (2 : ℚ) ^ den.log2 ≤ den := by
    exact_mod_cast Nat.log2_self_le (Nat.ne_of_gt hden)
  have hdenHigh : (den : ℚ) < 2 ^ (den.log2 + 1) := by exact_mod_cast Nat.lt_log2_self
  have hlow : (2 : ℚ) ^ ((num.log2 : ℤ) - den.log2 - 1) = 2 ^ num.log2 / 2 ^ (den.log2 + 1) := by
    rw [← zpow_natCast, ← zpow_natCast, ← zpow_sub₀ two_ne_zero]
    congr 1
    push_cast
    ring
  have hhigh : (2 : ℚ) ^ ((num.log2 : ℤ) - den.log2 + 1) = 2 ^ (num.log2 + 1) / 2 ^ den.log2 := by
    rw [← zpow_natCast, ← zpow_natCast, ← zpow_sub₀ two_ne_zero]
    congr 1
    push_cast
    ring
  constructor
  · rw [hlow]
    gcongr
  · rw [hhigh]
    calc (num : ℚ) / den < 2 ^ (num.log2 + 1) / den := by gcongr
      _ ≤ 2 ^ (num.log2 + 1) / 2 ^ den.log2 := by gcongr

theorem floorLog2_spec {num den : Nat} (hnum : 0 < num) (hden : 0 < den) :
    (2 : ℚ) ^ floorLog2 num den ≤ num / den ∧ (num / den : ℚ) < 2 ^ (floorLog2 num den + 1) := by
  obtain ⟨hlow, hhigh⟩ := ratio_bounds hnum hden
  unfold floorLog2
  dsimp only
  split
  · rename_i hle
    exact ⟨(pow_le_ratio_iff hden _).mp hle, hhigh⟩
  · rename_i hlt
    rw [pow_le_ratio_iff hden, not_le] at hlt
    rw [sub_add_cancel]
    exact ⟨hlow, hlt⟩

/-! ## Overflow -/

theorem ofScaled_infinite (negative : Bool) (mantissa : Nat) (power : ℤ) :
    ofScaled negative mantissa power = .infinite negative ↔
      leadingBit ≤ mantissa ∧ 972 ≤ power ∨ 2 * leadingBit ≤ mantissa ∧ 971 ≤ power := by
  unfold ofScaled
  split
  · simp only [reduceCtorEq, false_iff]
    omega
  · dsimp only
    split <;> dsimp only <;> split <;> simp only [reduceCtorEq, false_iff, true_iff] <;> omega

theorem two_zpow_le {j k : ℤ} (h : j ≤ k) : (2 : ℚ) ^ j ≤ 2 ^ k :=
  zpow_le_zpow_right₀ one_le_two h

theorem two_zpow_add (j k : ℤ) : (2 : ℚ) ^ (j + k) = 2 ^ j * 2 ^ k :=
  zpow_add₀ two_ne_zero j k

theorem overflow_lt : overflow < 2 ^ (1024 : ℤ) := by
  have hsplit : (2 : ℚ) ^ (1024 : ℤ) = 2 ^ 53 * 2 ^ (971 : ℤ) := two_zpow_add 53 971
  have hpos : (0 : ℚ) < 2 ^ (971 : ℤ) := by positivity
  rw [hsplit, overflow]
  gcongr
  norm_num

theorem lt_overflow : (2 : ℚ) ^ (1023 : ℤ) < overflow := by
  have hsplit : (2 : ℚ) ^ (1023 : ℤ) = 2 ^ 52 * 2 ^ (971 : ℤ) := two_zpow_add 52 971
  have hpos : (0 : ℚ) < 2 ^ (971 : ℤ) := by positivity
  rw [hsplit, overflow]
  gcongr
  norm_num

theorem scaled_ratio (num den : Nat) (power : ℤ) :
    ((num * Nat.pow 2 (-power).toNat : Nat) : ℚ) / (den * Nat.pow 2 power.toNat : Nat) =
      num / den / 2 ^ power := by
  simp only [Nat.pow_eq]
  push_cast
  rw [← pow_toNat_div two_ne_zero power, div_div_eq_mul_div, div_mul_eq_mul_div, div_div]

/-- With the power that `ofRatio` takes the mantissa stays below `2 ^ 53`, and it has all its bits
unless the power is the least there is. -/
theorem mantissa_bounds {num den : Nat} (hnum : 0 < num) (hden : 0 < den) {power : ℤ}
    (hpower : power = max (floorLog2 num den - 52) (-1074)) :
    (num / den : ℚ) < 2 ^ (power + 53) ∧ (-1074 < power → (2 : ℚ) ^ (power + 52) ≤ num / den) := by
  obtain ⟨hlow, hhigh⟩ := floorLog2_spec hnum hden
  constructor
  · exact lt_of_lt_of_le hhigh (two_zpow_le (by omega))
  · intro hleast
    have hexponent : floorLog2 num den = power + 52 := by omega
    rwa [hexponent] at hlow

theorem ofRatio_infinite (negative : Bool) {num den : Nat} (hden : 0 < den) :
    ofRatio negative num den = .infinite negative ↔ overflow ≤ num / den := by
  unfold ofRatio
  split
  · rename_i hzero
    have hpos : (0 : ℚ) < overflow := lt_trans (by positivity) lt_overflow
    simp only [zero, reduceCtorEq, false_iff, hzero, Nat.cast_zero, zero_div, not_le]
    exact hpos
  rename_i hnum
  dsimp only
  obtain ⟨power, hpower⟩ : ∃ power, power = max (floorLog2 num den - 52) (-1074) := ⟨_, rfl⟩
  obtain ⟨hbelow, habove⟩ := mantissa_bounds (Nat.pos_of_ne_zero hnum) hden hpower
  have hscaled : 0 < den * Nat.pow 2 power.toNat := Nat.mul_pos hden (Nat.two_pow_pos _)
  have hpos : (0 : ℚ) < 2 ^ power := by positivity
  rw [← hpower, ofScaled_infinite, cast_le_roundDiv_iff hscaled (by decide),
    cast_le_roundDiv_iff hscaled (by decide), scaled_ratio, le_div_iff₀ hpos, le_div_iff₀ hpos]
  generalize (num / den : ℚ) = q at *
  -- The mantissa decides only at one power: below it nothing overflows, above it everything does.
  rcases lt_trichotomy power 971 with hlt | rfl | hgt
  · have hsmall : q < overflow :=
      calc q < 2 ^ (power + 53) := hbelow
        _ ≤ 2 ^ (1023 : ℤ) := two_zpow_le (by omega)
        _ < overflow := lt_overflow
    constructor
    · intro h
      omega
    · intro h
      exact absurd hsmall (not_lt.mpr h)
  · -- here only a mantissa that is rounded up to `2 ^ 53` overflows
    have htop : ((2 * leadingBit : Nat) : ℚ) = 2 ^ 53 := by norm_num
    rw [htop]
    constructor
    · rintro (⟨-, h⟩ | ⟨h, -⟩)
      · omega
      · exact h
    · intro h
      exact .inr ⟨h, le_refl _⟩
  · have hlow := habove (by omega)
    have hleading : (2 : ℚ) ^ (power + 52) = leadingBit * 2 ^ power := by
      rw [two_zpow_add, mul_comm]
      norm_num
    constructor
    · intro _
      calc overflow ≤ 2 ^ (1024 : ℤ) := overflow_lt.le
        _ ≤ 2 ^ (power + 52) := two_zpow_le (by omega)
        _ ≤ q := hlow
    · intro _
      refine .inl ⟨?_, by omega⟩
      calc (leadingBit - 1 / 2 : ℚ) * 2 ^ power ≤ leadingBit * 2 ^ power :=
            mul_le_mul_of_nonneg_right (by linarith) hpos.le
        _ = 2 ^ (power + 52) := hleading.symm
        _ ≤ q := hlow

theorem ofScaled_cases (negative : Bool) (mantissa : Nat) (power : ℤ) :
    (ofScaled negative mantissa power).isFinite = true ∨
      ofScaled negative mantissa power = .infinite negative := by
  unfold ofScaled
  split
  · exact .inl rfl
  dsimp only
  split <;> split
  · exact .inl rfl
  · exact .inr rfl
  · exact .inl rfl
  · exact .inr rfl

theorem ofDecimal_cases (negative : Bool) (d : Decimal) :
    (ofDecimal negative d).isFinite = true ∨ ofDecimal negative d = .infinite negative := by
  unfold ofDecimal
  split
  · exact .inl rfl
  split
  · exact .inr rfl
  split
  · exact .inl rfl
  unfold ofRatio
  split
  · exact .inl rfl
  · exact ofScaled_cases _ _ _

end Binary64

namespace Decimal

open Binary64

theorem value_ratio (d : Decimal) :
    ((d.digits * Nat.pow 10 d.power.toNat : Nat) : ℚ) / (Nat.pow 10 (-d.power).toNat : Nat) =
      d.value := by
  have hten : (10 : ℚ) ≠ 0 := by norm_num
  simp only [Nat.pow_eq]
  push_cast
  rw [mul_div_assoc, pow_toNat_div hten, value]

theorem eight_zpow (k : ℤ) : (8 : ℚ) ^ k = 2 ^ (3 * k) := by
  have height : (8 : ℚ) = 2 ^ (3 : ℤ) := by norm_num
  rw [height, zpow_mul]

theorem overflow_le_of_power {d : Decimal} (hdigits : d.digits ≠ 0) (hpower : 400 < d.power) :
    overflow ≤ d.value := by
  have hone : (1 : ℚ) ≤ d.digits := by exact_mod_cast Nat.pos_of_ne_zero hdigits
  calc overflow ≤ 2 ^ (1024 : ℤ) := overflow_lt.le
    _ ≤ 2 ^ (3 * d.power) := two_zpow_le (by omega)
    _ = 8 ^ d.power := (eight_zpow d.power).symm
    _ ≤ 10 ^ d.power := zpow_le_zpow_left₀ (by omega) (by norm_num) (by norm_num)
    _ ≤ d.digits * 10 ^ d.power := le_mul_of_one_le_left (by positivity) hone

theorem lt_overflow_of_tiny {d : Decimal}
    (htiny : (d.digits.log2 : ℤ) + 1 + 3 * d.power < -1100) : d.value < overflow := by
  have hdigits : (d.digits : ℚ) ≤ 2 ^ ((d.digits.log2 : ℤ) + 1) := by
    have hlt := Nat.lt_log2_self (n := d.digits)
    exact_mod_cast hlt.le
  -- the power is negative, so ten to it is the smaller one
  have hten : (10 : ℚ) ^ d.power ≤ 8 ^ d.power := by
    have hflipped : (8 : ℚ) ^ (-d.power) ≤ 10 ^ (-d.power) :=
      zpow_le_zpow_left₀ (by omega) (by norm_num) (by norm_num)
    have hinverse := inv_anti₀ (by positivity) hflipped
    rwa [← zpow_neg, ← zpow_neg, neg_neg] at hinverse
  calc (d.digits : ℚ) * 10 ^ d.power ≤ 2 ^ ((d.digits.log2 : ℤ) + 1) * 8 ^ d.power := by gcongr
    _ = 2 ^ ((d.digits.log2 : ℤ) + 1 + 3 * d.power) := by
      rw [eight_zpow, ← two_zpow_add]
    _ ≤ 2 ^ (1023 : ℤ) := two_zpow_le (by omega)
    _ < overflow := lt_overflow

end Decimal

/-- A numeral is read as an infinity exactly when it is at least half a unit past the greatest
finite number. -/
theorem Binary64.isFinite_ofDecimal (negative : Bool) (d : Decimal) :
    (ofDecimal negative d).isFinite = false ↔ overflow ≤ d.value := by
  have hinfinite : ofDecimal negative d = .infinite negative ↔ overflow ≤ d.value := by
    unfold ofDecimal
    split
    · rename_i hdigits
      have hpos : (0 : ℚ) < overflow := lt_trans (by positivity) lt_overflow
      simp only [zero, reduceCtorEq, false_iff, not_le, Decimal.value, hdigits]
      simpa using hpos
    rename_i hdigits
    split
    · rename_i hpower
      simp only [true_iff]
      exact Decimal.overflow_le_of_power hdigits hpower
    split
    · rename_i htiny
      simp only [zero, reduceCtorEq, false_iff, not_le]
      exact Decimal.lt_overflow_of_tiny htiny
    · have hden : 0 < Nat.pow 10 (-d.power).toNat := Nat.pow_pos (by decide : 0 < 10)
      rw [ofRatio_infinite negative hden, Decimal.value_ratio]
  rw [← hinfinite]
  constructor
  · intro h
    rcases ofDecimal_cases negative d with hfinite | heq
    · rw [hfinite] at h
      cases h
    · exact heq
  · intro h
    rw [h]
    rfl

end ScriptDepot
