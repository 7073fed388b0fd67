import EntityMapping.Number.Binary64
import EntityMapping.Proofs.Number.Digits
import Mathlib.Algebra.Order.Field.Power
import Mathlib.Data.Int.Log
import Mathlib.Data.Rat.Floor
import Mathlib.Tactic.FieldSimp
import Mathlib.Tactic.Linarith
import Mathlib.Tactic.Positivity

/-!
Rounding looks at the value of a ratio or of a decimal only, not at how it is written.

The exponent of the result is that of the value's binary order, or the least one, and the mantissa
is the value in units of this exponent, rounded.  So a value that needs no rounding stays as it is.
-/

namespace EntityMapping.Binary64

open Number

/-- A finite number in lowest form. -/
structure Lowest (mantissa : Nat) (exponent : Int) : Prop where
  small : mantissa < mantissaLimit
  least : minExponent ≤ exponent
  greatest : exponent ≤ maxExponent
  full : mantissaLimit ≤ 2 * mantissa ∨ exponent = minExponent

/-- A number that is in lowest form if it is finite. -/
def Canonical : Binary64 → Prop
  | .finite _ mantissa exponent => Lowest mantissa exponent
  | _ => True

/-! ### Ratios -/

/-- A ratio of naturals as a rational number. -/
def quotient (r : Nat × Nat) : ℚ :=
  (r.1 : ℚ) / r.2

variable {num den num' den' : Nat} {exponent : Int}

theorem zpow_natAbs_of_nonneg (b : ℚ) {e : Int} (h : ¬e < 0) : b ^ e.natAbs = b ^ e := by
  rw [← zpow_natCast, Int.natAbs_of_nonneg (not_lt.mp h)]

theorem zpow_natAbs_of_neg (b : ℚ) {e : Int} (h : e < 0) : b ^ e.natAbs = (b ^ e)⁻¹ := by
  rw [← zpow_natCast, ← zpow_neg]
  congr 1
  omega

/-- Scaling divides by a power of two. -/
theorem quotient_scaleDown (num : Nat) (hden : 0 < den) (exponent : Int) :
    0 < (scaleDown num den exponent).2 ∧
      quotient (scaleDown num den exponent) = quotient (num, den) / 2 ^ exponent := by
  have hpow : ∀ n : Nat, 0 < Nat.pow 2 n := fun n => Nat.pow_pos (by decide)
  have hcast : ∀ n : Nat, ((Nat.pow 2 n : Nat) : ℚ) = 2 ^ n := fun n => Nat.cast_pow 2 n
  unfold scaleDown
  split
  · next hneg =>
      refine ⟨hden, ?_⟩
      simp only [quotient, Nat.cast_mul, hcast, zpow_natAbs_of_neg 2 hneg]
      rw [mul_div_right_comm, ← div_eq_mul_inv]
  · next hneg =>
      refine ⟨Nat.mul_pos hden (hpow _), ?_⟩
      simp only [quotient, Nat.cast_mul, hcast, zpow_natAbs_of_nonneg 2 hneg]
      rw [div_div]

theorem cross_of_quotient {r r' : Nat × Nat} (hr : 0 < r.2) (hr' : 0 < r'.2)
    (h : quotient r = quotient r') : r.1 * r'.2 = r'.1 * r.2 := by
  have hden : (r.2 : ℚ) ≠ 0 := Nat.cast_ne_zero.mpr (Nat.ne_of_gt hr)
  have hden' : (r'.2 : ℚ) ≠ 0 := Nat.cast_ne_zero.mpr (Nat.ne_of_gt hr')
  rw [quotient, quotient, div_eq_div_iff hden hden'] at h
  exact_mod_cast h

theorem quotient_pos (hnum : num ≠ 0) (hden : 0 < den) : 0 < quotient (num, den) :=
  div_pos (Nat.cast_pos.mpr (Nat.pos_of_ne_zero hnum)) (Nat.cast_pos.mpr hden)

/-! ### Rounded quotients -/

theorem roundDiv_mul {k : Nat} (hk : 0 < k) (n d : Nat) : roundDiv (k * n) (k * d) = roundDiv n d := by
  have htwice : 2 * (k * (n % d)) = k * (2 * (n % d)) := by ring
  have hgt : (k * (2 * (n % d)) > k * d) = (2 * (n % d) > d) :=
    propext ⟨fun h => Nat.lt_of_mul_lt_mul_left h, fun h => Nat.mul_lt_mul_of_pos_left h hk⟩
  have heq : (k * (2 * (n % d)) == k * d) = (2 * (n % d) == d) := by
    rw [Bool.eq_iff_iff, beq_iff_eq, beq_iff_eq, Nat.mul_right_inj (Nat.ne_of_gt hk)]
  simp only [roundDiv, Nat.mul_div_mul_left n d hk, Nat.mul_mod_mul_left, htwice, hgt, heq]

/-- Equal ratios round to the same number. -/
theorem roundDiv_congr {r r' : Nat × Nat} (hr : 0 < r.2) (hr' : 0 < r'.2)
    (h : quotient r = quotient r') : roundDiv r.1 r.2 = roundDiv r'.1 r'.2 := by
  rw [← roundDiv_mul hr' r.1 r.2, ← roundDiv_mul hr r'.1 r'.2, Nat.mul_comm r'.2 r.1,
    cross_of_quotient hr hr' h, Nat.mul_comm r'.1 r.2, Nat.mul_comm r'.2 r.2]

/-- Whole numbers are not rounded. -/
theorem roundDiv_whole (n : Nat) : roundDiv n 1 = n := by
  simp [roundDiv, Nat.mod_one]

theorem div_le_roundDiv (n d : Nat) : n / d ≤ roundDiv n d ∧ roundDiv n d ≤ n / d + 1 := by
  unfold roundDiv
  dsimp only
  split <;> omega

/-! ### The exponent -/

theorem log_le_of_le {v : ℚ} (hv : 0 < v) {e : Int} (h : (2 : ℚ) ^ e ≤ v) : e ≤ Int.log 2 v :=
  (Int.zpow_le_iff_le_log (by decide) hv).mp (by exact_mod_cast h)

theorem log_lt_iff {v : ℚ} (hv : 0 < v) (e : Int) : Int.log 2 v < e ↔ v < 2 ^ e := by
  rw [← Int.lt_zpow_iff_log_lt (by decide) hv]
  norm_cast

/-- The binary order of a ratio, up to one. -/
theorem log_quotient (hnum : num ≠ 0) (hden : den ≠ 0) :
    (Nat.log2 num : Int) - Nat.log2 den - 1 ≤ Int.log 2 (quotient (num, den)) ∧
      Int.log 2 (quotient (num, den)) < (Nat.log2 num : Int) - Nat.log2 den + 1 := by
  have hpos := quotient_pos hnum (Nat.pos_of_ne_zero hden)
  have hdenPos : (0 : ℚ) < den := Nat.cast_pos.mpr (Nat.pos_of_ne_zero hden)
  have hlow : (2 : ℚ) ^ (Nat.log2 num : Int) ≤ num := by
    rw [zpow_natCast]
    exact_mod_cast Nat.log2_self_le hnum
  have hhigh : (num : ℚ) < 2 ^ ((Nat.log2 num : Int) + 1) := by
    exact_mod_cast @Nat.lt_log2_self num
  have hlowDen : (2 : ℚ) ^ (Nat.log2 den : Int) ≤ den := by
    rw [zpow_natCast]
    exact_mod_cast Nat.log2_self_le hden
  have hhighDen : (den : ℚ) < 2 ^ ((Nat.log2 den : Int) + 1) := by
    exact_mod_cast @Nat.lt_log2_self den
  constructor
  · apply log_le_of_le hpos
    rw [quotient, le_div_iff₀ hdenPos]
    calc (2 : ℚ) ^ ((Nat.log2 num : Int) - Nat.log2 den - 1) * den
        ≤ 2 ^ ((Nat.log2 num : Int) - Nat.log2 den - 1) * 2 ^ ((Nat.log2 den : Int) + 1) := by
          gcongr
      _ = 2 ^ (Nat.log2 num : Int) := by
          rw [← zpow_add₀ two_ne_zero]
          congr 1
          ring
      _ ≤ num := hlow
  · rw [log_lt_iff hpos, quotient, div_lt_iff₀ hdenPos]
    calc (num : ℚ) < 2 ^ ((Nat.log2 num : Int) + 1) := hhigh
      _ = 2 ^ ((Nat.log2 num : Int) - Nat.log2 den + 1) * 2 ^ (Nat.log2 den : Int) := by
          rw [← zpow_add₀ two_ne_zero]
          congr 1
          ring
      _ ≤ 2 ^ ((Nat.log2 num : Int) - Nat.log2 den + 1) * den := by gcongr

/-- The exponent that a positive value is rounded at. -/
def unitOf (v : ℚ) : Int :=
  max (Int.log 2 v - 52) minExponent

theorem div_lt_limit_iff {r : Nat × Nat} (hr : 0 < r.2) :
    r.1 / r.2 < mantissaLimit ↔ quotient r < 2 ^ (53 : Int) := by
  have hden : (0 : ℚ) < r.2 := Nat.cast_pos.mpr hr
  have hlimit : ((mantissaLimit : Nat) : ℚ) = 2 ^ (53 : Int) := by norm_num [mantissaLimit]
  rw [Nat.div_lt_iff_lt_mul hr, quotient, div_lt_iff₀ hden, ← hlimit]
  norm_cast

/-- A ratio is rounded at the exponent of its value. -/
theorem ofRatio_eq (negative : Bool) (hnum : num ≠ 0) (hden : 0 < den) :
    ofRatio negative num den = atExponent negative num den (unitOf (quotient (num, den))) := by
  have hpos := quotient_pos hnum hden
  obtain ⟨hlow, hhigh⟩ := log_quotient hnum (Nat.ne_of_gt hden)
  let low : Int := max ((Nat.log2 num : Int) - Nat.log2 den - 53) minExponent
  obtain ⟨hscaled, hquotient⟩ := quotient_scaleDown num hden low
  have hfits : (scaleDown num den low).1 / (scaleDown num den low).2 < mantissaLimit ↔
      Int.log 2 (quotient (num, den)) < 53 + low := by
    rw [div_lt_limit_iff hscaled, hquotient, log_lt_iff hpos, zpow_add₀ two_ne_zero,
      div_lt_iff₀ (zpow_pos two_pos _)]
  have hexponent : (if (scaleDown num den low).1 / (scaleDown num den low).2 < mantissaLimit then low
      else low + 1) = unitOf (quotient (num, den)) := by
    simp only [hfits, unitOf, low]
    split <;> omega
  rw [ofRatio, if_neg hnum, ← hexponent]

theorem atExponent_congr (negative : Bool) (hden : 0 < den) (hden' : 0 < den')
    (h : quotient (num, den) = quotient (num', den')) (exponent : Int) :
    atExponent negative num den exponent = atExponent negative num' den' exponent := by
  obtain ⟨hscaled, hquotient⟩ := quotient_scaleDown num hden exponent
  obtain ⟨hscaled', hquotient'⟩ := quotient_scaleDown num' hden' exponent
  have hround := roundDiv_congr hscaled hscaled' (by rw [hquotient, hquotient', h])
  simp only [atExponent, hround]

/-- Equal ratios give the same number. -/
theorem ofRatio_congr (negative : Bool) (hnum : num ≠ 0) (hnum' : num' ≠ 0) (hden : 0 < den)
    (hden' : 0 < den') (h : quotient (num, den) = quotient (num', den')) :
    ofRatio negative num den = ofRatio negative num' den' := by
  rw [ofRatio_eq negative hnum hden, ofRatio_eq negative hnum' hden', h]
  exact atExponent_congr negative hden hden' h _

theorem unitOf_lowest {mantissa : Nat} (h : Lowest mantissa exponent) (hne : mantissa ≠ 0) :
    unitOf ((mantissa : ℚ) * 2 ^ exponent) = exponent := by
  have hpow : (0 : ℚ) < 2 ^ exponent := zpow_pos two_pos _
  have hpos : (0 : ℚ) < mantissa * 2 ^ exponent :=
    mul_pos (Nat.cast_pos.mpr (Nat.pos_of_ne_zero hne)) hpow
  have hlimit : ((mantissaLimit : Nat) : ℚ) = 2 ^ (53 : Int) := by norm_num [mantissaLimit]
  have hhigh : Int.log 2 ((mantissa : ℚ) * 2 ^ exponent) < 53 + exponent := by
    rw [log_lt_iff hpos, zpow_add₀ two_ne_zero, ← hlimit]
    exact mul_lt_mul_of_pos_right (Nat.cast_lt.mpr h.small) hpow
  rcases h.full with hfull | hleast
  · have hlow : 52 + exponent ≤ Int.log 2 ((mantissa : ℚ) * 2 ^ exponent) := by
      apply log_le_of_le hpos
      rw [zpow_add₀ two_ne_zero]
      refine mul_le_mul_of_nonneg_right ?_ hpow.le
      have hhalf : (2 : ℚ) ^ (52 : Int) = ((mantissaLimit / 2 : Nat) : ℚ) := by
        norm_num [mantissaLimit]
      rw [hhalf]
      exact Nat.cast_le.mpr (Nat.div_le_of_le_mul hfull)
    have hleast := h.least
    unfold unitOf
    omega
  · unfold unitOf
    omega

/-- A number in lowest form is not rounded. -/
theorem ofRatio_lowest (negative : Bool) {mantissa : Nat} (h : Lowest mantissa exponent)
    (hne : mantissa ≠ 0) (hnum : num ≠ 0) (hden : 0 < den)
    (hvalue : quotient (num, den) = mantissa * 2 ^ exponent) :
    ofRatio negative num den = .finite negative mantissa exponent := by
  obtain ⟨hscaled, hquotient⟩ := quotient_scaleDown num hden exponent
  have hpow : (2 : ℚ) ^ exponent ≠ 0 := zpow_ne_zero _ two_ne_zero
  have hwhole : quotient (scaleDown num den exponent) = quotient (mantissa, 1) := by
    rw [hquotient, hvalue, mul_div_cancel_right₀ _ hpow]
    simp [quotient]
  have hround := roundDiv_congr hscaled Nat.one_pos hwhole
  rw [roundDiv_whole] at hround
  rw [ofRatio_eq negative hnum hden, hvalue, unitOf_lowest h hne]
  simp only [atExponent, hround, if_neg (Nat.ne_of_lt h.small)]
  rw [if_neg (not_lt.mpr h.greatest)]

/-! ### Lowest forms -/

theorem lowest_zero : Lowest 0 minExponent :=
  ⟨by decide, le_refl _, by decide, Or.inr rfl⟩

theorem canonical_atExponent (negative : Bool) (hnum : num ≠ 0) (hden : 0 < den) :
    (atExponent negative num den (unitOf (quotient (num, den)))).Canonical := by
  have hpos := quotient_pos hnum hden
  generalize hunit : unitOf (quotient (num, den)) = exponent
  have hleast : minExponent ≤ exponent := hunit ▸ le_max_right _ _
  obtain ⟨hscaled, hquotient⟩ := quotient_scaleDown num hden exponent
  obtain ⟨hbelow, habove⟩ :=
    div_le_roundDiv (scaleDown num den exponent).1 (scaleDown num den exponent).2
  have hpow : (0 : ℚ) < 2 ^ exponent := zpow_pos two_pos _
  have hsmall : (scaleDown num den exponent).1 / (scaleDown num den exponent).2 <
      mantissaLimit := by
    rw [div_lt_limit_iff hscaled, hquotient, div_lt_iff₀ hpow, ← zpow_add₀ two_ne_zero,
      ← log_lt_iff hpos]
    unfold unitOf at hunit
    omega
  have hfull : exponent ≠ minExponent → mantissaLimit / 2 ≤
      (scaleDown num den exponent).1 / (scaleDown num den exponent).2 := by
    intro hne
    have hhalf : ((mantissaLimit / 2 : Nat) : ℚ) = 2 ^ (52 : Int) := by norm_num [mantissaLimit]
    have hlog : 52 + exponent ≤ Int.log 2 (quotient (num, den)) := by
      unfold unitOf at hunit
      omega
    have hvalue : (2 : ℚ) ^ (52 + exponent) ≤ quotient (num, den) := by
      exact_mod_cast (Int.zpow_le_iff_le_log (b := 2) (by decide) hpos).mpr hlog
    have hdenPos : (0 : ℚ) < (scaleDown num den exponent).2 := Nat.cast_pos.mpr hscaled
    rw [zpow_add₀ two_ne_zero, ← le_div_iff₀ hpow, ← hquotient, quotient, le_div_iff₀ hdenPos,
      ← hhalf] at hvalue
    rw [Nat.le_div_iff_mul_le hscaled]
    exact_mod_cast hvalue
  unfold atExponent
  dsimp only
  generalize roundDiv (scaleDown num den exponent).1 (scaleDown num den exponent).2 = rounded at *
  by_cases hcarry : rounded = mantissaLimit
  · rw [if_pos hcarry]
    dsimp only
    split
    · trivial
    · next hfits => exact ⟨by decide, by omega, by omega, Or.inl (by decide)⟩
  · rw [if_neg hcarry]
    dsimp only
    split
    · trivial
    · next hfits =>
        refine ⟨by omega, hleast, by omega, ?_⟩
        by_cases heq : exponent = minExponent
        · exact Or.inr heq
        · have hhalf := hfull heq
          have hdouble : mantissaLimit = 2 * (mantissaLimit / 2) := by decide
          exact Or.inl (by omega)

theorem canonical_ofRatio (negative : Bool) (num : Nat) (hden : 0 < den) :
    (ofRatio negative num den).Canonical := by
  by_cases hnum : num = 0
  · rw [ofRatio, if_pos hnum]
    exact lowest_zero
  · rw [ofRatio_eq negative hnum hden]
    exact canonical_atExponent negative hnum hden

theorem canonical_ofScientific (negative : Bool) (coefficient : Nat) (exponent : Int) :
    (ofScientific negative coefficient exponent).Canonical := by
  have hpow : ∀ n : Nat, 0 < Nat.pow 10 n := fun n => Nat.pow_pos (by decide)
  unfold ofScientific
  dsimp only
  split
  · exact lowest_zero
  · split
    · trivial
    · split
      · exact canonical_ofRatio _ _ (hpow _)
      · exact canonical_ofRatio _ _ Nat.one_pos

/-! ### Decimals -/

variable {coefficient coefficient' : Nat} {exponent' : Int}

/-- The number of digits up to the unit is the decimal order of the value. -/
theorem length_digitText (hne : coefficient ≠ 0) (exponent : Int) :
    ((digitText coefficient).length : Int) + exponent =
      Int.log 10 ((coefficient : ℚ) * 10 ^ exponent) + 1 := by
  have hpow : (0 : ℚ) < 10 ^ exponent := zpow_pos (by norm_num) _
  have hpos : (0 : ℚ) < coefficient * 10 ^ exponent :=
    mul_pos (Nat.cast_pos.mpr (Nat.pos_of_ne_zero hne)) hpow
  have hlength : 0 < (digitText coefficient).length := Nat.length_toDigits_pos
  generalize hn : (digitText coefficient).length = n at hlength
  have hhigh : coefficient < 10 ^ n :=
    (Nat.length_toDigits_le_iff (by decide) hlength).mp (Nat.le_of_eq hn)
  have hlow : 10 ^ (n - 1) ≤ coefficient := by
    by_contra hless
    rw [not_le] at hless
    by_cases hone : n = 1
    · rw [hone] at hless
      exact hne (Nat.lt_one_iff.mp hless)
    · have hshort := (Nat.length_toDigits_le_iff (by decide) (by omega : 0 < n - 1)).mpr hless
      have heq : (Nat.toDigits 10 coefficient).length = n := hn
      omega
  have hlog : ((n : Int) - 1) + exponent ≤ Int.log 10 ((coefficient : ℚ) * 10 ^ exponent) := by
    apply (Int.zpow_le_iff_le_log (b := 10) (by decide) hpos).mp
    have hcast : ((10 : Nat) : ℚ) ^ ((n : Int) - 1) ≤ coefficient := by
      have hpred : (n : Int) - 1 = ((n - 1 : Nat) : Int) := by omega
      rw [hpred, zpow_natCast]
      exact_mod_cast hlow
    rw [zpow_add₀ (by norm_num)]
    exact mul_le_mul_of_nonneg_right hcast hpow.le
  have hlogLt : Int.log 10 ((coefficient : ℚ) * 10 ^ exponent) < n + exponent := by
    apply (Int.lt_zpow_iff_log_lt (b := 10) (by decide) hpos).mp
    have hcast : (coefficient : ℚ) < ((10 : Nat) : ℚ) ^ (n : Int) := by
      rw [zpow_natCast]
      exact_mod_cast hhigh
    rw [zpow_add₀ (by norm_num)]
    exact mul_lt_mul_of_pos_right hcast hpow
  omega

/-- A decimal of usual size is the ratio of its value. -/
theorem ofScientific_eq (negative : Bool) (hne : coefficient ≠ 0) (exponent : Int) :
    ∃ num den, num ≠ 0 ∧ 0 < den ∧ quotient (num, den) = coefficient * 10 ^ exponent ∧
      ofScientific negative coefficient exponent =
        if Int.log 10 ((coefficient : ℚ) * 10 ^ exponent) < -331 then .finite negative 0 minExponent
        else if 309 < Int.log 10 ((coefficient : ℚ) * 10 ^ exponent) then .infinite negative
        else ofRatio negative num den := by
  have hpow : ∀ n : Nat, 0 < Nat.pow 10 n := fun n => Nat.pow_pos (by decide)
  have hcast : ∀ n : Nat, ((Nat.pow 10 n : Nat) : ℚ) = 10 ^ n := fun n => Nat.cast_pow 10 n
  have hsize := length_digitText hne exponent
  have htiny : (((digitText coefficient).length : Int) + exponent < -330) ↔
      Int.log 10 ((coefficient : ℚ) * 10 ^ exponent) < -331 := by omega
  have hhuge : ((digitText coefficient).length : Int) + exponent > 310 ↔
      309 < Int.log 10 ((coefficient : ℚ) * 10 ^ exponent) := by omega
  simp only [ofScientific, hne, htiny, hhuge, decide_false, Bool.false_or, decide_eq_true_eq]
  by_cases hneg : exponent < 0
  · refine ⟨coefficient, Nat.pow 10 exponent.natAbs, hne, hpow _, ?_, by rw [if_pos hneg]⟩
    rw [quotient, hcast, zpow_natAbs_of_neg 10 hneg, div_inv_eq_mul]
  · refine ⟨coefficient * Nat.pow 10 exponent.natAbs, 1,
      Nat.mul_ne_zero hne (Nat.ne_of_gt (hpow _)), Nat.one_pos, ?_, by rw [if_neg hneg]⟩
    rw [quotient, Nat.cast_mul, hcast, zpow_natAbs_of_nonneg 10 hneg, Nat.cast_one, div_one]

/-- Decimals of the same value give the same number. -/
theorem ofScientific_congr (negative : Bool)
    (h : (coefficient : ℚ) * 10 ^ exponent = coefficient' * 10 ^ exponent') :
    ofScientific negative coefficient exponent = ofScientific negative coefficient' exponent' := by
  have hpow : ∀ e : Int, (10 : ℚ) ^ e ≠ 0 := fun e => zpow_ne_zero e (by norm_num)
  by_cases hzero : coefficient = 0
  · have hzero' : coefficient' = 0 := by
      rw [hzero, Nat.cast_zero, zero_mul, eq_comm, mul_eq_zero] at h
      exact_mod_cast h.resolve_right (hpow _)
    simp [ofScientific, hzero, hzero']
  · have hzero' : coefficient' ≠ 0 := by
      rintro rfl
      rw [Nat.cast_zero, zero_mul, mul_eq_zero] at h
      exact hzero (by exact_mod_cast h.resolve_right (hpow _))
    obtain ⟨num, den, hnum, hden, hvalue, heq⟩ := ofScientific_eq negative hzero exponent
    obtain ⟨num', den', hnum', hden', hvalue', heq'⟩ := ofScientific_eq negative hzero' exponent'
    have hratio := ofRatio_congr negative hnum hnum' hden hden' (by rw [hvalue, hvalue', h])
    rw [heq, heq', h, hratio]

theorem inv_pow_le {m n : Nat} (h : 2 ^ m ≤ 10 ^ n) :
    ((10 : Nat) : ℚ) ^ (-(n : Int)) ≤ 2 ^ (-(m : Int)) := by
  have hcast : (2 : ℚ) ^ m ≤ ((10 : Nat) : ℚ) ^ n := by exact_mod_cast h
  rw [zpow_neg, zpow_neg, zpow_natCast, zpow_natCast]
  exact inv_anti₀ (pow_pos two_pos m) hcast

theorem mul_pow_lt {a m n : Nat} (h : a * 2 ^ m < 10 ^ n) :
    (a : ℚ) * 2 ^ (m : Int) < ((10 : Nat) : ℚ) ^ (n : Int) := by
  rw [zpow_natCast, zpow_natCast]
  exact_mod_cast h

/-- The least numbers are not below the decimals that are read. -/
theorem tiny_le : ((10 : Nat) : ℚ) ^ (-331 : Int) ≤ 2 ^ minExponent :=
  @inv_pow_le 1074 331 (by decide +kernel)

/-- The greatest numbers are not above the decimals that are read. -/
theorem lt_huge : (mantissaLimit : ℚ) * 2 ^ maxExponent < ((10 : Nat) : ℚ) ^ (310 : Int) :=
  @mul_pow_lt mantissaLimit 971 310 (by decide +kernel)

/-- A number in lowest form is read from every decimal of its value. -/
theorem ofScientific_lowest (negative : Bool) {mantissa : Nat} {power : Int}
    (h : Lowest mantissa power) (hne : mantissa ≠ 0)
    (hvalue : (coefficient : ℚ) * 10 ^ exponent = mantissa * 2 ^ power) :
    ofScientific negative coefficient exponent = .finite negative mantissa power := by
  have hmantissa : (1 : ℚ) ≤ mantissa := Nat.one_le_cast.mpr (Nat.one_le_iff_ne_zero.mpr hne)
  have hpos : (0 : ℚ) < mantissa * 2 ^ power :=
    mul_pos (lt_of_lt_of_le one_pos hmantissa) (zpow_pos two_pos _)
  have hcoefficient : coefficient ≠ 0 := by
    rintro rfl
    rw [Nat.cast_zero, zero_mul] at hvalue
    exact absurd hvalue (ne_of_lt hpos)
  have hlow : -331 ≤ Int.log 10 ((mantissa : ℚ) * 2 ^ power) := by
    apply (Int.zpow_le_iff_le_log (b := 10) (by decide) hpos).mp
    calc ((10 : Nat) : ℚ) ^ (-331 : Int) ≤ 2 ^ minExponent := tiny_le
      _ ≤ 2 ^ power := zpow_le_zpow_right₀ one_le_two h.least
      _ ≤ mantissa * 2 ^ power := le_mul_of_one_le_left (zpow_pos two_pos _).le hmantissa
  have hhigh : Int.log 10 ((mantissa : ℚ) * 2 ^ power) < 310 := by
    apply (Int.lt_zpow_iff_log_lt (b := 10) (by decide) hpos).mp
    have hsmall : (mantissa : ℚ) ≤ mantissaLimit := Nat.cast_le.mpr (Nat.le_of_lt h.small)
    calc (mantissa : ℚ) * 2 ^ power ≤ mantissaLimit * 2 ^ maxExponent :=
          mul_le_mul hsmall (zpow_le_zpow_right₀ one_le_two h.greatest) (zpow_pos two_pos _).le
            (Nat.cast_nonneg _)
      _ < ((10 : Nat) : ℚ) ^ (310 : Int) := lt_huge
  obtain ⟨num, den, hnum, hden, hratio, heq⟩ := ofScientific_eq negative hcoefficient exponent
  rw [heq, hvalue, if_neg (not_lt.mpr hlow), if_neg (by omega)]
  exact ofRatio_lowest negative h hne hnum hden (hratio.trans hvalue)

end EntityMapping.Binary64
