import EntityMapping.Term.Basic
import Mathlib.Algebra.Order.Field.Power
import Mathlib.Data.Rat.Cast.Order
import Mathlib.Tactic.NormNum

/-!
Equality of values is equality of what they stand for.

Numbers of different exponents are compared in the units of the smaller one.  That is to compare
their values, so equality is symmetric and transitive; only what is not a number does not equal
itself.
-/

namespace EntityMapping

namespace Decimal

variable {x y z : Decimal}

/-- The value of a finite number. -/
def rational (negative : Bool) (coefficient : Nat) (exponent : Int) : ℚ :=
  (if negative then -(coefficient : ℚ) else coefficient) * 10 ^ exponent

/-- What a number stands for: a value, or one of the infinities. -/
def meaning : Decimal → Option (ℚ ⊕ Bool)
  | .finite negative coefficient exponent => some (.inl (rational negative coefficient exponent))
  | .infinite negative => some (.inr negative)
  | .notANumber => none

theorem cast_scaled (negative : Bool) (coefficient : Nat) {exponent low : Int}
    (h : low ≤ exponent) : (scaled negative coefficient exponent low : ℚ) =
      rational negative coefficient exponent / 10 ^ low := by
  have hunits : (10 : ℚ) ^ (exponent - low).toNat = 10 ^ exponent / 10 ^ low := by
    rw [← zpow_natCast, Int.toNat_of_nonneg (by omega), zpow_sub₀ (by norm_num)]
  have hpow : Nat.pow 10 (exponent - low).toNat = 10 ^ (exponent - low).toNat := rfl
  rw [scaled, rational, hpow, mul_div_assoc, ← hunits]
  cases negative <;> push_cast <;> simp

theorem sameValue_finite_iff {a b : Bool} {c d : Nat} {e f : Int} :
    sameValue (.finite a c e) (.finite b d f) = true ↔ rational a c e = rational b d f := by
  have hunit : (10 : ℚ) ^ min e f ≠ 0 := zpow_ne_zero _ (by norm_num)
  have hcompare : sameValue (.finite a c e) (.finite b d f) = true ↔
      scaled a c e (min e f) = scaled b d f (min e f) := by
    simp [sameValue, compare?]
  rw [hcompare, ← Int.cast_inj (α := ℚ), cast_scaled a c (Int.min_le_left e f),
    cast_scaled b d (Int.min_le_right e f), div_left_inj' hunit]

theorem sameValue_iff : x.sameValue y = true ↔ ∃ m, x.meaning = some m ∧ y.meaning = some m := by
  cases x with
  | finite a c e =>
      cases y with
      | finite b d f =>
          rw [sameValue_finite_iff]
          constructor
          · intro h
            exact ⟨.inl (rational a c e), rfl, by rw [meaning, h]⟩
          · rintro ⟨m, hx, hy⟩
            exact Sum.inl.inj (Option.some.inj (hx.trans hy.symm))
      | infinite b => cases b <;> simp [meaning, sameValue, compare?]
      | notANumber => simp [meaning, sameValue, compare?]
  | infinite a =>
      cases y with
      | finite b d f => cases a <;> simp [meaning, sameValue, compare?]
      | infinite b => cases a <;> cases b <;> simp [meaning, sameValue, compare?]
      | notANumber => simp [meaning, sameValue, compare?]
  | notANumber => simp [meaning, sameValue, compare?]

theorem sameValue_symm (h : x.sameValue y = true) : y.sameValue x = true := by
  obtain ⟨m, hx, hy⟩ := sameValue_iff.mp h
  exact sameValue_iff.mpr ⟨m, hy, hx⟩

theorem sameValue_trans (h : x.sameValue y = true) (hmore : y.sameValue z = true) :
    x.sameValue z = true := by
  obtain ⟨m, hx, hy⟩ := sameValue_iff.mp h
  obtain ⟨n, hy', hz⟩ := sameValue_iff.mp hmore
  obtain rfl := Option.some.inj (hy.symm.trans hy')
  exact sameValue_iff.mpr ⟨m, hx, hz⟩

/-- Every number equals itself. -/
theorem sameValue_refl {d : Decimal} (h : d ≠ .notANumber) : d.sameValue d = true := by
  cases d with
  | finite negative coefficient exponent => simp [sameValue, compare?]
  | infinite negative => simp [sameValue, compare?]
  | notANumber => exact absurd rfl h

end Decimal

namespace Binary64

theorem sameValue_refl {x : Binary64} (h : x ≠ .notANumber) : x.sameValue x = true := by
  apply Decimal.sameValue_refl
  cases x with
  | finite negative mantissa exponent =>
      rw [toDecimal]
      split <;> simp
  | infinite negative => simp [toDecimal]
  | notANumber => exact absurd rfl h

end Binary64

namespace Datum

/-- The values that are of a type of numbers and not a number; they do not equal themselves. -/
def isNaN : Datum → Bool
  | .double .notANumber | .decimal .notANumber => true
  | _ => false

@[simp] theorem sameType_refl (d : Datum) : d.sameType d = true := by
  cases d <;> rfl

theorem sameValue_refl {d : Datum} (h : d.isNaN = false) : d.sameValue d = true := by
  cases d with
  | double x => exact Binary64.sameValue_refl fun hx => by simp [hx, isNaN] at h
  | decimal x => exact Decimal.sameValue_refl fun hx => by simp [hx, isNaN] at h
  | _ => simp [sameValue]

/-- Equal values are of one type. -/
theorem sameType_of_sameValue {a b : Datum} (h : a.sameValue b = true) : a.sameType b = true := by
  cases a <;> cases b <;> first | rfl | simp [sameValue] at h

/-- Nothing equals what is not a number. -/
theorem isNaN_of_sameValue {a b : Datum} (h : a.sameValue b = true) : b.isNaN = false := by
  have hdecimal : ∀ x : Decimal, x.sameValue .notANumber ≠ true := fun x hx => by
    obtain ⟨m, -, hm⟩ := Decimal.sameValue_iff.mp hx
    contradiction
  cases b with
  | double y =>
      cases y with
      | notANumber =>
          cases a with
          | double x => exact absurd h (hdecimal x.toDecimal)
          | _ => contradiction
      | _ => rfl
  | decimal y =>
      cases y with
      | notANumber =>
          cases a with
          | decimal x => exact absurd h (hdecimal x)
          | _ => contradiction
      | _ => rfl
  | _ => rfl

end Datum

/-- A literal that does not stand for what is not a number. -/
def Literal.Comparable (l : Literal) : Prop :=
  ∀ d, l.value = some d → d.isNaN = false

end EntityMapping
