import Easel.Proofs.Number.Rounding

/-!
# The order of floating-point numbers

Canonical numbers are compared by sign, exponent and mantissa, in this order. That is the order of
the real numbers they stand for, since a canonical number with a larger exponent is larger.
-/

namespace Easel.Rounding

open Float.Model
open Float.Model.UnpackedFloat

variable {spec : Format}

section Mantissas

variable {m m' : ℕ} {e e' : ℤ}

/-- A canonical number with a larger exponent is larger: its mantissa has all bits. -/
theorem mul_two_zpow_lt (hbits : m < 2 ^ spec.mantissaBits) (hleast : spec.minExponent ≤ e)
    (hfull' : 2 ^ (spec.mantissaBits - 1) ≤ m' ∨ e' = spec.minExponent) (he : e < e') :
    (m : ℝ) * 2 ^ e < m' * 2 ^ e' := by
  have hp := two_le_mantissaBits spec
  have hm' : 2 ^ (spec.mantissaBits - 1) ≤ m' := hfull'.resolve_right (by omega)
  calc
    (m : ℝ) * 2 ^ e < 2 ^ spec.mantissaBits * 2 ^ e :=
      mul_lt_mul_of_pos_right (by exact_mod_cast hbits) (by positivity)
    _ = 2 ^ (spec.mantissaBits + e) := by rw [zpow_add₀ two_ne_zero, zpow_natCast]
    _ ≤ 2 ^ ((spec.mantissaBits - 1 : ℕ) + e') := zpow_le_zpow_right₀ one_le_two (by omega)
    _ = 2 ^ (spec.mantissaBits - 1) * 2 ^ e' := by rw [zpow_add₀ two_ne_zero, zpow_natCast]
    _ ≤ m' * 2 ^ e' := mul_le_mul_of_nonneg_right (by exact_mod_cast hm') (by positivity)

/-- Comparing exponents first and then mantissas compares canonical numbers of one sign. -/
theorem compare_then_compare (hbits : m < 2 ^ spec.mantissaBits)
    (hbits' : m' < 2 ^ spec.mantissaBits) (hleast : spec.minExponent ≤ e)
    (hleast' : spec.minExponent ≤ e')
    (hfull : 2 ^ (spec.mantissaBits - 1) ≤ m ∨ e = spec.minExponent)
    (hfull' : 2 ^ (spec.mantissaBits - 1) ≤ m' ∨ e' = spec.minExponent) :
    (compare e e').then (compare m m') = compare ((m : ℝ) * 2 ^ e) (m' * 2 ^ e') := by
  rcases lt_trichotomy e e' with he | rfl | he
  · rw [Int.compare_eq_lt.2 he, compare_lt_iff_lt.2 (mul_two_zpow_lt hbits hleast hfull' he)]
    rfl
  · have hpos : (0 : ℝ) < 2 ^ e := by positivity
    rw [Int.compare_eq_eq.2 rfl]
    rcases lt_trichotomy m m' with hm | rfl | hm
    · rw [Nat.compare_eq_lt.2 hm,
        compare_lt_iff_lt.2 (mul_lt_mul_of_pos_right (Nat.cast_lt.2 hm) hpos)]
      rfl
    · rw [Nat.compare_eq_eq.2 rfl, compare_eq_iff_eq.2 rfl]
      rfl
    · rw [Nat.compare_eq_gt.2 hm,
        compare_gt_iff_gt.2 (mul_lt_mul_of_pos_right (Nat.cast_lt.2 hm) hpos)]
      rfl
  · rw [Int.compare_eq_gt.2 he, compare_gt_iff_gt.2 (mul_two_zpow_lt hbits' hleast' hfull he)]
    rfl

end Mantissas

theorem compare_neg (x y : ℝ) : compare (-x) (-y) = (compare x y).swap := by
  rcases lt_trichotomy x y with h | rfl | h
  · rw [compare_lt_iff_lt.2 h, compare_gt_iff_gt.2 (neg_lt_neg h)]
    rfl
  · rw [compare_eq_iff_eq.2 rfl, compare_eq_iff_eq.2 rfl]
    rfl
  · rw [compare_gt_iff_gt.2 h, compare_lt_iff_lt.2 (neg_lt_neg h)]
    rfl

/-- Canonical numbers are compared as the real numbers they stand for. -/
theorem compare_eq {u v : UnpackedFloat} (hu : Canonical spec u) (hv : Canonical spec v) :
    u.compare v = some (compare (value u) (value v)) := by
  cases hu with
  | zero s =>
    cases hv with
    | zero s' => rw [value_zero, value_zero, compare_eq_iff_eq.2 rfl]; rfl
    | finite s' m' e' hm' =>
      have hpos : (0 : ℝ) < m' * 2 ^ e' := by positivity
      cases s' with
      | positive => rw [value_zero, value_positive, compare_lt_iff_lt.2 hpos]; rfl
      | negative =>
        rw [value_zero, value_negative, compare_gt_iff_gt.2 (neg_lt_zero.2 hpos)]; rfl
  | finite s m e hm bits least full =>
    have hpos : (0 : ℝ) < m * 2 ^ e := by positivity
    cases hv with
    | zero s' =>
      cases s with
      | positive => rw [value_zero, value_positive, compare_gt_iff_gt.2 hpos]; rfl
      | negative =>
        rw [value_zero, value_negative, compare_lt_iff_lt.2 (neg_lt_zero.2 hpos)]; rfl
    | finite s' m' e' hm' bits' least' full' =>
      have hpos' : (0 : ℝ) < m' * 2 ^ e' := by positivity
      have hcompare := compare_then_compare bits bits' least least' full full'
      cases s <;> cases s'
      case positive.positive =>
        rw [value_positive, value_positive, ← hcompare]
        rfl
      case positive.negative =>
        rw [value_positive, value_negative, compare_gt_iff_gt.2 (by linarith)]
        rfl
      case negative.positive =>
        rw [value_positive, value_negative, compare_lt_iff_lt.2 (by linarith)]
        rfl
      case negative.negative =>
        rw [value_negative, value_negative, compare_neg, ← hcompare]
        rfl

theorem lt_iff {u v : UnpackedFloat} (hu : Canonical spec u) (hv : Canonical spec v) :
    u.lt v = true ↔ value u < value v := by
  rw [UnpackedFloat.lt, compare_eq hu hv, ← compare_lt_iff_lt]
  simp

theorem le_iff {u v : UnpackedFloat} (hu : Canonical spec u) (hv : Canonical spec v) :
    u.le v = true ↔ value u ≤ value v := by
  rw [UnpackedFloat.le, compare_eq hu hv, ← compare_le_iff_le]
  exact Ordering.isLE_iff_ne_gt

/-- Only finite numbers lie between finite numbers. -/
theorem isFinite_of_le_of_le {u v w : UnpackedFloat} (hu : u.isFinite = true)
    (hw : w.isFinite = true) (huv : u.le v = true) (hvw : v.le w = true) : v.isFinite = true := by
  cases v with
  | zero s => rfl
  | finite s m e hm => rfl
  | notANumber => cases u <;> cases huv
  | infinity s =>
    cases s with
    | positive => cases w <;> first | cases hvw | cases hw
    | negative => cases u <;> first | cases huv | cases hu

/-- Only a zero equals a zero. -/
theorem eq_zero_of_beq_zero {u : UnpackedFloat} {s : Sign} (h : u.beq (.zero s) = true) :
    ∃ s', u = .zero s' := by
  cases u with
  | zero s' => exact ⟨s', rfl⟩
  | notANumber => cases h
  | infinity s' => cases s' <;> cases h
  | finite s' m e hm => cases s' <;> cases h

end Easel.Rounding
