import Mathlib
import Easel.Proofs.Number.Double
import Easel.Proofs.Number.Parts
import Easel.Proofs.Number.Signs

/-!
# Rounding keeps the order

A rounded result is no farther from the exact one than any other number of the format. So of two
exact results the smaller one is not rounded to a larger number. In particular finite numbers keep
their order when a half is taken from each, as is done with the crossings of a row before they are
rounded to columns.
-/

namespace Easel

namespace Rounding

open Float.Model
open Float.Model.UnpackedFloat

variable {spec : Format}

/-! ## The nearest number of the format -/

/-- A multiple of a unit within half a unit is not farther than any other multiple. -/
theorem abs_sub_le_multiple {q : ℝ} {n t : ℤ} (h : |(n : ℝ) * 2 ^ t - q| ≤ 2 ^ t / 2) (m : ℤ) :
    |(n : ℝ) * 2 ^ t - q| ≤ |(m : ℝ) * 2 ^ t - q| := by
  rcases eq_or_ne m n with rfl | hne
  · exact le_rfl
  · have hpos : (0 : ℝ) < 2 ^ t := by positivity
    have hunit : (1 : ℝ) ≤ |(m : ℝ) - n| := by
      exact_mod_cast Int.one_le_abs (sub_ne_zero.2 hne)
    have hapart : (2 : ℝ) ^ t ≤ |(m : ℝ) * 2 ^ t - n * 2 ^ t| := by
      rw [← sub_mul, abs_mul, abs_of_pos hpos]
      exact le_mul_of_one_le_left hpos.le hunit
    have htriangle := abs_sub_le ((m : ℝ) * 2 ^ t) q (n * 2 ^ t)
    rw [abs_sub_comm q] at htriangle
    linarith

namespace Nearest

variable {q v : ℝ}

/-- No number of the format is nearer to a result that is not negative. -/
theorem abs_sub_le_of_nonneg (h : Nearest spec q v) (hq : 0 ≤ q) {k j : ℤ}
    (hj : spec.minExponent ≤ j) (hk : |(k : ℝ)| < 2 ^ spec.mantissaBits) :
    |v - q| ≤ |(k : ℝ) * 2 ^ j - q| := by
  obtain ⟨n, t, rfl, herror, -, hbits⟩ := h
  rcases le_or_gt t j with htj | hjt
  · obtain ⟨d, rfl⟩ := Int.le.dest htj
    have hmultiple : (k : ℝ) * 2 ^ (t + d) = (k * 2 ^ d : ℤ) * 2 ^ t := by
      rw [zpow_add₀ two_ne_zero, zpow_natCast]
      push_cast
      ring
    rw [hmultiple]
    exact abs_sub_le_multiple herror _
  · -- A smaller unit would have done for a smaller result, so the other number is smaller.
    have hp := two_le_mantissaBits spec
    have hlarge : (2 : ℝ) ^ (t - 1 + spec.mantissaBits) ≤ q := by
      by_contra hlt
      rw [not_le, ← abs_of_nonneg hq] at hlt
      have := hbits (t - 1) (by omega) hlt
      omega
    have hsmall : (k : ℝ) * 2 ^ j ≤ 2 ^ (t - 1 + spec.mantissaBits) :=
      calc
        (k : ℝ) * 2 ^ j ≤ 2 ^ spec.mantissaBits * 2 ^ j :=
          mul_le_mul_of_nonneg_right ((le_abs_self _).trans hk.le) (by positivity)
        _ = 2 ^ (spec.mantissaBits + j) := by rw [zpow_add₀ two_ne_zero, zpow_natCast]
        _ ≤ 2 ^ (t - 1 + spec.mantissaBits) := zpow_le_zpow_right₀ one_le_two (by omega)
    have hmultiple : (2 : ℝ) ^ (t - 1 + spec.mantissaBits) =
        (2 ^ (spec.mantissaBits - 1) : ℤ) * 2 ^ t := by
      have hsplit : t - 1 + spec.mantissaBits = (spec.mantissaBits - 1 : ℕ) + t := by omega
      rw [hsplit, zpow_add₀ two_ne_zero, zpow_natCast]
      push_cast
      rfl
    refine (abs_sub_le_multiple herror (2 ^ (spec.mantissaBits - 1))).trans ?_
    rw [← hmultiple, abs_of_nonpos (sub_nonpos.2 hlarge),
      abs_of_nonpos (sub_nonpos.2 (hsmall.trans hlarge))]
    linarith

/-- No number of the format is nearer to the exact result. -/
theorem abs_sub_le_fits (h : Nearest spec q v) {k j : ℤ} (hj : spec.minExponent ≤ j)
    (hk : |(k : ℝ)| < 2 ^ spec.mantissaBits) : |v - q| ≤ |(k : ℝ) * 2 ^ j - q| := by
  rcases le_total 0 q with hq | hq
  · exact h.abs_sub_le_of_nonneg hq hj hk
  · have hneg := h.neg.abs_sub_le_of_nonneg (neg_nonneg.2 hq) (k := -k) hj
      (by rwa [Int.cast_neg, abs_neg])
    rwa [Int.cast_neg, neg_mul, neg_sub_neg, neg_sub_neg, abs_sub_comm q, abs_sub_comm q] at hneg

end Nearest

/-- A canonical number fits into the format. -/
theorem Canonical.fits {u : UnpackedFloat} (h : Canonical spec u) :
    ∃ k j : ℤ, value u = k * 2 ^ j ∧ spec.minExponent ≤ j ∧ |(k : ℝ)| < 2 ^ spec.mantissaBits := by
  cases h with
  | zero s => exact ⟨0, spec.minExponent, by simp, le_rfl, by simp⟩
  | finite s m e hm bits least full =>
    refine ⟨s.apply m, e, ?_, least, ?_⟩
    · rw [value_finite, apply_cast s m, mul_assoc, Int.cast_natCast]
    · rw [apply_cast s m, abs_mul, abs_apply_one, one_mul, Int.cast_natCast, Nat.abs_cast]
      exact_mod_cast bits

namespace Rounds

variable {q q' : ℝ} {u u' w : UnpackedFloat}

theorem abs_sub_le (h : Rounds spec q u) (hw : Canonical spec w) :
    |value u - q| ≤ |value w - q| := by
  obtain ⟨k, j, hvalue, hj, hk⟩ := hw.fits
  rw [hvalue]
  exact h.nearest.abs_sub_le_fits hj hk

/-- Rounding keeps the order. -/
theorem mono (h : Rounds spec q u) (h' : Rounds spec q' u') (hq : q < q') :
    value u ≤ value u' := by
  by_contra hlt
  rw [not_le] at hlt
  -- Each exact result is on its own side of the middle between the two numbers.
  have hside := sq_le_sq.2 (h.abs_sub_le h'.canonical)
  have hside' := sq_le_sq.2 (h'.abs_sub_le h.canonical)
  nlinarith

end Rounds

/-- Canonical numbers that stand for one real number are equal, zeros apart. -/
theorem Canonical.eq_of_value_eq {u u' : UnpackedFloat} (h : Canonical spec u)
    (h' : Canonical spec u') (heq : value u = value u') :
    u = u' ∨ ∃ s s', u = .zero s ∧ u' = .zero s' := by
  have hne : ∀ (s : Sign) (m : ℕ) (e : ℤ) (hm : 0 < m), value (.finite s m e hm) ≠ 0 :=
    fun s m e hm => abs_pos.1 (by rw [abs_value_finite]; positivity)
  cases h with
  | zero s =>
    cases h' with
    | zero s' => exact .inr ⟨s, s', rfl, rfl⟩
    | finite s' m' e' hm' => exact absurd heq.symm (hne s' m' e' hm')
  | finite s m e hm bits least full =>
    cases h' with
    | zero s' => exact absurd heq (hne s m e hm)
    | finite s' m' e' hm' bits' least' full' =>
      have hcompare := compare_then_compare bits bits' least least' full full'
      have habs := congrArg (|·|) heq
      simp only [abs_value_finite] at habs
      rw [habs, compare_eq_iff_eq.2 rfl, Ordering.then_eq_eq] at hcompare
      obtain rfl : e = e' := compare_eq_iff_eq.1 hcompare.1
      obtain rfl : m = m' := compare_eq_iff_eq.1 hcompare.2
      have hpos : (0 : ℝ) < m * 2 ^ e := by positivity
      cases s <;> cases s'
      case positive.positive => exact .inl rfl
      case negative.negative => exact .inl rfl
      all_goals
        simp only [value_positive, value_negative] at heq
        linarith

end Rounding

namespace Binary64

open Float.Model Rounding
open Float.Model.UnpackedFloat

variable {x y : Float}

/-! ## Taking a half -/

theorem unpack_half : (0.5 : Float).toModel.unpack = .finite .positive (2 ^ 52) (-53) (by decide) :=
  rfl

theorem value_half : Rounding.value (0.5 : Float).toModel.unpack = 1 / 2 := by
  rw [unpack_half, value_positive]
  norm_num

/-- Finite numbers stay clear of the overflow threshold. -/
theorem abs_value_add_one_lt (hx : x.isFinite = true) : |value x| + 1 < 2 ^ (1023 + 1 : ℤ) := by
  have hunit : (1 : ℝ) < 2 ^ (971 : ℤ) := one_lt_zpow₀ one_lt_two (by decide)
  have hthreshold : (2 : ℝ) ^ (1023 + 1 : ℤ) = 2 ^ 53 * 2 ^ (971 : ℤ) := by
    rw [← zpow_natCast, ← zpow_add₀ two_ne_zero]
    rfl
  rw [hthreshold, value]
  cases hu : x.toModel.unpack with
  | finite s m e hm =>
    have hcanonical := canonical hx
    rw [hu] at hcanonical
    have hexponent := exponent_unpack_le (by decide) hu
    have hbits : (Format.binary64.mantissaBits : ℤ) = 53 := rfl
    have hbias : (Format.binary64.exponentBias : ℤ) = 1023 := rfl
    cases hcanonical with
    | finite s m e hm bits =>
      have hm' : (m : ℝ) + 1 ≤ 2 ^ 53 := by exact_mod_cast bits
      rw [abs_value_finite]
      calc
        (m : ℝ) * 2 ^ e + 1 < m * 2 ^ (971 : ℤ) + 2 ^ (971 : ℤ) :=
          add_lt_add_of_le_of_lt (mul_le_mul_of_nonneg_left
            (zpow_le_zpow_right₀ one_le_two (by omega)) (Nat.cast_nonneg m)) hunit
        _ = (m + 1) * 2 ^ (971 : ℤ) := by ring
        _ ≤ 2 ^ 53 * 2 ^ (971 : ℤ) := mul_le_mul_of_nonneg_right hm' (by positivity)
  | _ =>
    simp only [Rounding.value, abs_zero, zero_add]
    exact one_lt_mul (by norm_num) hunit

/-- Taking a half from a finite number does not overflow: the number itself is near enough. -/
theorem unpack_sub_half (hx : x.isFinite = true) :
    (x - 0.5).toModel.unpack =
        .sub .binary64 x.toModel.unpack (0.5 : Float).toModel.unpack ∧
      Rounds .binary64 (value x - 1 / 2) (x - 0.5).toModel.unpack := by
  have hrounds : Rounds .binary64 (value x - 1 / 2)
      (.sub .binary64 x.toModel.unpack (0.5 : Float).toModel.unpack) := by
    have h := rounds_sub (canonical hx) (canonical (x := 0.5) rfl)
    rwa [value_half] at h
  have hunpack : (x - 0.5).toModel.unpack =
      .sub .binary64 x.toModel.unpack (0.5 : Float).toModel.unpack := by
    refine hrounds.canonical.unpack_pack (by decide) ?_
    have hself : |value x - (value x - 1 / 2)| = 1 / 2 := by
      rw [sub_sub_cancel]
      exact abs_of_pos one_half_pos
    have hnear : |_ - (value x - 1 / 2)| ≤ 1 / 2 :=
      (hrounds.abs_sub_le (canonical hx)).trans hself.le
    refine lt_of_le_of_lt ?_ (abs_value_add_one_lt hx)
    rw [abs_le] at hnear ⊢
    have := le_abs_self (value x)
    have := neg_abs_le (value x)
    constructor <;> linarith
  exact ⟨hunpack, hunpack ▸ hrounds⟩

theorem isFinite_sub_half (hx : x.isFinite = true) : (x - 0.5).isFinite = true :=
  (unpack_sub_half hx).2.canonical.isFinite

/-- Taking a half keeps the order. -/
theorem value_sub_half_mono (hx : x.isFinite = true) (hy : y.isFinite = true)
    (h : value x ≤ value y) : value (x - 0.5) ≤ value (y - 0.5) := by
  obtain ⟨hunpack, hrounds⟩ := unpack_sub_half hx
  obtain ⟨hunpack', hrounds'⟩ := unpack_sub_half hy
  rcases h.lt_or_eq with hlt | heq
  · exact hrounds.mono hrounds' (by linarith)
  · refine le_of_eq (congrArg Rounding.value ?_)
    rw [hunpack, hunpack']
    rcases (canonical hx).eq_of_value_eq (canonical hy) heq with heq | ⟨s, s', hs, hs'⟩
    · rw [heq]
    · rw [hs, hs']
      rfl

/-! ## Whole numbers around a number -/

theorem floor_eq (hx : x.isFinite = true) : Scalar.floor x = ⌊value x⌋ := by
  have hparts : (parts x).value = value x := value_ofBits _ hx
  rw [← hparts]
  exact Binary.floor_eq _

theorem ceil_eq (hx : x.isFinite = true) : Scalar.ceil x = ⌈value x⌉ := by
  have hparts : (parts x).value = value x := value_ofBits _ hx
  rw [← hparts]
  exact Binary.ceil_eq _

end Binary64

end Easel
