import Easel.Number.Binary
import Easel.Proofs.Number.Operations
import Easel.Proofs.Number.Order
import Easel.Proofs.Number.Packing

/-!
# Numbers of double width

When double-width arithmetic stays finite and when it does not. `Within k` bounds the magnitude of a
finite number by `2 ^ k`, and each operation carries such bounds on as long as they do not reach the
overflow threshold. The other way round, a sum, a difference or a product is finite only if both
operands are, and nothing finite comes of a division by zero.
-/

namespace Easel.Binary64

open Float.Model Rounding

/-- The real number that a finite number stands for. -/
noncomputable def value (x : Float) : ℝ := Rounding.value x.toModel.unpack

theorem canonical {x : Float} (h : x.isFinite = true) : Canonical .binary64 x.toModel.unpack :=
  canonical_unpack _ h

/-! ## Magnitudes -/

/-- `x` is finite and of magnitude `2 ^ k` at most. -/
structure Within (k : ℤ) (x : Float) : Prop where
  isFinite : x.isFinite = true
  abs_le : |value x| ≤ 2 ^ k

/-- The exponents of magnitudes above the least number and below the overflow threshold. -/
structure InRange (k : ℤ) : Prop where
  least : -1074 ≤ k
  largest : k ≤ 1023

instance (k : ℤ) : Decidable (InRange k) :=
  decidable_of_iff (-1074 ≤ k ∧ k ≤ 1023) ⟨fun h => ⟨h.1, h.2⟩, fun h => ⟨h.1, h.2⟩⟩

/-- A rounded result that is packed stays within the range of the exact result. -/
theorem within_pack {q : ℝ} {u : UnpackedFloat} {k : ℤ} (h : Rounds .binary64 q u)
    (hq : |q| ≤ 2 ^ k) (hk : InRange k) : Within k (.ofModel (.pack u)) := by
  have hunpack : (Float.ofModel (.pack u)).toModel.unpack = u :=
    h.unpack_pack (by decide) (hq.trans (zpow_le_zpow_right₀ one_le_two hk.largest))
  refine ⟨?_, ?_⟩
  · rw [Float.isFinite, Float.Model.isFinite, hunpack]
    exact h.canonical.isFinite
  · rw [value, hunpack]
    exact h.nearest.abs_le_two_zpow hq hk.least

theorem two_zpow_add_le {j k n : ℤ} (hj : j < n) (hk : k < n) : (2 : ℝ) ^ j + 2 ^ k ≤ 2 ^ n := by
  have hj' : (2 : ℝ) ^ j ≤ 2 ^ (n - 1) := zpow_le_zpow_right₀ one_le_two (by omega)
  have hk' : (2 : ℝ) ^ k ≤ 2 ^ (n - 1) := zpow_le_zpow_right₀ one_le_two (by omega)
  have hhalf : (2 : ℝ) ^ n = 2 ^ (n - 1) * 2 := by
    rw [← zpow_add_one₀ two_ne_zero, sub_add_cancel]
  linarith

namespace Within

variable {x y : Float} {j k n : ℤ}

theorem add (hx : Within j x) (hy : Within k y) (hj : j < n) (hk : k < n) (hn : InRange n) :
    Within n (x + y) := by
  refine within_pack (rounds_add (canonical hx.isFinite) (canonical hy.isFinite)) ?_ hn
  calc
    |value x + value y| ≤ |value x| + |value y| := abs_add_le _ _
    _ ≤ 2 ^ j + 2 ^ k := add_le_add hx.abs_le hy.abs_le
    _ ≤ 2 ^ n := two_zpow_add_le hj hk

theorem sub (hx : Within j x) (hy : Within k y) (hj : j < n) (hk : k < n) (hn : InRange n) :
    Within n (x - y) := by
  refine within_pack (rounds_sub (canonical hx.isFinite) (canonical hy.isFinite)) ?_ hn
  calc
    |value x - value y| ≤ |value x| + |value y| := abs_sub _ _
    _ ≤ 2 ^ j + 2 ^ k := add_le_add hx.abs_le hy.abs_le
    _ ≤ 2 ^ n := two_zpow_add_le hj hk

theorem mul (hx : Within j x) (hy : Within k y) (hjk : j + k ≤ n) (hn : InRange n) :
    Within n (x * y) := by
  refine within_pack (rounds_mul (canonical hx.isFinite) (canonical hy.isFinite)) ?_ hn
  calc
    |value x * value y| ≤ 2 ^ j * 2 ^ k := by
      rw [abs_mul]
      exact mul_le_mul hx.abs_le hy.abs_le (abs_nonneg _) (by positivity)
    _ ≤ 2 ^ n := by
      rw [← zpow_add₀ two_ne_zero]
      exact zpow_le_zpow_right₀ one_le_two hjk

theorem div (hx : Within j x) (hy : y.isFinite = true) (hk : 2 ^ k ≤ |value y|) (hjk : j ≤ n + k)
    (hn : InRange n) : Within n (x / y) := by
  have hpos : 0 < |value y| := lt_of_lt_of_le (by positivity) hk
  refine within_pack (rounds_div (canonical hx.isFinite) (canonical hy) (abs_pos.1 hpos)) ?_ hn
  change |value x / value y| ≤ _
  rw [abs_div, div_le_iff₀ hpos]
  calc
    |value x| ≤ 2 ^ j := hx.abs_le
    _ ≤ 2 ^ n * 2 ^ k := by
      rw [← zpow_add₀ two_ne_zero]
      exact zpow_le_zpow_right₀ one_le_two hjk
    _ ≤ 2 ^ n * |value y| := mul_le_mul_of_nonneg_left hk (by positivity)

theorem sqrt (hx : Within j x) (h0 : 0 ≤ value x) (hj : j ≤ 2 * n) (hn : InRange n) :
    Within n x.sqrt := by
  refine within_pack (rounds_sqrt (canonical hx.isFinite) h0) ?_ hn
  rw [abs_of_nonneg (Real.sqrt_nonneg _), Real.sqrt_le_left (by positivity)]
  calc
    value x ≤ 2 ^ j := (le_abs_self _).trans hx.abs_le
    _ ≤ (2 ^ n) ^ 2 := by
      rw [← zpow_natCast, ← zpow_mul]
      exact zpow_le_zpow_right₀ one_le_two (by push_cast; omega)

/-- Changing the sign is exact. -/
theorem neg (hx : Within k x) (hk : k ≤ 1023) : Within k (-x) ∧ value (-x) = -value x := by
  have hunpack : (-x).toModel.unpack = x.toModel.unpack.neg := by
    refine (canonical hx.isFinite).neg.unpack_pack (by decide) ?_
    rw [Rounding.value_neg, abs_neg]
    exact hx.abs_le.trans_lt (zpow_lt_zpow_right₀ one_lt_two (Int.lt_add_one_of_le hk))
  have hvalue : value (-x) = -value x := by rw [value, hunpack, Rounding.value_neg, value]
  refine ⟨⟨?_, ?_⟩, hvalue⟩
  · rw [Float.isFinite, Float.Model.isFinite, hunpack]
    exact (canonical hx.isFinite).neg.isFinite
  · rw [hvalue, abs_neg]
    exact hx.abs_le

end Within

/-! ## Comparisons -/

theorem le_iff {x y : Float} (hx : x.isFinite = true) (hy : y.isFinite = true) :
    x ≤ y ↔ value x ≤ value y :=
  decide_eq_true_iff.trans (Rounding.le_iff (canonical hx) (canonical hy))

theorem lt_iff {x y : Float} (hx : x.isFinite = true) (hy : y.isFinite = true) :
    x < y ↔ value x < value y :=
  decide_eq_true_iff.trans (Rounding.lt_iff (canonical hx) (canonical hy))

/-- Only finite numbers lie between finite numbers. -/
theorem isFinite_of_le_of_le {lo x hi : Float} (hlo : lo.isFinite = true)
    (hhi : hi.isFinite = true) (h : lo ≤ x) (h' : x ≤ hi) : x.isFinite = true :=
  Rounding.isFinite_of_le_of_le hlo hhi (decide_eq_true_iff.1 h) (decide_eq_true_iff.1 h')

/-- The power of two. -/
def twoPow (k : ℤ) : Float := .ofModel (.pack (.finite .positive (2 ^ 52) (k - 52) (by decide)))

theorem unpack_twoPow {k : ℤ} (hk : -1022 ≤ k) (hk' : k ≤ 1023) :
    (twoPow k).toModel.unpack = .finite .positive (2 ^ 52) (k - 52) (by decide) := by
  have hleast : Format.binary64.minExponent = -1074 := rfl
  refine unpack_pack_finite (by decide) (.finite _ _ _ _ (by decide) (by omega) (.inl le_rfl)) ?_
  have hbits : (Format.binary64.mantissaBits : ℤ) = 53 := rfl
  have hbias : (Format.binary64.exponentBias : ℤ) = 1023 := rfl
  omega

theorem isFinite_twoPow {k : ℤ} (hk : -1022 ≤ k) (hk' : k ≤ 1023) :
    (twoPow k).isFinite = true := by
  rw [Float.isFinite, Float.Model.isFinite, unpack_twoPow hk hk']
  rfl

theorem value_twoPow {k : ℤ} (hk : -1022 ≤ k) (hk' : k ≤ 1023) : value (twoPow k) = 2 ^ k := by
  rw [value, unpack_twoPow hk hk', value_positive, Nat.cast_pow, ← zpow_natCast,
    Nat.cast_ofNat, ← zpow_add₀ two_ne_zero]
  congr 1
  push_cast
  ring

theorem value_zero : value 0 = 0 := by
  have hunpack : (0 : Float).toModel.unpack = .zero .positive := rfl
  rw [value, hunpack, Rounding.value_zero]

theorem within_twoPow {k : ℤ} (hk : -1022 ≤ k) (hk' : k ≤ 1023) : Within k (twoPow k) :=
  ⟨isFinite_twoPow hk hk', by rw [value_twoPow hk hk', abs_of_pos (by positivity)]⟩

/-- A number between two powers of two of opposite signs. -/
theorem within_of_le_of_le {x : Float} {k : ℤ} (hk : -1022 ≤ k) (hk' : k ≤ 1023)
    (h : -twoPow k ≤ x) (h' : x ≤ twoPow k) : Within k x := by
  obtain ⟨hneg, hvalue⟩ := (within_twoPow hk hk').neg hk'
  have hpos := isFinite_twoPow hk hk'
  have hx := isFinite_of_le_of_le hneg.isFinite hpos h h'
  rw [le_iff hneg.isFinite hx, hvalue, value_twoPow hk hk'] at h
  rw [le_iff hx hpos, value_twoPow hk hk'] at h'
  exact ⟨hx, abs_le.2 ⟨h, h'⟩⟩

/-- A number between two powers of two. -/
theorem between_of_le_of_le {x : Float} {j k : ℤ} (hj : -1022 ≤ j) (hj' : j ≤ 1023)
    (hk : -1022 ≤ k) (hk' : k ≤ 1023) (h : twoPow j ≤ x) (h' : x ≤ twoPow k) :
    Within k x ∧ 2 ^ j ≤ |value x| := by
  have hlo := isFinite_twoPow hj hj'
  have hhi := isFinite_twoPow hk hk'
  have hx := isFinite_of_le_of_le hlo hhi h h'
  rw [le_iff hlo hx, value_twoPow hj hj'] at h
  rw [le_iff hx hhi, value_twoPow hk hk'] at h'
  have hpos : 0 ≤ value x := le_trans (by positivity) h
  exact ⟨⟨hx, by rwa [abs_of_nonneg hpos]⟩, by rwa [abs_of_nonneg hpos]⟩

/-- The larger of a finite number and zero. -/
theorem within_larger_zero {x : Float} {k : ℤ} (hx : Within k x) :
    Within k (larger x 0) ∧ 0 ≤ value (larger x 0) := by
  have hnan : x.isNaN = false := (canonical hx.isFinite).isNaN
  have hnan' : (0 : Float).isNaN = false := rfl
  rw [larger, hnan, hnan']
  simp only [Bool.false_eq_true, if_false]
  split
  case isTrue => exact ⟨⟨rfl, by rw [value_zero, abs_zero]; positivity⟩, value_zero.ge⟩
  case isFalse h =>
    rw [lt_iff hx.isFinite rfl, value_zero, not_lt] at h
    exact ⟨hx, h⟩

/-! ## Results that are not finite -/

variable {x y : Float}

theorem isFinite_of_isFinite_add (h : (x + y).isFinite = true) :
    x.isFinite = true ∧ y.isFinite = true :=
  Rounding.isFinite_of_isFinite_add (isFinite_of_isFinite_unpack_pack h)

theorem isFinite_of_isFinite_mul (h : (x * y).isFinite = true) :
    x.isFinite = true ∧ y.isFinite = true :=
  Rounding.isFinite_of_isFinite_mul (isFinite_of_isFinite_unpack_pack h)

/-- Nothing finite comes of a division by zero. -/
theorem not_isFinite_div (x : Float) (hy : (y == 0) = true) : (x / y).isFinite = false := by
  obtain ⟨s, hs⟩ := eq_zero_of_beq_zero (u := y.toModel.unpack) (s := .positive) hy
  rw [← Bool.not_eq_true]
  intro h
  have hdiv : (UnpackedFloat.div .binary64 x.toModel.unpack y.toModel.unpack).isFinite = true :=
    isFinite_of_isFinite_unpack_pack h
  rw [hs, not_isFinite_div_zero] at hdiv
  cases hdiv

end Easel.Binary64
