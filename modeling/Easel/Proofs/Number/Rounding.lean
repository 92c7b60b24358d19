import Mathlib

/-!
# Rounding to binary formats

What the operations on floating-point numbers compute, in real numbers. A finite number stands for
`± m · 2 ^ e`; an operation forms the exact result, keeps as many of its bits as the format has and
two more, one for the half and one for the rest, and goes to the nearest number of the format.

`Nearest` is that relation between an exact result and a number of the format, and all bounds on
errors come from it. `Rounds` adds that the number has one of the shapes that are packed into bits
without loss. There is one theorem of that form for each operation: `rounds_add`, `rounds_sub`,
`rounds_mul`, `rounds_div`, `rounds_sqrt`. They hold for every format.
-/

namespace Easel.Rounding

open Float.Model
open Float.Model.UnpackedFloat

variable {spec : Format}

/-! ## Formats -/

theorem two_le_mantissaBits (spec : Format) : 2 ≤ spec.mantissaBits := by
  have := spec.hm
  rw [Format.mantissaBits]
  omega

theorem two_pow_exponentBits (spec : Format) :
    2 ^ spec.exponentBits = 2 * (spec.exponentBias + 1) := by
  obtain ⟨k, hk⟩ : ∃ k, spec.exponentBits = k + 1 :=
    ⟨_, (Nat.succ_pred_eq_of_pos spec.he).symm⟩
  have := Nat.one_le_two_pow (n := k)
  simp only [Format.exponentBias, hk, Nat.add_sub_cancel, pow_succ]
  omega

theorem minExponent_eq (spec : Format) :
    spec.minExponent = 2 - spec.exponentBias - spec.mantissaBits := by
  have := Nat.one_le_two_pow (n := spec.exponentBits - 1)
  simp only [Format.minExponent, Format.exponentBias]
  push_cast [Nat.cast_sub this]
  ring

theorem minExponent_le_exponentBias (spec : Format) : spec.minExponent ≤ spec.exponentBias := by
  have := two_le_mantissaBits spec
  rw [minExponent_eq]
  omega

/-! ## Values -/

theorem apply_cast (s : Sign) (n : ℤ) : (s.apply n : ℝ) = s.apply 1 * n := by
  cases s <;> simp [Sign.apply]

theorem apply_neg (s : Sign) (n : ℤ) : (-s).apply n = -s.apply n := by
  cases s with
  | positive => rfl
  | negative => exact (neg_neg n).symm

/-- The real number `n · 2 ^ e`. -/
noncomputable def dyadic (n e : ℤ) : ℝ := n * 2 ^ e

theorem abs_apply_one (s : Sign) : |(s.apply 1 : ℝ)| = 1 := by
  cases s <;> simp [Sign.apply]

/-- The real number that a finite floating-point number stands for, and zero for the others. -/
noncomputable def value : UnpackedFloat → ℝ
  | .finite s m e _ => s.apply 1 * (m * 2 ^ e)
  | _ => 0

@[simp] theorem value_zero (s : Sign) : value (.zero s) = 0 := rfl

theorem value_finite (s : Sign) (m : ℕ) (e : ℤ) (hm : 0 < m) :
    value (.finite s m e hm) = s.apply 1 * (m * 2 ^ e) := rfl

theorem value_positive (m : ℕ) (e : ℤ) (hm : 0 < m) :
    value (.finite .positive m e hm) = m * 2 ^ e := by
  simp [value_finite, Sign.apply]

theorem value_negative (m : ℕ) (e : ℤ) (hm : 0 < m) :
    value (.finite .negative m e hm) = -(m * 2 ^ e) := by
  simp [value_finite, Sign.apply]

theorem abs_value_finite (s : Sign) (m : ℕ) (e : ℤ) (hm : 0 < m) :
    |value (.finite s m e hm)| = m * 2 ^ e := by
  rw [value_finite, abs_mul, abs_apply_one, one_mul]
  exact abs_of_nonneg (by positivity)

theorem value_neg (u : UnpackedFloat) : value u.neg = -value u := by
  cases u with
  | finite s m e hm => rw [UnpackedFloat.neg, value, value, apply_neg, Int.cast_neg, neg_mul]
  | _ => exact neg_zero.symm

/-- The shapes of the finite numbers of a format: they have at most as many bits as it keeps, and
exactly as many unless their exponent is the least one. -/
inductive Canonical (spec : Format) : UnpackedFloat → Prop
  | zero (s : Sign) : Canonical spec (.zero s)
  | finite (s : Sign) (m : ℕ) (e : ℤ) (hm : 0 < m) (bits : m < 2 ^ spec.mantissaBits)
      (least : spec.minExponent ≤ e)
      (full : 2 ^ (spec.mantissaBits - 1) ≤ m ∨ e = spec.minExponent) :
      Canonical spec (.finite s m e hm)

theorem Canonical.neg {u : UnpackedFloat} (h : Canonical spec u) : Canonical spec u.neg := by
  cases h with
  | zero s => exact .zero _
  | finite s m e hm bits least full => exact .finite _ m e hm bits least full

theorem Canonical.isFinite {u : UnpackedFloat} (h : Canonical spec u) : u.isFinite = true := by
  cases h <;> rfl

theorem Canonical.isNaN {u : UnpackedFloat} (h : Canonical spec u) : u.isNaN = false := by
  cases h <;> rfl

/-! ## The numbers nearest to a real number -/

/-- `v` is a multiple of a power of two and no multiple is nearer to `q`. The power is not below the
least one of the format, and not above any for which `q` has no more bits than the format keeps. -/
def Nearest (spec : Format) (q v : ℝ) : Prop :=
  ∃ n t : ℤ, v = n * 2 ^ t ∧ |v - q| ≤ 2 ^ t / 2 ∧ spec.minExponent ≤ t ∧
    ∀ j, spec.minExponent ≤ j → |q| < 2 ^ (j + spec.mantissaBits) → t ≤ j

namespace Nearest

variable {q v : ℝ}

theorem neg (h : Nearest spec q v) : Nearest spec (-q) (-v) := by
  obtain ⟨n, t, rfl, herror, hleast, hbits⟩ := h
  refine ⟨-n, t, by push_cast; ring, ?_, hleast, fun j hj hq => hbits j hj (by rwa [abs_neg] at hq)⟩
  rwa [neg_sub_neg, abs_sub_comm]

theorem signed (h : Nearest spec q v) (s : Sign) :
    Nearest spec (s.apply 1 * q) (s.apply 1 * v) := by
  cases s with
  | positive => simpa [Sign.apply] using h
  | negative => simpa [Sign.apply] using h.neg

/-- The distance in units of the last place. -/
theorem abs_sub_le_half {n t : ℤ} (h : |(n : ℝ) * 2 ^ t - q| ≤ 2 ^ t / 2) :
    |(n : ℝ) - q / 2 ^ t| ≤ 1 / 2 := by
  have hpos : (0 : ℝ) < 2 ^ t := by positivity
  have hq : (n : ℝ) * 2 ^ t - q = (n - q / 2 ^ t) * 2 ^ t := by
    field_simp
  rw [hq, abs_mul, abs_of_pos hpos] at h
  exact le_of_mul_le_mul_right (by linarith) hpos

theorem nonneg (h : Nearest spec q v) (hq : 0 ≤ q) : 0 ≤ v := by
  obtain ⟨n, t, rfl, herror, -, -⟩ := h
  have hn : (-1 : ℝ) < n := by
    have := abs_le.1 (abs_sub_le_half herror)
    have : 0 ≤ q / 2 ^ t := by positivity
    linarith
  have : 0 ≤ n := by
    have : (-1 : ℤ) < n := by exact_mod_cast hn
    omega
  positivity

/-- Whole numbers of units that fit into the format are not rounded. -/
theorem eq_of_fits (h : Nearest spec q v) {k j : ℤ} (hq : q = k * 2 ^ j)
    (hj : spec.minExponent ≤ j) (hk : |(k : ℝ)| < 2 ^ spec.mantissaBits) : v = q := by
  obtain ⟨n, t, rfl, herror, -, hbits⟩ := h
  have ht : t ≤ j := by
    refine hbits j hj ?_
    rw [hq, abs_mul, abs_of_pos (by positivity : (0 : ℝ) < 2 ^ j), add_comm,
      zpow_add₀ two_ne_zero, zpow_natCast]
    exact mul_lt_mul_of_pos_right hk (by positivity)
  obtain ⟨d, rfl⟩ := Int.le.dest ht
  have hunits : q / 2 ^ t = (k * 2 ^ d : ℤ) := by
    rw [hq, zpow_add₀ two_ne_zero, zpow_natCast]
    push_cast
    field_simp
  have hhalf := abs_sub_le_half herror
  rw [hunits] at hhalf
  have hn : n = k * 2 ^ d := by
    have : |((n - k * 2 ^ d : ℤ) : ℝ)| < 1 := by
      push_cast at hhalf ⊢
      linarith
    have : |n - k * 2 ^ d| < 1 := by exact_mod_cast this
    have := Int.abs_lt_one_iff.1 this
    omega
  rw [hq, hn, zpow_add₀ two_ne_zero, zpow_natCast]
  push_cast
  ring

/-- Rounding does not leave the range up to a power of two. -/
theorem abs_le_two_zpow (h : Nearest spec q v) {k : ℤ} (hq : |q| ≤ 2 ^ k)
    (hk : spec.minExponent ≤ k) : |v| ≤ 2 ^ k := by
  obtain ⟨n, t, rfl, herror, -, hbits⟩ := h
  have hp := two_le_mantissaBits spec
  have ht : t ≤ k := by
    refine (hbits (max spec.minExponent (k + 1 - spec.mantissaBits)) (le_max_left _ _) ?_).trans
      (by omega)
    refine hq.trans_lt (zpow_lt_zpow_right₀ one_lt_two ?_)
    omega
  obtain ⟨d, rfl⟩ := Int.le.dest ht
  have hpos : (0 : ℝ) < 2 ^ t := by positivity
  have hunits : |q / 2 ^ t| ≤ 2 ^ d := by
    rw [abs_div, abs_of_pos hpos, div_le_iff₀ hpos, ← zpow_natCast, ← zpow_add₀ two_ne_zero,
      add_comm]
    exact hq
  have hn : |n| ≤ 2 ^ d := by
    have h₁ := abs_le.1 (abs_sub_le_half herror)
    have h₂ := abs_le.1 hunits
    have : |(n : ℝ)| < 2 ^ d + 1 := abs_lt.2 ⟨by linarith, by linarith⟩
    have : |n| < 2 ^ d + 1 := by exact_mod_cast this
    omega
  have hn' : |(n : ℝ)| ≤ 2 ^ d := by exact_mod_cast hn
  rw [abs_mul, abs_of_pos hpos, zpow_add₀ two_ne_zero, zpow_natCast, mul_comm]
  exact mul_le_mul_of_nonneg_left hn' hpos.le

/-- The error of rounding, relative to the exact result; below the normal numbers it is half of the
least number instead. -/
theorem abs_sub_le (h : Nearest spec q v) :
    |v - q| ≤ 2 ^ (-spec.mantissaBits : ℤ) * |q| + 2 ^ (spec.minExponent - 1) := by
  obtain ⟨n, t, rfl, herror, -, hbits⟩ := h
  refine herror.trans ?_
  have hhalf : (2 : ℝ) ^ t / 2 = 2 ^ (t - 1) := by
    rw [zpow_sub₀ two_ne_zero, zpow_one]
  rw [hhalf]
  by_cases hsmall : |q| < 2 ^ (spec.minExponent + spec.mantissaBits)
  · have ht := hbits _ le_rfl hsmall
    have : (2 : ℝ) ^ (t - 1) ≤ 2 ^ (spec.minExponent - 1) :=
      zpow_le_zpow_right₀ one_le_two (by omega)
    have : (0 : ℝ) ≤ 2 ^ (-spec.mantissaBits : ℤ) * |q| := by positivity
    linarith
  · have hq : 0 < |q| := lt_of_lt_of_le (by positivity) (not_lt.1 hsmall)
    obtain ⟨j, hj, hj'⟩ := exists_mem_Ico_zpow hq one_lt_two
    have hle : spec.minExponent + spec.mantissaBits ≤ j := by
      have := lt_of_le_of_lt (not_lt.1 hsmall) hj'
      have := (zpow_lt_zpow_iff_right₀ (one_lt_two : (1 : ℝ) < 2)).1 this
      omega
    have ht := hbits (j + 1 - spec.mantissaBits) (by omega) (by
      rwa [sub_add_cancel])
    have hbound : (2 : ℝ) ^ (t - 1) ≤ 2 ^ (-spec.mantissaBits : ℤ) * 2 ^ j := by
      rw [← zpow_add₀ two_ne_zero]
      exact zpow_le_zpow_right₀ one_le_two (by omega)
    have : (2 : ℝ) ^ (-spec.mantissaBits : ℤ) * 2 ^ j ≤ 2 ^ (-spec.mantissaBits : ℤ) * |q| :=
      mul_le_mul_of_nonneg_left hj (by positivity)
    have : (0 : ℝ) < 2 ^ (spec.minExponent - 1) := by positivity
    linarith

end Nearest

/-! ## The bits behind the last place -/

/-- `f` is where the bits say: at `em.mantissa`, or above it by less than a half, a half, or
more. -/
def Holds (em : ExtendedMantissa) (f : ℝ) : Prop :=
  match em.roundBit, em.stickyBit with
  | false, false => f = em.mantissa
  | false, true => em.mantissa < f ∧ f < em.mantissa + 1 / 2
  | true, false => f = em.mantissa + 1 / 2
  | true, true => em.mantissa + 1 / 2 < f ∧ f < em.mantissa + 1

namespace Holds

variable {em : ExtendedMantissa} {f : ℝ}

theorem mantissa_le (h : Holds em f) : (em.mantissa : ℝ) ≤ f := by
  obtain ⟨m, r, s⟩ := em
  cases r <;> cases s <;> simp only [Holds] at h <;> linarith

theorem shiftRightOne (h : Holds em f) : Holds em.shiftRightOne (f / 2) := by
  obtain ⟨m, r, s⟩ := em
  have hm : (m : ℝ) = 2 * (m / 2 : ℕ) + (m % 2 : ℕ) := by
    exact_mod_cast (Nat.div_add_mod m 2).symm
  -- The bit that is shifted out becomes the half, and what was behind it joins the rest.
  rcases Nat.mod_two_eq_zero_or_one m with hbit | hbit <;> rw [hbit] at hm <;> push_cast at hm
  · have hshift : ExtendedMantissa.shiftRightOne ⟨m, r, s⟩ = ⟨m / 2, false, r || s⟩ := by
      simp [ExtendedMantissa.shiftRightOne, hbit]
    rw [hshift]
    cases r <;> cases s <;> simp only [Holds, Bool.or_false, Bool.or_true] at h ⊢ <;>
      first | linarith | (constructor <;> linarith)
  · have hshift : ExtendedMantissa.shiftRightOne ⟨m, r, s⟩ = ⟨m / 2, true, r || s⟩ := by
      simp [ExtendedMantissa.shiftRightOne, hbit]
    rw [hshift]
    cases r <;> cases s <;> simp only [Holds, Bool.or_false, Bool.or_true] at h ⊢ <;>
      first | linarith | (constructor <;> linarith)

theorem shiftRight (h : Holds em f) (k : ℕ) : Holds (em >>> k) (f / 2 ^ k) := by
  induction k with
  | zero =>
    rw [pow_zero, div_one]
    exact h
  | succ k ih =>
    have := ih.shiftRightOne
    rwa [div_div, ← pow_succ] at this

/-- Rounding the mantissa goes to a nearest whole number. -/
theorem abs_roundedMantissa_sub_le (h : Holds em f) : |(em.roundedMantissa : ℝ) - f| ≤ 1 / 2 := by
  obtain ⟨m, r, s⟩ := em
  rw [abs_le]
  rcases Nat.mod_two_eq_zero_or_one m with hbit | hbit <;> cases r <;> cases s <;>
    simp only [Holds, ExtendedMantissa.roundedMantissa, ExtendedMantissa.accuracy,
      Accuracy.roundToNearestEven, hbit] at h ⊢ <;>
    push_cast <;> constructor <;> linarith

end Holds

theorem mantissa_shiftRight (em : ExtendedMantissa) (k : ℕ) :
    (em >>> k).mantissa = em.mantissa / 2 ^ k := by
  induction k with
  | zero =>
    rw [pow_zero, Nat.div_one]
    rfl
  | succ k ih =>
    calc
      _ = (em >>> k).mantissa / 2 := rfl
      _ = em.mantissa / 2 ^ (k + 1) := by rw [ih, Nat.div_div_eq_div_mul, pow_succ]

theorem mantissa_ofMantissaAndAccuracy (m : ℕ) (a : Accuracy) :
    (ExtendedMantissa.ofMantissaAndAccuracy m a).mantissa = m := by
  cases a with
  | exact => rfl
  | inexact o => cases o <;> rfl

theorem roundedMantissa_bounds (em : ExtendedMantissa) :
    em.mantissa ≤ em.roundedMantissa ∧ em.roundedMantissa ≤ em.mantissa + 1 := by
  obtain ⟨m, r, s⟩ := em
  cases r <;> cases s <;>
    simp only [ExtendedMantissa.roundedMantissa, ExtendedMantissa.accuracy,
      Accuracy.roundToNearestEven] <;> omega

/-! ## Rounding an exact result -/

/-- `q` is the exact result `m · 2 ^ e` with the part of a unit that `a` tells of, and no bit that
is to be kept lies below the unit: `m` has all of them, or the unit is not above the least one. -/
structure Exact (spec : Format) (m : ℕ) (e : ℤ) (a : Accuracy) (q : ℝ) : Prop where
  holds : Holds (.ofMantissaAndAccuracy m a) (q / 2 ^ e)
  full : 2 ^ (spec.mantissaBits - 1) ≤ m ∨ e ≤ spec.minExponent

theorem targetExponent_eq (spec : Format) (m : ℕ) (e : ℤ) :
    spec.targetExponent (totalExponent m e) =
      max (m.log2 + 1 + e - spec.mantissaBits) spec.minExponent := rfl

/-- What remains of the mantissa `m` when `k` bits of it are rounded away. -/
def remaining (m : ℕ) (a : Accuracy) (k : ℕ) : ℕ :=
  (ExtendedMantissa.ofMantissaAndAccuracy m a >>> k).roundedMantissa

/-- The result of an operation is a canonical number nearest to the exact result. -/
structure Rounds (spec : Format) (q : ℝ) (u : UnpackedFloat) : Prop where
  canonical : Canonical spec u
  nearest : Nearest spec q (value u)

/-- A mantissa that has not too many bits stays as it is. -/
theorem shiftToTargetExponent_of_lt {r : ℕ} {t : ℤ} (hr : r < 2 ^ spec.mantissaBits)
    (ht : spec.minExponent ≤ t) :
    shiftToTargetExponent spec r t .exact = (⟨r, false, false⟩, t) := by
  have hp := two_le_mantissaBits spec
  have hlog : r.log2 + 1 ≤ spec.mantissaBits := by
    rcases Nat.eq_zero_or_pos r with rfl | hpos
    · simp
      omega
    · exact (Nat.log2_lt hpos.ne').2 hr
  have hshift : (spec.targetExponent (totalExponent r t) - t).toNat = 0 := by
    rw [targetExponent_eq]
    omega
  simp only [shiftToTargetExponent, shiftToExponent, hshift]
  simp
  rfl

/-- A mantissa that rounding has carried over loses its last bit, which is zero. -/
theorem shiftToTargetExponent_carry {t : ℤ} (ht : spec.minExponent ≤ t) :
    shiftToTargetExponent spec (2 ^ spec.mantissaBits) t .exact =
      (⟨2 ^ (spec.mantissaBits - 1), false, false⟩, t + 1) := by
  have hp := two_le_mantissaBits spec
  obtain ⟨p, hp'⟩ : ∃ p, spec.mantissaBits = p + 1 := ⟨spec.mantissaBits - 1, by omega⟩
  have hshift : (spec.targetExponent (totalExponent (2 ^ spec.mantissaBits) t) - t).toNat = 1 := by
    rw [targetExponent_eq, Nat.log2_two_pow]
    omega
  simp only [shiftToTargetExponent, shiftToExponent, hshift]
  refine Prod.ext ?_ rfl
  show ExtendedMantissa.shiftRightOne ⟨2 ^ spec.mantissaBits, false, false⟩ = _
  simp [ExtendedMantissa.shiftRightOne, hp', pow_succ]

namespace Exact

variable {m : ℕ} {e : ℤ} {a : Accuracy} {q : ℝ}

theorem pos_or (h : Exact spec m e a q) : 0 < m ∨ e ≤ spec.minExponent :=
  h.full.imp_left fun hfull => (Nat.two_pow_pos _).trans_le hfull

theorem unit_le (h : Exact spec m e a q) : e ≤ spec.targetExponent (totalExponent m e) := by
  have hp := two_le_mantissaBits spec
  rw [targetExponent_eq]
  rcases h.full with hfull | hleast
  · have hm : m ≠ 0 := ((Nat.two_pow_pos _).trans_le hfull).ne'
    have := (Nat.le_log2 hm).2 hfull
    omega
  · omega

/-- The bits that are kept, and the unit they are counted in. -/
theorem shift_eq (h : Exact spec m e a q) :
    ∃ k : ℕ, spec.targetExponent (totalExponent m e) = e + k ∧
      shiftToTargetExponent spec m e a =
        (ExtendedMantissa.ofMantissaAndAccuracy m a >>> k, e + k) := by
  obtain ⟨k, hk⟩ := Int.le.dest h.unit_le
  refine ⟨k, hk.symm, ?_⟩
  have hshift : (spec.targetExponent (totalExponent m e) - e).toNat = k := by omega
  simp only [shiftToTargetExponent, shiftToExponent, hshift]

/-- The unit is not above any for which the exact result has no more bits than are kept. -/
theorem unit_le_of_lt (h : Exact spec m e a q) {j : ℤ} (hj : spec.minExponent ≤ j)
    (hq : |q| < 2 ^ (j + spec.mantissaBits)) : spec.targetExponent (totalExponent m e) ≤ j := by
  have hp := two_le_mantissaBits spec
  rw [targetExponent_eq]
  refine max_le ?_ hj
  rcases Nat.eq_zero_or_pos m with rfl | hm
  · have := h.pos_or
    simp
    omega
  · have hlog : (2 : ℝ) ^ (m.log2 + e) ≤ q := by
      have hle := h.holds.mantissa_le
      rw [mantissa_ofMantissaAndAccuracy, le_div_iff₀ (by positivity)] at hle
      refine le_trans ?_ hle
      rw [zpow_add₀ two_ne_zero, zpow_natCast]
      exact mul_le_mul_of_nonneg_right (by exact_mod_cast Nat.log2_self_le hm.ne') (by positivity)
    have := (zpow_lt_zpow_iff_right₀ (one_lt_two : (1 : ℝ) < 2)).1
      (hlog.trans_lt ((le_abs_self q).trans_lt hq))
    omega

theorem nearest (h : Exact spec m e a q) {k : ℕ}
    (hk : spec.targetExponent (totalExponent m e) = e + k) :
    Nearest spec q (remaining m a k * 2 ^ (e + k)) := by
  refine ⟨remaining m a k, e + k, by norm_cast, ?_, ?_,
    fun j hj hq => hk ▸ h.unit_le_of_lt hj hq⟩
  · have hhalf := (h.holds.shiftRight k).abs_roundedMantissa_sub_le
    have hpos : (0 : ℝ) < 2 ^ (e + k) := by positivity
    rw [div_div, ← zpow_natCast, ← zpow_add₀ two_ne_zero] at hhalf
    have hscale : ∀ r : ℝ, r * 2 ^ (e + k) - q = (r - q / 2 ^ (e + k)) * 2 ^ (e + k) := by
      intro r
      field_simp
    rw [hscale, abs_mul, abs_of_pos hpos]
    have := mul_le_mul_of_nonneg_right hhalf hpos.le
    rw [remaining]
    linarith
  · rw [← hk, targetExponent_eq]
    exact le_max_right _ _

/-- As many bits are kept as the format has, or the unit is the least one. -/
theorem remaining_le (h : Exact spec m e a q) {k : ℕ}
    (hk : spec.targetExponent (totalExponent m e) = e + k) :
    remaining m a k ≤ 2 ^ spec.mantissaBits ∧
      (2 ^ (spec.mantissaBits - 1) ≤ remaining m a k ∨ e + k = spec.minExponent) := by
  have hp := two_le_mantissaBits spec
  have hbounds := roundedMantissa_bounds (ExtendedMantissa.ofMantissaAndAccuracy m a >>> k)
  rw [mantissa_shiftRight, mantissa_ofMantissaAndAccuracy, ← remaining] at hbounds
  rw [targetExponent_eq] at hk
  constructor
  · have : m / 2 ^ k < 2 ^ spec.mantissaBits := by
      rw [Nat.div_lt_iff_lt_mul (by positivity), ← pow_add]
      exact Nat.lt_log2_self.trans_le (Nat.pow_le_pow_right two_pos (by omega))
    omega
  · by_cases hleast : e + k = spec.minExponent
    · exact .inr hleast
    · refine .inl (le_trans ?_ hbounds.1)
      have hm : m ≠ 0 := by
        rintro rfl
        have := h.pos_or
        simp at hk
        omega
      rw [Nat.le_div_iff_mul_le (by positivity), ← pow_add]
      refine le_trans (Nat.pow_le_pow_right two_pos ?_) (Nat.log2_self_le hm)
      omega

/-- Rounding an exact result gives a number nearest to it. -/
theorem rounds (h : Exact spec m e a q) (s : Sign) :
    Rounds spec (s.apply 1 * q) (roundWithAccuracy spec s m e a) := by
  have hp := two_le_mantissaBits spec
  obtain ⟨k, hk, hshift⟩ := h.shift_eq
  have hnearest := h.nearest hk
  have hleast : spec.minExponent ≤ e + k := by
    rw [← hk, targetExponent_eq]
    exact le_max_right _ _
  obtain ⟨hle, hfull⟩ := h.remaining_le hk
  rw [roundWithAccuracy, hshift]
  dsimp only
  rw [← remaining]
  generalize remaining m a k = r at *
  rcases hle.lt_or_eq with hlt | rfl
  · rw [shiftToTargetExponent_of_lt hlt hleast]
    dsimp only
    split
    case isTrue hr =>
      rw [hr, Nat.cast_zero, zero_mul] at hnearest
      exact ⟨.zero s, by simpa using hnearest.signed s⟩
    case isFalse hr =>
      exact ⟨.finite s r _ _ hlt hleast hfull, hnearest.signed s⟩
  · rw [shiftToTargetExponent_carry hleast]
    dsimp only
    have hpos : (2 ^ (spec.mantissaBits - 1) : ℕ) ≠ 0 := by positivity
    rw [dif_neg hpos]
    refine ⟨.finite s _ _ _ (Nat.pow_lt_pow_right one_lt_two (by omega)) (by omega) (.inl le_rfl),
      ?_⟩
    have hvalue : ((2 ^ (spec.mantissaBits - 1) : ℕ) : ℝ) * 2 ^ (e + k + 1) =
        (2 ^ spec.mantissaBits : ℕ) * 2 ^ (e + k) := by
      obtain ⟨p, hp'⟩ : ∃ p, spec.mantissaBits = p + 1 := ⟨spec.mantissaBits - 1, by omega⟩
      rw [hp', Nat.add_sub_cancel, zpow_add_one₀ two_ne_zero, pow_succ]
      push_cast
      ring
    rw [value_finite, hvalue]
    exact hnearest.signed s

end Exact

end Easel.Rounding
