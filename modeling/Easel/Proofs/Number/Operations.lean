import Easel.Proofs.Number.Rounding

/-!
# The operations on floating-point numbers

Every operation on finite numbers of a format rounds the exact result: its mantissa, its unit and
what lies behind the unit are those of an exact result in the sense of `Exact`, and `Exact.rounds`
does the rest. Sums and whole numbers are exact before they are rounded; quotients and roots are
cut off behind the last bit that counts, with the part that was cut off compared to a half.
-/

namespace Easel.Rounding

open Float.Model
open Float.Model.UnpackedFloat

variable {spec : Format}

/-! ## Numbers of the format -/

/-- A number of the format is nearest to itself. -/
theorem Canonical.rounds {u : UnpackedFloat} (h : Canonical spec u) : Rounds spec (value u) u := by
  refine ⟨h, ?_⟩
  cases h with
  | zero s => exact ⟨0, spec.minExponent, by simp, by simp; positivity, le_rfl, fun j hj _ => hj⟩
  | finite s m e hm bits least full =>
  refine ⟨s.apply m, e, ?_, by simp; positivity, least, fun j hj hq => ?_⟩
  · rw [value_finite, apply_cast s m, mul_assoc, Int.cast_natCast]
  · rcases full with hfull | rfl
    · have hp := two_le_mantissaBits spec
      have hle : (2 : ℝ) ^ ((spec.mantissaBits - 1 : ℕ) + e) ≤ m * 2 ^ e := by
        rw [zpow_add₀ two_ne_zero, zpow_natCast]
        exact mul_le_mul_of_nonneg_right (by exact_mod_cast hfull) (by positivity)
      rw [abs_value_finite] at hq
      have := (zpow_lt_zpow_iff_right₀ (one_lt_two : (1 : ℝ) < 2)).1 (hle.trans_lt hq)
      omega
    · exact hj

theorem rounds_zero (s : Sign) : Rounds spec 0 (.zero s) := (Canonical.zero s).rounds

/-! ## Whole numbers of a unit -/

theorem holds_exact (m : ℕ) : Holds (.ofMantissaAndAccuracy m .exact) m := rfl

theorem holds_lt {m : ℕ} {f : ℝ} (h : m < f) (h' : f < m + 1 / 2) :
    Holds (.ofMantissaAndAccuracy m (.inexact .lt)) f := ⟨h, h'⟩

theorem holds_gt {m : ℕ} {f : ℝ} (h : m + 1 / 2 < f) (h' : f < m + 1) :
    Holds (.ofMantissaAndAccuracy m (.inexact .gt)) f := ⟨h, h'⟩

theorem log2_shiftLeft {m : ℕ} (hm : 0 < m) (k : ℕ) : (m <<< k).log2 = m.log2 + k := by
  have hself := Nat.log2_self_le hm.ne'
  have hlt := Nat.lt_log2_self (n := m)
  rw [Nat.shiftLeft_eq, Nat.log2_eq_iff (by positivity)]
  constructor
  · rw [pow_add]
    exact Nat.mul_le_mul_right _ hself
  · rw [add_right_comm, pow_add]
    exact Nat.mul_lt_mul_of_pos_right hlt (by positivity)

/-- Counting in a smaller unit does not change the number. -/
theorem shiftLeft_mul_two_zpow (m k : ℕ) (e : ℤ) :
    ((m <<< k : ℕ) : ℝ) * 2 ^ (e - k) = m * 2 ^ e := by
  rw [Nat.shiftLeft_eq, zpow_sub₀ two_ne_zero, zpow_natCast]
  push_cast
  field_simp

theorem rounds_round (spec : Format) (s : Sign) {m : ℕ} (hm : 0 < m) (e : ℤ) :
    Rounds spec (s.apply 1 * (m * 2 ^ e)) (UnpackedFloat.round spec s m e) := by
  obtain ⟨k, hk⟩ : ∃ k, (e - spec.targetExponent (totalExponent m e)).toNat = k := ⟨_, rfl⟩
  have hpos : 0 < m <<< k := Nat.shiftLeft_pos_iff.2 hm
  have hexact : Exact spec (m <<< k) (e - k) .exact (m * 2 ^ e) := by
    constructor
    · rw [← shiftLeft_mul_two_zpow m k e, mul_div_assoc, div_self (by positivity), mul_one]
      exact holds_exact _
    · rw [targetExponent_eq] at hk
      rw [← Nat.le_log2 hpos.ne', log2_shiftLeft hm]
      omega
  rw [UnpackedFloat.round, decreaseExponent, hk]
  exact hexact.rounds s

theorem rounds_normalize (spec : Format) (n e : ℤ) (s : Sign) :
    Rounds spec (n * 2 ^ e) (UnpackedFloat.normalize spec n e s) := by
  rw [UnpackedFloat.normalize]
  rcases lt_trichotomy n 0 with hn | rfl | hn
  · rw [Int.compare_eq_lt.2 hn]
    have habs : (((-n).toNat : ℤ) : ℝ) = -n := by
      rw [Int.toNat_of_nonneg (by omega)]
      push_cast
      ring
    have h := rounds_round spec .negative (m := (-n).toNat) (by omega) e
    rw [← Int.cast_natCast, habs] at h
    simpa [Sign.apply] using h
  · simpa using rounds_zero s
  · rw [Int.compare_eq_gt.2 hn]
    have habs : ((n.toNat : ℤ) : ℝ) = n := by rw [Int.toNat_of_nonneg (by omega)]
    have h := rounds_round spec .positive (m := n.toNat) (by omega) e
    rw [← Int.cast_natCast, habs] at h
    simpa [Sign.apply] using h

theorem rounds_ofInt (n : ℤ) : Rounds spec n (UnpackedFloat.ofInt spec n) := by
  simpa [UnpackedFloat.ofInt] using rounds_normalize spec n 0 .positive

/-! ## Sums and differences -/

theorem apply_decreaseExponent (s : Sign) (m : ℕ) {e t : ℤ} (ht : t ≤ e) :
    ((s.apply ((decreaseExponent m e t).1 : ℤ) : ℤ) : ℝ) * 2 ^ t = s.apply 1 * (m * 2 ^ e) := by
  obtain ⟨k, rfl⟩ := Int.le.dest ht
  have hk : (t + k - t).toNat = k := by omega
  rw [apply_cast, decreaseExponent, hk, mul_assoc, Int.cast_natCast,
    ← shiftLeft_mul_two_zpow m k (t + k), add_sub_cancel_right]

variable {u v : UnpackedFloat}

theorem rounds_add (hu : Canonical spec u) (hv : Canonical spec v) :
    Rounds spec (value u + value v) (UnpackedFloat.add spec u v) := by
  cases hu with
  | zero s =>
    rw [value_zero, zero_add]
    cases hv with
    | zero s' =>
      rw [UnpackedFloat.add]
      split <;> exact rounds_zero _
    | finite s' m' e' hm' bits' least' full' =>
      exact (Canonical.finite s' m' e' hm' bits' least' full').rounds
  | finite s m e hm bits least full =>
    cases hv with
    | zero s' =>
      rw [value_zero, add_zero]
      exact (Canonical.finite s m e hm bits least full).rounds
    | finite s' m' e' hm' bits' least' full' =>
      have h := rounds_normalize spec
        (s.apply ((decreaseExponent m e (min e e')).1 : ℤ) +
          s'.apply ((decreaseExponent m' e' (min e e')).1 : ℤ)) (min e e') .positive
      push_cast at h
      rw [add_mul, apply_decreaseExponent s m (min_le_left e e'),
        apply_decreaseExponent s' m' (min_le_right e e')] at h
      exact h

theorem sub_eq_add (spec : Format) (u v : UnpackedFloat) :
    UnpackedFloat.sub spec u v = UnpackedFloat.add spec u v.neg := by
  cases u <;> cases v <;> try rfl
  simp only [UnpackedFloat.sub, UnpackedFloat.add, UnpackedFloat.neg, apply_neg, Int.sub_eq_add_neg]

theorem rounds_sub (hu : Canonical spec u) (hv : Canonical spec v) :
    Rounds spec (value u - value v) (UnpackedFloat.sub spec u v) := by
  rw [sub_eq_add, sub_eq_add_neg, ← value_neg]
  exact rounds_add hu hv.neg

/-! ## Products -/

theorem apply_mul (s s' : Sign) : (s * s').apply 1 = s.apply 1 * s'.apply 1 := by
  cases s <;> cases s' <;> rfl

theorem minExponent_nonpos (spec : Format) : spec.minExponent ≤ 0 := by
  have := two_le_mantissaBits spec
  rw [minExponent_eq]
  omega

theorem rounds_mul (hu : Canonical spec u) (hv : Canonical spec v) :
    Rounds spec (value u * value v) (UnpackedFloat.mul spec u v) := by
  cases hu with
  | zero s =>
    rw [value_zero, zero_mul]
    cases hv <;> exact rounds_zero _
  | finite s m e hm bits least full =>
    cases hv with
    | zero s' =>
      rw [value_zero, mul_zero]
      exact rounds_zero _
    | finite s' m' e' hm' bits' least' full' =>
      have hexact : Exact spec (m * m') (e + e') .exact ((m * m' : ℕ) * 2 ^ (e + e')) := by
        constructor
        · rw [mul_div_assoc, div_self (by positivity), mul_one]
          exact holds_exact _
        · -- The product has all bits to keep as soon as one of its factors has.
          have hnonpos := minExponent_nonpos spec
          rcases full with hfull | rfl
          · exact .inl (hfull.trans (Nat.le_mul_of_pos_right m hm'))
          · rcases full' with hfull' | rfl
            · exact .inl (hfull'.trans (Nat.le_mul_of_pos_left m' hm))
            · exact .inr (by omega)
      have hvalue : value (.finite s m e hm) * value (.finite s' m' e' hm') =
          (s * s').apply 1 * ((m * m' : ℕ) * 2 ^ (e + e')) := by
        rw [value_finite, value_finite, apply_mul, zpow_add₀ two_ne_zero]
        push_cast
        ring
      rw [hvalue]
      exact hexact.rounds _

/-! ## Quotients -/

theorem div_apply (s s' : Sign) : (((s / s').apply 1 : ℤ) : ℝ) = s.apply 1 / s'.apply 1 := by
  have h : s / s' = s * s' := by cases s <;> cases s' <;> rfl
  rw [h, apply_mul]
  cases s' with
  | negative => simp only [Sign.apply]; push_cast; ring
  | positive => simp only [Sign.apply]; push_cast; ring

/-- The whole part of a fraction, and how the rest compares to a half. -/
theorem holds_fraction (m : ℕ) {d : ℕ} (hd : 0 < d) :
    Holds (.ofMantissaAndAccuracy (m / d) (accuracyOfFraction (m % d) d)) (m / d) := by
  have hd' : (0 : ℝ) < d := by exact_mod_cast hd
  have hsplit : (m : ℝ) / d = (m / d : ℕ) + (m % d : ℕ) / d := by
    have : (m : ℝ) = d * (m / d : ℕ) + (m % d : ℕ) := by exact_mod_cast (Nat.div_add_mod m d).symm
    rw [this, add_div, mul_div_cancel_left₀ _ hd'.ne']
  have hlt := Nat.mod_lt m hd
  rw [hsplit, accuracyOfFraction]
  generalize m / d = n, m % d = r at *
  have hlt' : (r : ℝ) / d < 1 := by
    rw [div_lt_one hd']
    exact_mod_cast hlt
  split
  case isTrue hr =>
    rw [hr, Nat.cast_zero, zero_div, add_zero]
    exact holds_exact n
  case isFalse hr =>
    have hpos : 0 < (r : ℝ) / d := by
      have : 0 < r := Nat.pos_of_ne_zero hr
      positivity
    rcases lt_trichotomy (2 * r) d with hhalf | hhalf | hhalf
    · have : (r : ℝ) / d < 1 / 2 := by
        rw [div_lt_div_iff₀ hd' two_pos]
        exact_mod_cast (by omega : r * 2 < 1 * d)
      rw [Nat.compare_eq_lt.2 hhalf]
      exact holds_lt (by linarith) (by linarith)
    · have : (r : ℝ) / d = 1 / 2 := by
        rw [div_eq_div_iff hd'.ne' two_ne_zero]
        exact_mod_cast (by omega : r * 2 = 1 * d)
      rw [Nat.compare_eq_eq.2 hhalf, this]
      rfl
    · have : 1 / 2 < (r : ℝ) / d := by
        rw [div_lt_div_iff₀ two_pos hd']
        exact_mod_cast (by omega : 1 * d < r * 2)
      rw [Nat.compare_eq_gt.2 hhalf]
      exact holds_gt (by linarith) (by linarith)

theorem exact_divCore {m₁ m₂ : ℕ} (h₁ : 0 < m₁) (h₂ : 0 < m₂) (e₁ e₂ : ℤ) :
    Exact spec (divCore spec m₁ e₁ m₂ e₂).1 (divCore spec m₁ e₁ m₂ e₂).2.1
      (divCore spec m₁ e₁ m₂ e₂).2.2 (m₁ * 2 ^ e₁ / (m₂ * 2 ^ e₂)) := by
  simp only [divCore]
  generalize ht :
    min (e₁ - e₂) (spec.targetExponent (totalExponent m₁ e₁ - totalExponent m₂ e₂)) = t
  obtain ⟨k, hk⟩ : ∃ k : ℕ, e₁ - e₂ = t + k := by
    obtain ⟨k, hk⟩ := Int.le.dest (ht ▸ min_le_left (e₁ - e₂) _ : t ≤ e₁ - e₂)
    exact ⟨k, hk.symm⟩
  have hshift : (e₁ - e₂ - t).toNat = k := by omega
  rw [hshift]
  constructor
  · have hfraction : (m₁ : ℝ) * 2 ^ e₁ / (m₂ * 2 ^ e₂) / 2 ^ t = (m₁ <<< k : ℕ) / m₂ := by
      obtain rfl : e₁ = e₂ + t + k := by omega
      have : (0 : ℝ) < m₂ := by exact_mod_cast h₂
      rw [Nat.shiftLeft_eq, zpow_add₀ two_ne_zero, zpow_add₀ two_ne_zero, zpow_natCast]
      push_cast
      field_simp
    rw [hfraction]
    exact holds_fraction _ h₂
  · rw [or_iff_not_imp_right]
    intro hleast
    have htarget : spec.targetExponent (totalExponent m₁ e₁ - totalExponent m₂ e₂) =
        max (m₁.log2 + 1 + e₁ - (m₂.log2 + 1 + e₂) - spec.mantissaBits) spec.minExponent := rfl
    have hp := two_le_mantissaBits spec
    rw [Nat.le_div_iff_mul_le h₂]
    calc
      _ ≤ 2 ^ (spec.mantissaBits - 1) * 2 ^ (m₂.log2 + 1) :=
        Nat.mul_le_mul_left _ Nat.lt_log2_self.le
      _ = 2 ^ (spec.mantissaBits - 1 + (m₂.log2 + 1)) := (pow_add ..).symm
      _ ≤ 2 ^ (m₁.log2 + k) := Nat.pow_le_pow_right two_pos (by omega)
      _ ≤ m₁ <<< k := by
        rw [Nat.shiftLeft_eq, pow_add]
        exact Nat.mul_le_mul_right _ (Nat.log2_self_le h₁.ne')

theorem rounds_div (hu : Canonical spec u) (hv : Canonical spec v) (hne : value v ≠ 0) :
    Rounds spec (value u / value v) (UnpackedFloat.div spec u v) := by
  cases hv with
  | zero s' => exact absurd rfl hne
  | finite s' m' e' hm' =>
    cases hu with
    | zero s =>
      rw [value_zero, zero_div]
      exact rounds_zero _
    | finite s m e hm =>
      rw [value_finite, value_finite, mul_div_mul_comm, ← div_apply]
      exact (exact_divCore hm hm' e e').rounds _

/-! ## Roots -/

/-- The whole part of a root, and how the rest compares to a half, which it never is. -/
theorem holds_sqrt (n : ℕ) :
    Holds (.ofMantissaAndAccuracy n.sqrt (if n - n.sqrt * n.sqrt = 0 then .exact else
      .inexact (if n - n.sqrt * n.sqrt ≤ n.sqrt then .lt else .gt))) (√n) := by
  have hle := Nat.sqrt_le n
  have hlt := Nat.lt_succ_sqrt n
  generalize n.sqrt = r at *
  split
  case isTrue hzero =>
    obtain rfl : n = r * r := by omega
    rw [Nat.cast_mul, Real.sqrt_mul_self (Nat.cast_nonneg r)]
    exact holds_exact r
  case isFalse hrest =>
    have hbelow : (r : ℝ) < √n := by
      refine Real.lt_sqrt_of_sq_lt ?_
      exact_mod_cast (by rw [pow_two]; omega : r ^ 2 < n)
    split
    case isTrue hhalf =>
      refine holds_lt hbelow ((Real.sqrt_lt' (by positivity)).2 ?_)
      have : (n : ℝ) ≤ r * r + r := by exact_mod_cast (by omega : n ≤ r * r + r)
      linarith
    case isFalse hhalf =>
      refine holds_gt ?_ ?_
      · refine Real.lt_sqrt_of_sq_lt ?_
        have : (r : ℝ) * r + r + 1 ≤ n := by exact_mod_cast (by omega : r * r + r + 1 ≤ n)
        linarith
      · refine (Real.sqrt_lt' (by positivity)).2 ?_
        rw [pow_two]
        exact_mod_cast hlt

theorem exact_sqrtCore (spec : Format) {m : ℕ} (hm : 0 < m) (e : ℤ) :
    Exact spec (sqrtCore spec m e).1 (sqrtCore spec m e).2.1 (sqrtCore spec m e).2.2
      √(m * 2 ^ e) := by
  simp only [sqrtCore]
  generalize ht : min (e.ediv 2) (spec.targetExponent ((totalExponent m e + 1).ediv 2)) = t
  have hhalf : e.ediv 2 = e / 2 := rfl
  obtain ⟨k, rfl⟩ : ∃ k : ℕ, e = 2 * t + k := by
    obtain ⟨k, hk⟩ := Int.le.dest (by omega : 2 * t ≤ e)
    exact ⟨k, hk.symm⟩
  have hshift : (2 * t + k - 2 * t).toNat = k := by omega
  rw [hshift]
  constructor
  · have hroot : √(m * 2 ^ (2 * t + k)) / 2 ^ t = √(m <<< k : ℕ) := by
      have hsplit : (m : ℝ) * 2 ^ (2 * t + k) = (m <<< k : ℕ) * (2 ^ t) ^ 2 := by
        rw [Nat.shiftLeft_eq, two_mul, zpow_add₀ two_ne_zero, zpow_add₀ two_ne_zero, zpow_natCast]
        push_cast
        ring
      rw [hsplit, Real.sqrt_mul (Nat.cast_nonneg _), Real.sqrt_sq (by positivity),
        mul_div_cancel_right₀ _ (by positivity)]
    rw [hroot]
    exact holds_sqrt _
  · rw [or_iff_not_imp_right]
    intro hleast
    have htarget : spec.targetExponent ((totalExponent m (2 * t + k) + 1).ediv 2) =
        max ((m.log2 + 1 + (2 * t + k) + 1) / 2 - spec.mantissaBits) spec.minExponent := rfl
    rw [Nat.le_sqrt]
    calc
      _ = 2 ^ (spec.mantissaBits - 1 + (spec.mantissaBits - 1)) := (pow_add ..).symm
      _ ≤ 2 ^ (m.log2 + k) := Nat.pow_le_pow_right two_pos (by omega)
      _ ≤ m <<< k := by
        rw [Nat.shiftLeft_eq, pow_add]
        exact Nat.mul_le_mul_right _ (Nat.log2_self_le hm.ne')

theorem rounds_sqrt (hu : Canonical spec u) (hnonneg : 0 ≤ value u) :
    Rounds spec √(value u) (UnpackedFloat.sqrt spec u) := by
  cases hu with
  | zero s =>
    rw [value_zero, Real.sqrt_zero]
    exact rounds_zero s
  | finite s m e hm =>
    cases s with
    | negative =>
      have : (0 : ℝ) < m * 2 ^ e := by positivity
      rw [value_negative] at hnonneg
      linarith
    | positive =>
      have h := (exact_sqrtCore spec hm e).rounds .positive
      have hone : ((Sign.positive.apply 1 : ℤ) : ℝ) = 1 := Int.cast_one
      rw [hone, one_mul] at h
      rw [value_positive]
      exact h

/-! ## Operands that are not finite -/

theorem isFinite_of_isFinite_add (h : (UnpackedFloat.add spec u v).isFinite = true) :
    u.isFinite = true ∧ v.isFinite = true := by
  cases u <;> cases v <;> first | exact ⟨rfl, rfl⟩ | cases h | skip
  -- Two infinities cancel or add up.
  case infinity.infinity =>
    rw [UnpackedFloat.add] at h
    split at h <;> cases h

theorem isFinite_of_isFinite_mul (h : (UnpackedFloat.mul spec u v).isFinite = true) :
    u.isFinite = true ∧ v.isFinite = true := by
  cases u <;> cases v <;> first | exact ⟨rfl, rfl⟩ | cases h

/-- Nothing finite comes of a division by zero. -/
theorem not_isFinite_div_zero (u : UnpackedFloat) (s : Sign) :
    (UnpackedFloat.div spec u (.zero s)).isFinite = false := by
  cases u <;> rfl

end Easel.Rounding
