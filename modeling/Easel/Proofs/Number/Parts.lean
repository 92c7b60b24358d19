import Easel.Number.Binary
import Easel.Proofs.Number.Packing

/-!
# The parts of floating-point numbers

`Binary.ofBits` takes a bit pattern apart into sign, significand and exponent. For a finite number
these are parts of the real number that the pattern stands for, so rounding them to a whole number
rounds that real number.
-/

namespace Easel

open Float.Model Rounding
open Float.Model.UnpackedFloat

namespace Binary

/-- The real number of finite parts, and zero for the others. -/
noncomputable def value : Binary → ℝ
  | finite s m e => dyadic (signed s m) e
  | _ => 0

theorem signed_false (m : ℕ) : signed false m = m := rfl

theorem signed_true (m : ℕ) : signed true m = -m := rfl

theorem value_finite (s : Bool) (m : ℕ) (e : ℤ) : (finite s m e).value = signed s m * 2 ^ e := rfl

theorem floor_intCast_div (n : ℤ) (d : ℕ) : ⌊(n : ℝ) / d⌋ = n.fdiv d := by
  rw [Int.floor_div_natCast, Int.floor_intCast, Int.fdiv_eq_ediv_of_nonneg _ (Int.natCast_nonneg d)]

theorem value_ofNat (s : Bool) (m e : ℕ) :
    (finite s m (.ofNat e)).value = (signed s (m * 2 ^ e) : ℤ) := by
  rw [value_finite, Int.ofNat_eq_natCast, zpow_natCast]
  cases s <;> push_cast [signed_false, signed_true] <;> ring

theorem value_negSucc (s : Bool) (m e : ℕ) :
    (finite s m (.negSucc e)).value = (signed s m : ℝ) / (2 ^ (e + 1) : ℕ) := by
  rw [value_finite, zpow_negSucc, div_eq_mul_inv]
  push_cast
  rfl

/-- Rounding down is the floor of the real number. -/
theorem floor_eq (b : Binary) : b.floor = ⌊b.value⌋ := by
  match b with
  | finite s m (.ofNat e) => rw [value_ofNat, Int.floor_intCast]; rfl
  | finite s m (.negSucc e) => rw [value_negSucc, floor_intCast_div]; rfl
  | undefined => exact Int.floor_zero.symm
  | infinite s => exact Int.floor_zero.symm

/-- Rounding up is the ceiling of the real number. -/
theorem ceil_eq (b : Binary) : b.ceil = ⌈b.value⌉ := by
  match b with
  | finite s m (.ofNat e) => rw [value_ofNat, Int.ceil_intCast]; rfl
  | finite s m (.negSucc e) =>
    rw [value_negSucc, ← neg_neg ⌈_⌉, ← Int.floor_neg, ← neg_div, ← Int.cast_neg,
      floor_intCast_div]
    rfl
  | undefined => exact Int.ceil_zero.symm
  | infinite s => exact Int.ceil_zero.symm

/-- Rounding a number without a minus sign is the floor after adding a half. -/
theorem round_finite_false (m : ℕ) (e : ℤ) :
    (finite false m e).round = ⌊(finite false m e).value + 1 / 2⌋ := by
  rw [value_finite, signed_false, Int.cast_natCast]
  cases e with
  | ofNat e =>
    have hvalue : (m : ℝ) * 2 ^ Int.ofNat e = ((m * 2 ^ e : ℕ) : ℝ) := by
      push_cast
      rfl
    rw [hvalue, Int.floor_natCast_add]
    norm_num [round, signed]
  | negSucc e =>
    have hvalue : (m : ℝ) * 2 ^ Int.negSucc e + 1 / 2 =
        ((m + 2 ^ e : ℕ) : ℝ) / (2 ^ (e + 1) : ℕ) := by
      rw [zpow_negSucc]
      push_cast
      field_simp
      ring
    rw [hvalue, ← Int.natCast_floor_eq_floor (by positivity), Nat.floor_div_eq_div]
    rfl

/-- Rounding a number that is not negative is the floor after adding a half. -/
theorem round_eq_floor {b : Binary} (h : 0 ≤ b.value) : b.round = ⌊b.value + 1 / 2⌋ := by
  cases b with
  | finite s m e =>
    cases s with
    | false => exact round_finite_false m e
    | true =>
      -- With a minus sign it can only be zero.
      obtain rfl : m = 0 := by
        rw [value_finite, mul_nonneg_iff_of_pos_right (by positivity), Int.cast_nonneg_iff,
          signed_true] at h
        omega
      have hzero : round (finite true 0 e) = 0 := by
        cases e with
        | ofNat e => simp [round, signed]
        | negSucc e =>
          have hhalf : 2 ^ e / 2 ^ (e + 1) = 0 :=
            Nat.div_eq_of_lt (Nat.pow_lt_pow_right one_lt_two (Nat.lt_succ_self e))
          simp [round, signed, hhalf]
      rw [hzero, value_finite, signed_true]
      norm_num
  | _ => norm_num [round, value]

end Binary

namespace Rounding

variable {spec : Format}

theorem toNat_unpackExponent (b : BitVec spec.numBits) : (unpackExponent b).toNat =
    b.toNat >>> spec.mantissaBitsWithoutImplicit % 2 ^ spec.exponentBits := by
  have he := spec.he
  have hlength : spec.mantissaBitsWithoutImplicit + spec.exponentBits - 1 -
      spec.mantissaBitsWithoutImplicit + 1 = spec.exponentBits := by omega
  simp [unpackExponent, hlength]

theorem toNat_unpackMantissa (b : BitVec spec.numBits) :
    (unpackMantissa b).toNat = b.toNat % 2 ^ spec.mantissaBitsWithoutImplicit := by
  have hm := spec.hm
  have hlength : spec.mantissaBitsWithoutImplicit - 1 + 1 = spec.mantissaBitsWithoutImplicit := by
    omega
  simp [unpackMantissa, hlength]

theorem ofBitVec_unpackSign (b : BitVec spec.numBits) : Sign.ofBitVec (unpackSign b) =
    if b.toNat.testBit (spec.exponentBits + spec.mantissaBitsWithoutImplicit) then .negative
    else .positive := by
  have hbit : unpackSign b = 0#1 ↔
      b.toNat.testBit (spec.exponentBits + spec.mantissaBitsWithoutImplicit) = false := by
    rw [← BitVec.toNat_inj, Nat.testBit, unpackSign]
    simp [Nat.add_comm spec.exponentBits]
  rw [Sign.ofBitVec]
  simp only [hbit]
  cases b.toNat.testBit (spec.exponentBits + spec.mantissaBitsWithoutImplicit) <;> rfl

/-- The parts of a finite number are those of its real number. -/
theorem value_ofBits (b : BitVec spec.numBits) (h : (UnpackedFloat.unpack spec b).isFinite = true) :
    (Binary.ofBits spec.exponentBits spec.mantissaBitsWithoutImplicit b.toNat).value =
      value (UnpackedFloat.unpack spec b) := by
  rw [unpack_eq_ofFields, toNat_unpackExponent, toNat_unpackMantissa, ofBitVec_unpackSign] at h ⊢
  have hleast : 2 - ((2 ^ (spec.exponentBits - 1) : ℕ) : ℤ) - spec.mantissaBitsWithoutImplicit =
      spec.minExponent := by
    rw [Format.minExponent, mantissaBits_eq]
    push_cast
    ring
  simp only [Binary.ofBits, Nat.pow_eq, hleast]
  generalize b.toNat.testBit _ = s, b.toNat >>> _ % _ = biased, b.toNat % _ = fraction at h ⊢
  obtain ⟨σ, hσ⟩ : ∃ σ, (if s then Sign.negative else .positive) = σ := ⟨_, rfl⟩
  have hsign (m : ℕ) : ((Binary.signed s m : ℤ) : ℝ) = σ.apply 1 * m := by
    rw [← hσ]
    cases s <;> simp [Binary.signed, Sign.apply]
  rw [hσ] at h ⊢
  unfold ofFields at h ⊢
  split
  case isTrue hones =>
    rw [if_pos hones] at h
    split at h <;> cases h
  case isFalse =>
    split
    case isTrue =>
      rw [Binary.value_finite, hsign, mul_assoc]
      split
      case isTrue hzero =>
        rw [hzero, Nat.cast_zero, zero_mul, mul_zero, value_zero]
      case isFalse => rfl
    case isFalse =>
      rw [Binary.value_finite, hsign, mul_assoc]
      rfl

end Rounding

end Easel
