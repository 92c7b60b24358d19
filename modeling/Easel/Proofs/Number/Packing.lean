import Easel.Proofs.Number.Rounding

/-!
# Packing floating-point numbers into bits

Numbers are kept as bits and taken apart before every operation. Finite numbers below the overflow
threshold come back as they were packed, so an operation on bits is the operation on real numbers
followed by rounding; what was packed without being finite does not become so.

`ofFields` reads the three fields of a packed number. All facts about bits go through it.
-/

namespace Easel.Rounding

open Float.Model
open Float.Model.UnpackedFloat

variable {spec : Format}

/-! ## Fields -/

/-- The number of the three fields sign, biased exponent and fraction. -/
def ofFields (spec : Format) (s : Sign) (biased fraction : ℕ) : UnpackedFloat :=
  if biased = 2 ^ spec.exponentBits - 1 then
    if fraction = 0 then .infinity s else .notANumber
  else if biased = 0 then
    if h : fraction = 0 then .zero s
    else .finite s fraction spec.minExponent (Nat.pos_of_ne_zero h)
  else
    .finite s (2 ^ spec.mantissaBitsWithoutImplicit + fraction) (spec.minExponent + (biased - 1))
      (by positivity)

theorem mantissaBits_eq (spec : Format) :
    spec.mantissaBits = spec.mantissaBitsWithoutImplicit + 1 := Nat.add_comm _ _

theorem toNat_implicit_append (m : BitVec spec.mantissaBitsWithoutImplicit) :
    (1#1 ++ m).toNat = 2 ^ spec.mantissaBitsWithoutImplicit + m.toNat := by
  rw [BitVec.toNat_append, ← Nat.shiftLeft_add_eq_or_of_lt m.isLt, Nat.shiftLeft_eq]
  simp

theorem eq_neg_one_iff {n : ℕ} (b : BitVec n) : b = -1#n ↔ b.toNat = 2 ^ n - 1 := by
  rw [BitVec.neg_one_eq_allOnes, ← BitVec.toNat_inj, BitVec.toNat_allOnes]

theorem eq_zero_iff {n : ℕ} (b : BitVec n) : b = 0#n ↔ b.toNat = 0 := by
  rw [← BitVec.toNat_inj, BitVec.toNat_ofNat, Nat.zero_mod]

theorem unpack_eq_ofFields (b : BitVec spec.numBits) :
    UnpackedFloat.unpack spec b = ofFields spec (.ofBitVec (unpackSign b))
      (unpackExponent b).toNat (unpackMantissa b).toNat := by
  have hleast := minExponent_eq spec
  have hbits := mantissaBits_eq spec
  simp only [UnpackedFloat.unpack, ofFields, eq_neg_one_iff, eq_zero_iff, toNat_implicit_append]
  split
  case isTrue => rfl
  case isFalse =>
    split
    case isTrue hzero =>
      split
      case isTrue => rfl
      case isFalse =>
        congr 1
        omega
    case isFalse =>
      congr 1
      omega

theorem ofBitVec_toBitVec (s : Sign) : Sign.ofBitVec s.toBitVec = s := by
  cases s <;> rfl

theorem unpackSign_packComponents (s : Sign) (e : BitVec spec.exponentBits)
    (m : BitVec spec.mantissaBitsWithoutImplicit) :
    unpackSign (packComponents spec s e m) = s.toBitVec := by
  ext i hi
  obtain rfl : i = 0 := by omega
  simp [unpackSign, packComponents, BitVec.getElem_append, BitVec.getLsbD_append]

theorem unpack_packComponents (s : Sign) (e : BitVec spec.exponentBits)
    (m : BitVec spec.mantissaBitsWithoutImplicit) :
    UnpackedFloat.unpack spec (packComponents spec s e m) = ofFields spec s e.toNat m.toNat := by
  rw [unpack_eq_ofFields, unpackExponent_packComponents, unpackMantissa_packComponents,
    unpackSign_packComponents, ofBitVec_toBitVec]

/-- The finite numbers among those that bits stand for are canonical. -/
theorem canonical_unpack (b : BitVec spec.numBits)
    (h : (UnpackedFloat.unpack spec b).isFinite = true) :
    Canonical spec (UnpackedFloat.unpack spec b) := by
  have hfraction := (unpackMantissa b).isLt
  rw [unpack_eq_ofFields] at h ⊢
  generalize (unpackMantissa b).toNat = fraction at *
  have hbits : 2 ^ spec.mantissaBits = 2 * 2 ^ spec.mantissaBitsWithoutImplicit := by
    rw [mantissaBits_eq, pow_succ, mul_comm]
  have hbits' : spec.mantissaBits - 1 = spec.mantissaBitsWithoutImplicit := by
    rw [mantissaBits_eq, Nat.add_sub_cancel]
  unfold ofFields at h ⊢
  split
  case isTrue hones =>
    rw [if_pos hones] at h
    split at h <;> cases h
  case isFalse =>
    split
    case isTrue =>
      split
      case isTrue => exact .zero _
      case isFalse => exact .finite _ _ _ _ (by omega) le_rfl (.inr rfl)
    case isFalse =>
      exact .finite _ _ _ _ (by omega) (by omega) (.inl (by rw [hbits']; omega))

/-! ## Coming back from bits -/

/-- A format with room for numbers below and above one. -/
theorem four_le_two_pow_exponentBits (h : 0 < spec.exponentBias) : 4 ≤ 2 ^ spec.exponentBits := by
  rw [two_pow_exponentBits]
  omega

/-- A finite number whose exponent is not too large comes back from its bits. -/
theorem unpack_pack_finite (hbias : 0 < spec.exponentBias) {s : Sign} {m : ℕ} {e : ℤ} {hm : 0 < m}
    (h : Canonical spec (.finite s m e hm)) (he : e + spec.mantissaBits ≤ spec.exponentBias + 1) :
    UnpackedFloat.unpack spec (UnpackedFloat.pack spec (.finite s m e hm)) = .finite s m e hm := by
  cases h with
  | finite s m e hm bits least full =>
  have hleast := minExponent_eq spec
  have hbits := mantissaBits_eq spec
  have hcapacity := two_pow_exponentBits spec
  obtain ⟨b, hb⟩ : ∃ b : ℕ, e + spec.exponentBias + spec.mantissaBitsWithoutImplicit = b :=
    ⟨_, (Int.toNat_of_nonneg (by omega)).symm⟩
  have hfits : ¬ 2 ^ spec.exponentBits ≤ b + 1 := by omega
  simp only [UnpackedFloat.pack, hb, Int.toNat_natCast, if_neg hfits]
  have hpow : 2 ^ spec.mantissaBits = 2 * 2 ^ spec.mantissaBitsWithoutImplicit := by
    rw [hbits, pow_succ, mul_comm]
  have hpow' : 2 ^ (spec.mantissaBits - 1) = 2 ^ spec.mantissaBitsWithoutImplicit := by
    rw [hbits, Nat.add_sub_cancel]
  have hlog : m.log2 + 1 = spec.mantissaBits ↔ 2 ^ spec.mantissaBitsWithoutImplicit ≤ m := by
    rw [← Nat.le_log2 hm.ne']
    have := (Nat.log2_lt hm.ne').2 bits
    omega
  split
  case isTrue hfull =>
    have hle := hlog.1 hfull
    have hmod : m % 2 ^ spec.mantissaBitsWithoutImplicit =
        m - 2 ^ spec.mantissaBitsWithoutImplicit := by
      rw [Nat.mod_eq_sub_mod hle, Nat.mod_eq_of_lt (by omega)]
    rw [unpack_packComponents, BitVec.toNat_ofNat, BitVec.toNat_ofNat, hmod,
      Nat.mod_eq_of_lt (by omega), ofFields, if_neg (by omega), if_neg (by omega)]
    congr 1 <;> omega
  case isFalse hsmall =>
    have hlt : m < 2 ^ spec.mantissaBitsWithoutImplicit := not_le.1 (mt hlog.2 hsmall)
    have he : e = spec.minExponent := full.resolve_left (by omega)
    rw [unpack_packComponents, BitVec.toNat_ofNat, BitVec.toNat_ofNat, Nat.mod_eq_of_lt hlt,
      Nat.zero_mod, ofFields, if_neg (by omega), if_pos rfl, dif_neg hm.ne']
    simp only [he]

/-- Numbers below the overflow threshold come back from their bits. -/
theorem Canonical.unpack_pack (hbias : 0 < spec.exponentBias) {u : UnpackedFloat}
    (h : Canonical spec u) (hu : |value u| < 2 ^ (spec.exponentBias + 1 : ℤ)) :
    UnpackedFloat.unpack spec (UnpackedFloat.pack spec u) = u := by
  have hcapacity := four_le_two_pow_exponentBits hbias
  cases h with
  | zero s =>
    rw [UnpackedFloat.pack, packedZero, unpack_packComponents, ofFields, if_neg, if_pos, dif_pos]
    · rfl
    · rfl
    · rw [show (0 : BitVec spec.exponentBits).toNat = 0 from Nat.zero_mod _]
      omega
  | finite s m e hm bits least full =>
  refine unpack_pack_finite hbias (.finite s m e hm bits least full) ?_
  rcases full with hfull | hleast
  · rw [abs_value_finite] at hu
    have hle : (2 : ℝ) ^ (spec.mantissaBits - 1 + e : ℤ) ≤ m * 2 ^ e := by
      have hp := two_le_mantissaBits spec
      have hcast : (spec.mantissaBits : ℤ) - 1 = (spec.mantissaBits - 1 : ℕ) := by omega
      rw [zpow_add₀ two_ne_zero, hcast, zpow_natCast]
      exact mul_le_mul_of_nonneg_right (by exact_mod_cast hfull) (by positivity)
    have := (zpow_lt_zpow_iff_right₀ (one_lt_two : (1 : ℝ) < 2)).1 (hle.trans_lt hu)
    omega
  · have := minExponent_eq spec
    omega

/-- What is packed without being finite does not become so. -/
theorem isFinite_of_isFinite_unpack_pack {u : UnpackedFloat}
    (h : (UnpackedFloat.unpack spec (UnpackedFloat.pack spec u)).isFinite = true) :
    u.isFinite = true := by
  have hones (s : Sign) (m : BitVec spec.mantissaBitsWithoutImplicit) :
      (UnpackedFloat.unpack spec (packComponents spec s (-1#_) m)).isFinite = false := by
    rw [unpack_packComponents, ofFields, if_pos ((eq_neg_one_iff _).1 rfl)]
    split <;> rfl
  cases u with
  | infinity s => exact absurd h (Bool.eq_false_iff.1 (hones s _))
  | notANumber => exact absurd h (Bool.eq_false_iff.1 (hones _ _))
  | zero s => rfl
  | finite s m e hm => rfl

/-- A rounded result comes back from its bits unless it overflows. -/
theorem Rounds.unpack_pack (hbias : 0 < spec.exponentBias) {q : ℝ} {u : UnpackedFloat}
    (h : Rounds spec q u) (hq : |q| ≤ 2 ^ (spec.exponentBias : ℤ)) :
    UnpackedFloat.unpack spec (UnpackedFloat.pack spec u) = u := by
  refine h.canonical.unpack_pack hbias ?_
  refine (h.nearest.abs_le_two_zpow hq (minExponent_le_exponentBias spec)).trans_lt ?_
  exact zpow_lt_zpow_right₀ one_lt_two (by omega)

end Easel.Rounding
