import Easel.Number.Binary
import Easel.Proofs.Number.Packing

/-!
# Signs of floating-point numbers

What becomes of a minus sign. Bits keep it, and a quotient of two numbers without one has none
either, be it rounded down to zero or beyond the largest number. So a number without a minus sign
is its own magnitude, and so is its inverse.
-/

namespace Easel

namespace Rounding

open Float.Model
open Float.Model.UnpackedFloat

variable {spec : Format} {u v : UnpackedFloat}

/-- There is no minus sign for the magnitude to drop. -/
def Unsigned (u : UnpackedFloat) : Prop := u.abs = u

theorem unsigned_abs (u : UnpackedFloat) : Unsigned u.abs := by
  cases u <;> rfl

theorem unsigned_ofFields (spec : Format) (biased fraction : ℕ) :
    Unsigned (ofFields spec .positive biased fraction) := by
  unfold ofFields
  split
  case isTrue => split <;> rfl
  case isFalse =>
    split
    case isTrue => split <;> rfl
    case isFalse => rfl

theorem unsigned_unpack_packComponents (e : BitVec spec.exponentBits)
    (m : BitVec spec.mantissaBitsWithoutImplicit) :
    Unsigned (UnpackedFloat.unpack spec (packComponents spec .positive e m)) := by
  rw [unpack_packComponents]
  exact unsigned_ofFields spec e.toNat m.toNat

namespace Unsigned

/-- Bits have no minus sign that was not there before, not even after an overflow. -/
theorem unpack_pack (h : Unsigned u) :
    Unsigned (UnpackedFloat.unpack spec (UnpackedFloat.pack spec u)) := by
  cases u with
  | notANumber => exact unsigned_unpack_packComponents _ _
  | infinity s =>
    cases h
    exact unsigned_unpack_packComponents _ _
  | zero s =>
    cases h
    exact unsigned_unpack_packComponents _ _
  | finite s m e hm =>
    cases h
    simp only [UnpackedFloat.pack]
    split
    case isTrue => exact unsigned_unpack_packComponents _ _
    case isFalse => split <;> exact unsigned_unpack_packComponents _ _

theorem roundWithAccuracy (m : ℕ) (e : ℤ) (a : Accuracy) :
    Unsigned (UnpackedFloat.roundWithAccuracy spec .positive m e a) := by
  unfold UnpackedFloat.roundWithAccuracy
  dsimp only
  split <;> rfl

theorem div (hu : Unsigned u) (hv : Unsigned v) : Unsigned (UnpackedFloat.div spec u v) := by
  cases u <;> cases v <;> cases hu <;> cases hv
  case finite.finite => exact roundWithAccuracy _ _ _
  all_goals rfl

theorem not_lt_zero (h : Unsigned u) (s : Sign) : u.lt (.zero s) = false := by
  cases u <;> cases h <;> rfl

end Unsigned

/-- What is not below zero has no minus sign, a zero apart. -/
theorem unsigned_of_not_lt {s : Sign} (h : u.lt (.zero s) = false) :
    Unsigned u ∨ u = .zero .negative := by
  cases u with
  | notANumber => exact .inl rfl
  | zero s' =>
    cases s' with
    | positive => exact .inl rfl
    | negative => exact .inr rfl
  | infinity s' =>
    cases s' with
    | positive => exact .inl rfl
    | negative => cases h
  | finite s' m e hm =>
    cases s' with
    | positive => exact .inl rfl
    | negative => cases h

theorem beq_self (h : u.isNaN = false) : u.beq u = true := by
  cases u with
  | notANumber => cases h
  | infinity s => cases s <;> rfl
  | zero s => rfl
  | finite s m e hm =>
    have hcompare : (compare e e).then (compare m m) = .eq := by
      rw [Int.compare_eq_eq.2 rfl, Nat.compare_eq_eq.2 rfl]
      rfl
    cases s <;> simp only [UnpackedFloat.beq, UnpackedFloat.compare, hcompare] <;> rfl

/-- The exponents of a format end where its numbers overflow. -/
theorem exponent_unpack_le (hbias : 0 < spec.exponentBias) {b : BitVec spec.numBits} {s : Sign}
    {m : ℕ} {e : ℤ} {hm : 0 < m} (h : UnpackedFloat.unpack spec b = .finite s m e hm) :
    e + spec.mantissaBits ≤ spec.exponentBias + 1 := by
  have hleast := minExponent_eq spec
  have hbits := mantissaBits_eq spec
  have hcapacity := two_pow_exponentBits spec
  have hbiased := (unpackExponent b).isLt
  rw [unpack_eq_ofFields, ofFields] at h
  split at h
  case isTrue => split at h <;> cases h
  case isFalse hmost =>
    split at h
    case isTrue hzero =>
      split at h
      case isTrue => cases h
      case isFalse =>
        injection h
        omega
    case isFalse hzero =>
      injection h
      omega

/-- What was read from bits comes back from bits. -/
theorem unpack_pack_unpack (hbias : 0 < spec.exponentBias) {b : BitVec spec.numBits}
    (h : (UnpackedFloat.unpack spec b).isNaN = false) :
    UnpackedFloat.unpack spec (UnpackedFloat.pack spec (UnpackedFloat.unpack spec b)) =
      UnpackedFloat.unpack spec b := by
  have hcanonical := canonical_unpack b
  cases hu : UnpackedFloat.unpack spec b with
  | notANumber =>
    rw [hu] at h
    cases h
  | infinity s =>
    rw [UnpackedFloat.pack, packedInfinity, unpack_packComponents, ofFields,
      if_pos ((eq_neg_one_iff _).1 rfl), if_pos (show BitVec.toNat 0 = 0 from Nat.zero_mod _)]
  | zero s =>
    refine (Canonical.zero s).unpack_pack hbias ?_
    rw [value_zero, abs_zero]
    positivity
  | finite s m e hm =>
    rw [hu] at hcanonical
    exact unpack_pack_finite hbias (hcanonical rfl) (exponent_unpack_le hbias hu)

end Rounding

namespace Binary64

open Float.Model Rounding

variable {x y : Float}

/-- There is no minus sign. -/
def Unsigned (x : Float) : Prop := Rounding.Unsigned x.toModel.unpack

theorem unsigned_abs (x : Float) : Unsigned x.abs := (Rounding.unsigned_abs _).unpack_pack

theorem Unsigned.div (hx : Unsigned x) (hy : Unsigned y) : Unsigned (x / y) :=
  (Rounding.Unsigned.div hx hy).unpack_pack

theorem Unsigned.not_neg (h : Unsigned x) : ¬x < 0 := by
  have hlt := Rounding.Unsigned.not_lt_zero h .positive
  exact fun hneg => Bool.eq_false_iff.1 hlt (decide_eq_true_iff.1 hneg)

theorem beq_self (h : x.isNaN = false) : (x == x) = true := Rounding.beq_self h

/-- A number without a minus sign is its own magnitude. -/
theorem Unsigned.abs_beq (hx : Unsigned x) (h : x.isNaN = false) : (x.abs == x) = true := by
  have hunpack : x.abs.toModel.unpack = x.toModel.unpack := by
    change UnpackedFloat.unpack .binary64 (UnpackedFloat.pack .binary64 x.toModel.unpack.abs) = _
    rw [hx]
    exact unpack_pack_unpack (by decide) h
  change x.abs.toModel.unpack.beq x.toModel.unpack = true
  rw [hunpack]
  exact Rounding.beq_self h

/-- The inverse of a number that is not negative has that number for the magnitude of its inverse,
or is its own magnitude. The first is for the zero with a minus sign. -/
theorem inverse_magnitude (hx : ¬x < 0) (h : (1 / x).isNaN = false) :
    (x == (1 / (1 / x)).abs) = true ∨ ((1 / x).abs == 1 / x) = true := by
  have hlt : x.toModel.unpack.lt (.zero .positive) = false :=
    Bool.eq_false_iff.2 fun hlt => hx (decide_eq_true_iff.2 hlt)
  rcases unsigned_of_not_lt hlt with hunsigned | hzero
  · have hone : Unsigned 1 := rfl
    exact .inr ((hone.div hunsigned).abs_beq h)
  · have hinverse : 1 / x = .ofModel (.pack (.div .binary64 (1 : Float).toModel.unpack
        (.zero .negative))) := by
      rw [← hzero]
      rfl
    left
    change x.toModel.unpack.beq (1 / (1 / x)).abs.toModel.unpack = true
    rw [hzero, hinverse]
    decide

end Binary64

end Easel
