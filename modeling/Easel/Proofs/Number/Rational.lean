import Mathlib
import Easel.Number.Scalar

/-!
# Rational numbers

The rational numbers as scalars. As with the real numbers nothing is rounded and every number is
finite, and moreover everything can be computed. The instance is scoped, so that only modules that
open `Easel.Rational` compute in fractions.
-/

namespace Easel.Rational

scoped instance : Scalar ℚ where
  toAdd := inferInstance
  toSub := inferInstance
  toMul := inferInstance
  toDiv := inferInstance
  toNeg := inferInstance
  toLT := inferInstance
  toLE := inferInstance
  toOfScientific := inferInstance
  toBEq := instBEqOfDecidableEq
  decidableLT := fun x y => inferInstanceAs (Decidable (x < y))
  decidableLE := fun x y => inferInstanceAs (Decidable (x ≤ y))
  ofInt n := n
  abs x := |x|
  larger := max
  smaller := min
  isFinite _ := true
  isUndefined _ := false
  hasMinus x := decide (x < 0)
  floor x := ⌊x⌋
  ceil x := ⌈x⌉
  round x := if 0 ≤ x then round x else -round (-x)

variable {x y : ℚ}

/-- A literal of a definition over scalars is the number it says. Not for `simp`, which would find
the literals of the field on the right as well. -/
theorem ofNat_eq (n : ℕ) :
    @OfNat.ofNat ℚ n (Scalar.instOfNat n) = @OfNat.ofNat ℚ n Rat.instOfNat :=
  Int.cast_natCast n

theorem half_eq : @OfScientific.ofScientific ℚ Scalar.toOfScientific 5 true 1 = 1 / 2 := by
  change (0.5 : ℚ) = 1 / 2
  norm_num

@[simp] theorem abs_eq (x : ℚ) : Scalar.abs x = |x| := rfl

@[simp] theorem ofInt_eq (n : ℤ) : (Scalar.ofInt n : ℚ) = n := rfl

@[simp] theorem floor_eq (x : ℚ) : Scalar.floor x = ⌊x⌋ := rfl

theorem clamp_zero_one (x : ℚ) :
    Scalar.clamp (@OfNat.ofNat ℚ 0 (Scalar.instOfNat 0)) (@OfNat.ofNat ℚ 1 (Scalar.instOfNat 1)) x =
      max 0 (min 1 x) := by
  rw [ofNat_eq, ofNat_eq, Scalar.clamp]
  split
  case isTrue h =>
    exact (max_eq_left ((min_le_right 1 x).trans (le_of_lt h))).symm
  case isFalse h =>
    have h0 : 0 ≤ x := not_lt.1 h
    split
    case isTrue h1 => rw [min_eq_left (le_of_lt h1), max_eq_right zero_le_one]
    case isFalse h1 => rw [min_eq_right (not_lt.1 h1), max_eq_right h0]

theorem round_of_nonneg (h : 0 ≤ x) : Scalar.round x = ⌊x + 1 / 2⌋ := by
  change (if 0 ≤ x then round x else -round (-x)) = _
  rw [if_pos h, round_eq]

theorem round_whole (n : ℕ) : Scalar.round (n : ℚ) = n := by
  change (if 0 ≤ (n : ℚ) then round (n : ℚ) else -round (-(n : ℚ))) = _
  rw [if_pos n.cast_nonneg, round_natCast]

theorem round_nonneg (h : 0 ≤ x) : 0 ≤ Scalar.round x := by
  rw [round_of_nonneg h]
  exact Int.floor_nonneg.2 (by positivity)

theorem round_mono (h : 0 ≤ x) (hxy : x ≤ y) : Scalar.round x ≤ Scalar.round y := by
  rw [round_of_nonneg h, round_of_nonneg (h.trans hxy)]
  exact Int.floor_le_floor (add_le_add_left hxy _)

end Easel.Rational
