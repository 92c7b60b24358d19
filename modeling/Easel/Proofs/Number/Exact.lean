import Mathlib
import Easel.Geometry.Complex

/-!
# Exact numbers

The real numbers as scalars: nothing is rounded, nothing overflows, and every number is finite. The
instances are scoped, so that only modules that open `Easel.Exact` read the geometry this way.

`Complex.value` reads a complex number of the drawing as one of the field `ℂ`.
-/

namespace Easel

namespace Exact

noncomputable scoped instance : Scalar ℝ where
  toAdd := inferInstance
  toSub := inferInstance
  toMul := inferInstance
  toDiv := inferInstance
  toNeg := inferInstance
  toLT := inferInstance
  toLE := inferInstance
  toOfScientific := inferInstance
  toBEq := instBEqOfDecidableEq
  decidableLT := Classical.decRel _
  decidableLE := Classical.decRel _
  ofInt n := n
  abs x := |x|
  larger := max
  smaller := min
  isFinite _ := true
  isUndefined _ := false
  hasMinus x := decide (x < 0)
  floor x := ⌊x⌋
  ceil x := ⌈x⌉
  round x := if 0 ≤ x then round x else -round (-x)

noncomputable scoped instance : Analytic ℝ where
  sqrt x := √x
  hypot x y := √(x * x + y * y)
  sin := Real.sin
  cos := Real.cos
  atan2 y x := (⟨x, y⟩ : ℂ).arg
  pi := Real.pi

variable (x y : ℝ)

/-- A literal of the drawing is the number it says. Not for `simp`, which would find the literals of
the field on the right as well. -/
theorem literal_eq (n : ℕ) : @OfNat.ofNat ℝ n (Scalar.instOfNat n) = n :=
  Int.cast_natCast n

theorem half_eq : @OfScientific.ofScientific ℝ Scalar.toOfScientific 5 true 1 = 1 / 2 := by
  change (0.5 : ℝ) = 1 / 2
  norm_num

/-- The operations of the drawing are those of the field. Needed where `norm_num` is to evaluate
them, which goes by the instance. -/
theorem neg_eq : @Neg.neg ℝ Scalar.toNeg x = -x := rfl

theorem lt_iff : @LT.lt ℝ Scalar.toLT x y ↔ x < y := Iff.rfl

@[simp] theorem abs_eq : Scalar.abs x = |x| := rfl

@[simp] theorem larger_eq : Scalar.larger x y = max x y := rfl

@[simp] theorem smaller_eq : Scalar.smaller x y = min x y := rfl

@[simp] theorem ofInt_eq (n : ℤ) : (Scalar.ofInt n : ℝ) = n := rfl

@[simp] theorem floor_eq : Scalar.floor x = ⌊x⌋ := rfl

@[simp] theorem ceil_eq : Scalar.ceil x = ⌈x⌉ := rfl

@[simp] theorem isFinite_eq : Scalar.isFinite x = true := rfl

@[simp] theorem hasMinus_eq_true : Scalar.hasMinus x = true ↔ x < 0 := decide_eq_true_iff

@[simp] theorem sqrt_eq : Analytic.sqrt x = √x := rfl

@[simp] theorem hypot_eq : Analytic.hypot x y = √(x * x + y * y) := rfl

@[simp] theorem cos_eq : Analytic.cos x = Real.cos x := rfl

@[simp] theorem sin_eq : Analytic.sin x = Real.sin x := rfl

@[simp] theorem atan2_eq : Analytic.atan2 y x = (⟨x, y⟩ : ℂ).arg := rfl

end Exact

open scoped Exact

namespace Complex

/-- The complex number as an element of the field. -/
def value (z : Complex ℝ) : ℂ := ⟨z.re, z.im⟩

variable (z w : Complex ℝ) (r : ℝ)

@[simp] theorem value_add : (z + w).value = z.value + w.value := rfl

@[simp] theorem value_sub : (z - w).value = z.value - w.value := Complex.ext rfl rfl

@[simp] theorem value_mul : (z * w).value = z.value * w.value := Complex.ext rfl rfl

@[simp] theorem value_scale : (z.scale r).value = z.value * r := by
  refine Complex.ext ?_ ?_
  · rw [Complex.re_mul_ofReal]
    rfl
  · rw [Complex.im_mul_ofReal]
    rfl

@[simp] theorem value_shrink : (z.shrink r).value = z.value / r := by
  refine Complex.ext ?_ ?_
  · rw [Complex.div_ofReal_re]
    rfl
  · rw [Complex.div_ofReal_im]
    rfl

/-- In polar form the square root halves the angle. -/
theorem value_sq_of_polar {c : ℂ} {root : ℝ} (h : root ^ 2 = ‖c‖) :
    (⟨root * Real.cos (c.arg / 2), root * Real.sin (c.arg / 2)⟩ : ℂ) ^ 2 = c := by
  have hcos := Complex.norm_mul_cos_arg c
  have hsin := Complex.norm_mul_sin_arg c
  have harg : c.arg = 2 * (c.arg / 2) := by ring
  rw [← h, harg, Real.cos_two_mul'] at hcos
  rw [← h, harg, Real.sin_two_mul] at hsin
  rw [pow_two]
  refine Complex.ext ?_ ?_
  · rw [Complex.mul_re, ← hcos]
    ring
  · rw [Complex.mul_im, ← hsin]
    ring

theorem value_sq_eq_iff :
    z.value ^ 2 = w.value ↔
      z.re * z.re - z.im * z.im = w.re ∧ z.re * z.im + z.im * z.re = w.im := by
  rw [pow_two, Complex.ext_iff, Complex.mul_re, Complex.mul_im]
  rfl

theorem value_sqrt_sq : z.sqrt.value ^ 2 = z.value := by
  simp only [sqrt, Exact.literal_eq]
  push_cast
  simp only [beq_iff_eq, Exact.hasMinus_eq_true, Exact.sqrt_eq, Exact.abs_eq, Exact.hypot_eq,
    Exact.atan2_eq, Exact.cos_eq, Exact.sin_eq]
  split
  case isTrue him =>
    rw [if_neg (not_lt.2 him.ge), value_sq_eq_iff]
    split
    case isTrue hre =>
      have hroot := Real.mul_self_sqrt (neg_nonneg.2 hre.le)
      exact ⟨by linarith, by rw [him]; ring⟩
    case isFalse hre =>
      have hroot := Real.mul_self_sqrt (not_lt.1 hre)
      rw [him]
      exact ⟨by linarith, by ring⟩
  case isFalse him =>
    split
    case isTrue hre =>
      have hroot := Real.mul_self_sqrt (half_pos (abs_pos.2 him)).le
      rw [value_sq_eq_iff]
      split
      case isTrue hneg =>
        rw [abs_of_neg hneg] at hroot ⊢
        exact ⟨by rw [hre]; ring, by linarith⟩
      case isFalse hneg =>
        rw [abs_of_nonneg (not_lt.1 hneg)] at hroot ⊢
        exact ⟨by rw [hre]; ring, by linarith⟩
    case isFalse hre =>
      refine value_sq_of_polar ?_
      rw [Real.sq_sqrt (Real.sqrt_nonneg _), Complex.norm_def, Complex.normSq_mk]

/-- The square root that drawings take, on the field. -/
noncomputable def root (c : ℂ) : ℂ := (⟨c.re, c.im⟩ : Complex ℝ).sqrt.value

@[simp] theorem value_sqrt : z.sqrt.value = root z.value := rfl

/-- The square root squares to the number it is taken of. -/
theorem root_sq (c : ℂ) : root c ^ 2 = c := value_sqrt_sq ⟨c.re, c.im⟩

end Complex

end Easel
