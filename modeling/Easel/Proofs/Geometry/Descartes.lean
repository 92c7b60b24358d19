import Mathlib
import Easel.Geometry.Circle

/-!
# Circles that touch each other

The theorem of Descartes on four circles that touch each other, for curvatures and, over the complex
numbers, for centres. The circles are seen from the centre of one of them: `Circle.arm` is where the
centre of another one lies, weighted by its curvature, and `Circle.reach` how long this arm is. The
inner products of the arms depend on the reaches alone, and that three arms lie in a plane is the
theorem.
-/

namespace Easel

open ComplexConjugate

namespace Planar

/-- The inner product of two vectors of the plane. -/
def dot (u v : ℂ) : ℝ := u.re * v.re + u.im * v.im

/-- The area that two vectors of the plane span, with a sign. -/
def cross (u v : ℂ) : ℝ := u.re * v.im - u.im * v.re

theorem dot_self (u : ℂ) : dot u u = ‖u‖ ^ 2 := by
  rw [Complex.sq_norm, Complex.normSq_apply, dot]

theorem dot_mul_ofReal (u v : ℂ) (r s : ℝ) : dot (u * r) (v * s) = dot u v * (r * s) := by
  simp only [dot, Complex.re_mul_ofReal, Complex.im_mul_ofReal]
  ring

theorem dot_sub_self (u v : ℂ) : dot (u - v) (u - v) = dot u u + dot v v - 2 * dot u v := by
  simp only [dot, Complex.sub_re, Complex.sub_im]
  ring

theorem dot_reflection (u v w : ℂ) :
    dot (2 * (v + w) - u) (2 * (v + w) - u) =
      4 * (dot v v + dot w w + 2 * dot v w) + dot u u - 4 * (dot u v + dot u w) := by
  simp [dot]
  ring

/-- Three vectors whose lengths are `a`, `b` and `c`, as the arms of circles that touch each other
have them. -/
structure Arms (u v w : ℂ) (a b c : ℝ) : Prop where
  first : dot u u = a ^ 2
  second : dot v v = b ^ 2
  third : dot w w = c ^ 2
  first_second : dot u v = a * b - 2
  first_third : dot u w = a * c - 2
  second_third : dot v w = b * c - 2

theorem conj_mul (u v : ℂ) : conj u * v = ⟨dot v u, cross u v⟩ := by
  refine Complex.ext ?_ ?_
  · rw [Complex.mul_re, Complex.conj_re, Complex.conj_im]
    simp only [dot]
    ring
  · rw [Complex.mul_im, Complex.conj_re, Complex.conj_im]
    simp only [cross]
    ring

variable {u v w : ℂ} {a b c : ℝ}

/-- Three vectors of a plane have no volume. -/
theorem gram_eq_zero (u v w : ℂ) :
    dot u u * dot v v * dot w w + 2 * dot u v * dot u w * dot v w =
      dot u u * dot v w ^ 2 + dot v v * dot u w ^ 2 + dot w w * dot u v ^ 2 := by
  simp only [dot]
  ring

theorem cross_mul_cross (u v w : ℂ) :
    cross v u * cross w u = dot v w * dot u u - dot u v * dot u w := by
  simp only [dot, cross]
  ring

namespace Arms

theorem descartes (h : Arms u v w a b c) : (a - b - c) ^ 2 = 4 * (b * c - 1) := by
  have hgram := gram_eq_zero u v w
  rw [h.first, h.second, h.third, h.first_second, h.first_third, h.second_third] at hgram
  linarith

/-- The lengths and angles of `u - v - w`, which the complex theorem squares. -/
theorem dot_difference (h : Arms u v w a b c) :
    dot (u - v - w) (u - v - w) = 4 * (b * c) ∧ dot (u - v - w) v = b * (a - b - c) ∧
      dot (u - v - w) w = c * (a - b - c) := by
  obtain ⟨huu, hvv, hww, huv, huw, hvw⟩ := id h
  have hd := h.descartes
  simp only [dot, Complex.sub_re, Complex.sub_im] at *
  refine ⟨?_, ?_, ?_⟩
  · linear_combination huu + hvv + hww - 2 * huv - 2 * huw + 2 * hvw + hd
  · linear_combination huv - hvv - hvw
  · linear_combination huw - hww - hvw

theorem cross_difference (h : Arms u v w a b c) :
    cross v (u - v - w) * cross w (u - v - w) = -(4 * (b * c)) ∧
      b * cross w (u - v - w) + c * cross v (u - v - w) = 0 := by
  obtain ⟨hpp, hpv, hpw⟩ := h.dot_difference
  have hd := h.descartes
  have hvw := cross_mul_cross (u - v - w) v w
  have hvv := cross_mul_cross (u - v - w) v v
  have hww := cross_mul_cross (u - v - w) w w
  rw [hpp, hpv, hpw, h.second_third] at hvw
  rw [hpp, hpv, h.second] at hvv
  rw [hpp, hpw, h.third] at hww
  refine ⟨by linear_combination hvw - b * c * hd, ?_⟩
  -- the square of the sum vanishes
  rw [← sq_eq_zero_iff]
  linear_combination b ^ 2 * hww + c ^ 2 * hvv + 2 * (b * c) * hvw - 4 * (b * c) ^ 2 * hd

theorem ne_zero_of_dot_self {v : ℂ} {b : ℝ} (h : dot v v = b ^ 2) (hb : b ≠ 0) : v ≠ 0 := by
  rintro rfl
  rw [dot, Complex.zero_re, Complex.zero_im] at h
  exact pow_ne_zero 2 hb (by linarith)

/-- The theorem over the complex numbers. -/
theorem complex_descartes (h : Arms u v w a b c) (hb : b ≠ 0) (hc : c ≠ 0) :
    (u - v - w) ^ 2 = 4 * (v * w) := by
  obtain ⟨-, hpv, hpw⟩ := h.dot_difference
  obtain ⟨hcross, hsum⟩ := h.cross_difference
  have hd := h.descartes
  have hv := ne_zero_of_dot_self h.second hb
  have hw := ne_zero_of_dot_self h.third hc
  -- both sides are multiplied by the conjugates of `v` and `w`
  refine mul_left_cancel₀ (mul_ne_zero ((map_ne_zero conj).2 hv) ((map_ne_zero conj).2 hw)) ?_
  calc conj v * conj w * (u - v - w) ^ 2
      = conj v * (u - v - w) * (conj w * (u - v - w)) := by ring
    _ = ⟨4 * (b ^ 2 * c ^ 2), 0⟩ := by
        rw [conj_mul, conj_mul, hpv, hpw]
        refine Complex.ext ?_ ?_
        · rw [Complex.mul_re]
          linear_combination b * c * hd - hcross
        · rw [Complex.mul_im]
          linear_combination (a - b - c) * hsum
    _ = 4 * (conj v * v * (conj w * w)) := by
        rw [conj_mul, conj_mul, h.second, h.third]
        refine Complex.ext ?_ ?_
        · simp [cross, mul_comm]
        · simp [cross, mul_comm]
    _ = conj v * conj w * (4 * (v * w)) := by ring

end Arms

end Planar

open Planar

namespace Circle

/-- Where the centre lies, as a complex number. -/
def place (c : Circle ℝ) : ℂ := ⟨c.center.x, c.center.y⟩

/-- The circles touch, from outside if both curvatures are positive, and otherwise one inside the
other. -/
def Touches (c d : Circle ℝ) : Prop := dist c.place d.place = |1 / c.curvature + 1 / d.curvature|

/-- Circles that touch as those of a packing do: of two that enclose each other, the outer one has
the smaller curvature. -/
structure Meets (c d : Circle ℝ) : Prop where
  left : c.curvature ≠ 0
  right : d.curvature ≠ 0
  touches : c.Touches d
  positive : 0 < c.curvature + d.curvature

/-- The way from the centre of `b` to the centre of `c`, weighted by the curvature of `c`. -/
def arm (b c : Circle ℝ) : ℂ := (c.place - b.place) * c.curvature

/-- The length of the arm, for circles that touch. -/
noncomputable def reach (b c : Circle ℝ) : ℝ := 1 + c.curvature / b.curvature

variable {b c d e : Circle ℝ}

theorem touches_iff :
    c.Touches d ↔
      dot (c.place - d.place) (c.place - d.place) = (1 / c.curvature + 1 / d.curvature) ^ 2 := by
  rw [dot_self, ← Complex.dist_eq, ← sq_abs (1 / c.curvature + _), Touches]
  exact (sq_eq_sq₀ dist_nonneg (abs_nonneg _)).symm

theorem Touches.symm (h : c.Touches d) : d.Touches c := by
  rw [Touches, dist_comm, add_comm]
  exact h

theorem Meets.symm (h : c.Meets d) : d.Meets c where
  left := h.right
  right := h.left
  touches := h.touches.symm
  positive := by rw [add_comm]; exact h.positive

theorem touches_iff_dot_arm (hc : c.curvature ≠ 0) (hb : b.curvature ≠ 0) :
    c.Touches b ↔ dot (arm b c) (arm b c) = reach b c ^ 2 := by
  have hreach : reach b c ^ 2 =
      (1 / c.curvature + 1 / b.curvature) ^ 2 * (c.curvature * c.curvature) := by
    rw [reach]
    field_simp
  rw [arm, dot_mul_ofReal, hreach, mul_left_inj' (mul_self_ne_zero.2 hc), touches_iff]

theorem Meets.dot_arm (h : c.Meets b) : dot (arm b c) (arm b c) = reach b c ^ 2 :=
  (touches_iff_dot_arm h.left h.right).1 h.touches

/-- Circles that meet are not concentric. -/
theorem Meets.reach_ne_zero (h : c.Meets b) : reach b c ≠ 0 := by
  rw [reach, one_add_div h.right, add_comm]
  exact div_ne_zero h.positive.ne' h.right

/-- Whether two circles that touch a third one touch each other is told by the angle between their
arms. -/
theorem touches_iff_dot_arms (hb : b.curvature ≠ 0) (hc : c.curvature ≠ 0) (hd : d.curvature ≠ 0)
    (hcb : c.Touches b) (hdb : d.Touches b) :
    c.Touches d ↔ dot (arm b c) (arm b d) = reach b c * reach b d - 2 := by
  -- the law of cosines in the triangle of the three centres
  have hcosine := dot_sub_self (c.place - b.place) (d.place - b.place)
  rw [sub_sub_sub_cancel_right, touches_iff.1 hcb, touches_iff.1 hdb] at hcosine
  have hexcess : 2 * (dot (arm b c) (arm b d) - (reach b c * reach b d - 2)) =
      c.curvature * d.curvature * ((1 / c.curvature + 1 / d.curvature) ^ 2 -
        dot (c.place - d.place) (c.place - d.place)) := by
    rw [hcosine, arm, arm, dot_mul_ofReal, reach, reach]
    field_simp
    ring
  rw [touches_iff]
  constructor
  · intro h
    rw [h, sub_self, mul_zero] at hexcess
    linarith
  · intro h
    rw [h, sub_self, mul_zero] at hexcess
    have hzero := (mul_eq_zero.1 hexcess.symm).resolve_left (mul_ne_zero hc hd)
    linarith

theorem dot_arm (hc : c.Meets b) (hd : d.Meets b) (h : c.Meets d) :
    dot (arm b c) (arm b d) = reach b c * reach b d - 2 :=
  (touches_iff_dot_arms hc.right hc.left hd.left hc.touches hd.touches).1 h.touches

theorem arms (hc : c.Meets b) (hd : d.Meets b) (he : e.Meets b) (hcd : c.Meets d) (hce : c.Meets e)
    (hde : d.Meets e) :
    Arms (arm b c) (arm b d) (arm b e) (reach b c) (reach b d) (reach b e) where
  first := hc.dot_arm
  second := hd.dot_arm
  third := he.dot_arm
  first_second := dot_arm hc hd hcd
  first_third := dot_arm hc he hce
  second_third := dot_arm hd he hde

/-- Four circles each of which meets the others. -/
structure Quartet (c₀ c₁ c₂ c₃ : Circle ℝ) : Prop where
  zero_one : c₀.Meets c₁
  zero_two : c₀.Meets c₂
  zero_three : c₀.Meets c₃
  one_two : c₁.Meets c₂
  one_three : c₁.Meets c₃
  two_three : c₂.Meets c₃

/-- `c` and `d` are the two circles that touch `c₁`, `c₂` and `c₃`: curvatures and weighted centres
are the two roots of an equation, and this is the sum of the roots. -/
structure Opposite (c d c₁ c₂ c₃ : Circle ℝ) : Prop where
  curvature : c.curvature + d.curvature =
    (c₁.curvature + c₂.curvature + c₃.curvature) + (c₁.curvature + c₂.curvature + c₃.curvature)
  moment : c.place * c.curvature + d.place * d.curvature =
    (c₁.place * c₁.curvature + c₂.place * c₂.curvature + c₃.place * c₃.curvature) +
      (c₁.place * c₁.curvature + c₂.place * c₂.curvature + c₃.place * c₃.curvature)

variable {c₀ c₁ c₂ c₃ c₄ : Circle ℝ}

namespace Quartet

theorem arms (h : Quartet c₀ c₁ c₂ c₃) :
    Arms (arm c₁ c₀) (arm c₁ c₂) (arm c₁ c₃) (reach c₁ c₀) (reach c₁ c₂) (reach c₁ c₃) :=
  Circle.arms h.zero_one h.one_two.symm h.one_three.symm h.zero_two h.zero_three h.two_three

/-- The theorem of Descartes. -/
theorem descartes (h : Quartet c₀ c₁ c₂ c₃) :
    (c₀.curvature - (c₁.curvature + c₂.curvature + c₃.curvature)) ^ 2 =
      4 * (c₁.curvature * c₂.curvature + c₂.curvature * c₃.curvature +
        c₁.curvature * c₃.curvature) := by
  have hk := h.one_two.left
  have harms := h.arms.descartes
  simp only [reach] at harms
  field_simp at harms
  linear_combination harms

theorem rotate (h : Quartet c₀ c₁ c₂ c₃) : Quartet c₀ c₂ c₃ c₁ :=
  ⟨h.zero_two, h.zero_three, h.zero_one, h.two_three, h.one_two.symm, h.one_three.symm⟩

theorem swap (h : Quartet c₀ c₁ c₂ c₃) : Quartet c₀ c₁ c₃ c₂ :=
  ⟨h.zero_one, h.zero_three, h.zero_two, h.one_three, h.one_two, h.two_three.symm⟩

/-- The theorem of Descartes over the complex numbers. -/
theorem complex_descartes (h : Quartet c₀ c₁ c₂ c₃) :
    (arm c₁ c₀ - (arm c₁ c₂ + arm c₁ c₃)) ^ 2 = 4 * (arm c₁ c₂ * arm c₁ c₃) := by
  rw [← sub_sub]
  exact h.arms.complex_descartes h.one_two.symm.reach_ne_zero h.one_three.symm.reach_ne_zero

end Quartet

namespace Opposite

theorem rotate (h : Opposite c d c₁ c₂ c₃) : Opposite c d c₂ c₃ c₁ where
  curvature := by rw [h.curvature]; ring
  moment := by rw [h.moment]; ring

theorem arm_eq (h : Opposite c₀ c₄ c₁ c₂ c₃) :
    arm c₁ c₄ = 2 * (arm c₁ c₂ + arm c₁ c₃) - arm c₁ c₀ := by
  have hcurvature := congrArg ((↑) : ℝ → ℂ) h.curvature
  push_cast at hcurvature
  simp only [arm]
  linear_combination h.moment - c₁.place * hcurvature

theorem reach_eq (h : Opposite c₀ c₄ c₁ c₂ c₃) (hk : c₁.curvature ≠ 0) :
    reach c₁ c₄ = 2 * (reach c₁ c₂ + reach c₁ c₃) - reach c₁ c₀ := by
  simp only [reach]
  field_simp
  linear_combination h.curvature

/-- The arm of the circle opposite to `c₀` is as long as that of a circle that touches `c₁`. -/
theorem touches (h : Opposite c₀ c₄ c₁ c₂ c₃) (hq : Quartet c₀ c₁ c₂ c₃) (hk : c₄.curvature ≠ 0) :
    c₄.Touches c₁ := by
  obtain ⟨h₀₀, h₂₂, h₃₃, h₀₂, h₀₃, h₂₃⟩ := hq.arms
  rw [touches_iff_dot_arm hk hq.one_two.left, h.arm_eq, h.reach_eq hq.one_two.left, dot_reflection,
    h₀₀, h₂₂, h₃₃, h₀₂, h₀₃, h₂₃]
  ring

section Meets

variable (h : Opposite c₀ c₄ c₁ c₂ c₃) (hq : Quartet c₀ c₁ c₂ c₃)
  (hle : c₀.curvature ≤ c₁.curvature + c₂.curvature + c₃.curvature)

include h hq hle

theorem curvature_pos : 0 < c₄.curvature := by
  have h₁₂ := hq.one_two.positive
  have h₁₃ := hq.one_three.positive
  have h₂₃ := hq.two_three.positive
  linarith [h.curvature]

/-- The circle opposite to one that is not too small meets the others. -/
theorem meets : c₄.Meets c₁ where
  left := (h.curvature_pos hq hle).ne'
  right := hq.one_two.left
  touches := h.touches hq (h.curvature_pos hq hle).ne'
  positive := by
    have h₁₂ := hq.one_two.positive
    have h₁₃ := hq.one_three.positive
    linarith [h.curvature]

/-- The circle opposite to `c₀` takes its place among the four. -/
theorem quartet : Quartet c₃ c₄ c₁ c₂ where
  zero_one := (h.rotate.rotate.meets hq.rotate.rotate (by linarith)).symm
  zero_two := hq.one_three.symm
  zero_three := hq.two_three.symm
  one_two := h.meets hq hle
  one_three := h.rotate.meets hq.rotate (by linarith)
  two_three := hq.one_two

/-- In the gap between `c₄`, `c₁` and `c₂`, the circle opposite to `c₃` is smaller than `c₃`. -/
theorem curvature_lt : c₃.curvature < c₄.curvature + c₁.curvature + c₂.curvature := by
  have h₁₂ := hq.one_two.positive
  linarith [h.curvature]

end Meets

end Opposite

end Circle

end Easel
