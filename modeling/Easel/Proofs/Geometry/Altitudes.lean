import Mathlib
import Easel.Geometry.Triangle
import Easel.Proofs.Geometry.Descartes
import Easel.Proofs.Number.Exact

/-!
# The altitudes of a triangle

Where `Triangle.altitudeFeet` puts its points when nothing is rounded. By Heron's formula the leg
beside an altitude is as long as the projection of a side on the line of another one. A length has
no sign: the point that is found lies on the side of the far vertex, and it is the foot of the
altitude unless the angle at the vertex that it is measured from is obtuse.

The inner products of the sides at the three vertices (`Triangle.dotA` and so on) give all lengths
and areas: the square of a side is the sum of the two at its ends.
-/

namespace Easel

open scoped Exact
open Planar

namespace Point

/-- Where the point lies, as a complex number. -/
def place (p : Point ℝ) : ℂ := ⟨p.x, p.y⟩

/-- The inner product of the ways from `p` to `q` and to `r`. It is positive, zero or negative as
the angle at `p` is acute, right or obtuse. -/
def corner (p q r : Point ℝ) : ℝ := dot (q.place - p.place) (r.place - p.place)

/-- `d` is the foot of the perpendicular from `p` on the line through `q` and `r`. -/
structure IsFoot (d p q r : Point ℝ) : Prop where
  onLine : ∃ s : ℝ, d = q.lerp r s
  perpendicular : dot (p.place - d.place) (r.place - q.place) = 0

/-- The point as far from `q` as that foot, on the side of `r`. -/
noncomputable def measuredFoot (p q r : Point ℝ) : Point ℝ :=
  q.lerp r (|q.corner p r| / q.distance r ^ 2)

variable {p q r : Point ℝ}

theorem corner_comm (p q r : Point ℝ) : p.corner q r = p.corner r q := by
  simp only [corner, dot]
  ring

theorem place_lerp (p q : Point ℝ) (s : ℝ) :
    (p.lerp q s).place = p.place + (q.place - p.place) * s := by
  refine Complex.ext ?_ ?_
  · rw [Complex.add_re, Complex.re_mul_ofReal, Complex.sub_re]
    rfl
  · rw [Complex.add_im, Complex.im_mul_ofReal, Complex.sub_im]
    rfl

theorem distance_nonneg (p q : Point ℝ) : 0 ≤ p.distance q := Real.sqrt_nonneg _

theorem distance_sq (p q : Point ℝ) :
    p.distance q ^ 2 = (q.x - p.x) * (q.x - p.x) + (q.y - p.y) * (q.y - p.y) :=
  Real.sq_sqrt (add_nonneg (mul_self_nonneg _) (mul_self_nonneg _))

/-- The square of a side is the sum of the inner products at its ends. -/
theorem corner_add_corner (p q r : Point ℝ) :
    p.corner q r + q.corner p r = p.distance q ^ 2 := by
  rw [distance_sq]
  simp only [corner, dot, place, Complex.sub_re, Complex.sub_im]
  ring

/-- How far the line to a point of another line is from being perpendicular to it. -/
theorem dot_sub_lerp (p q r : Point ℝ) (s : ℝ) :
    dot (p.place - (q.lerp r s).place) (r.place - q.place) =
      q.corner p r - s * q.distance r ^ 2 := by
  rw [place_lerp, distance_sq]
  simp only [corner, dot, place, Complex.sub_re, Complex.sub_im, Complex.add_re, Complex.add_im,
    Complex.re_mul_ofReal, Complex.im_mul_ofReal]
  ring

theorem dot_sub_measuredFoot (p : Point ℝ) (h : q.distance r ≠ 0) :
    dot (p.place - (measuredFoot p q r).place) (r.place - q.place) =
      q.corner p r - |q.corner p r| := by
  rw [measuredFoot, dot_sub_lerp, div_mul_cancel₀ _ (pow_ne_zero 2 h)]

/-- The point that is found by its distance is the foot unless the angle is obtuse. -/
theorem isFoot_measuredFoot_iff (h : q.distance r ≠ 0) :
    IsFoot (measuredFoot p q r) p q r ↔ 0 ≤ q.corner p r := by
  constructor
  · intro hfoot
    have hzero := hfoot.perpendicular
    rw [dot_sub_measuredFoot p h, sub_eq_zero] at hzero
    exact abs_eq_self.1 hzero.symm
  · intro hcorner
    refine ⟨⟨_, rfl⟩, ?_⟩
    rw [dot_sub_measuredFoot p h, abs_of_nonneg hcorner, sub_self]

/-- Where the angle is obtuse, the foot lies as far on the other side of the vertex. -/
theorem isFoot_reflected (h : q.distance r ≠ 0) (hcorner : q.corner p r ≤ 0) :
    IsFoot (q.lerp (measuredFoot p q r) (-1)) p q r := by
  have hreflected : q.lerp (measuredFoot p q r) (-1) =
      q.lerp r (-(|q.corner p r| / q.distance r ^ 2)) := by
    simp only [measuredFoot, lerp, mk.injEq]
    exact ⟨by ring, by ring⟩
  refine ⟨⟨_, hreflected⟩, ?_⟩
  rw [hreflected, dot_sub_lerp, abs_of_nonpos hcorner, neg_mul,
    div_mul_cancel₀ _ (pow_ne_zero 2 h), neg_neg, sub_self]

end Point

namespace Triangle

open Point

variable (t : Triangle ℝ)

/-- The inner product of the sides at `a`. -/
def dotA : ℝ := t.a.corner t.b t.c

/-- The inner product of the sides at `b`. -/
def dotB : ℝ := t.b.corner t.a t.c

/-- The inner product of the sides at `c`. -/
def dotC : ℝ := t.c.corner t.a t.b

/-- The area that two sides span, with a sign. -/
def span : ℝ := cross (t.b.place - t.a.place) (t.c.place - t.a.place)

theorem sideA_sq : t.b.distance t.c ^ 2 = t.dotB + t.dotC := by
  rw [dotB, dotC, t.b.corner_comm, t.c.corner_comm, corner_add_corner]

theorem sideB_sq : t.a.distance t.c ^ 2 = t.dotA + t.dotC := by
  rw [dotA, dotC, t.a.corner_comm, corner_add_corner]

theorem sideC_sq : t.a.distance t.b ^ 2 = t.dotA + t.dotB := by
  rw [dotA, dotB, corner_add_corner]

theorem span_sq :
    t.span ^ 2 = t.dotA * t.dotB + t.dotB * t.dotC + t.dotA * t.dotC := by
  simp only [span, dotA, dotB, dotC, corner, dot, cross, place, Complex.sub_re, Complex.sub_im]
  ring

/-- **Heron's formula** gives half the area that two sides span. -/
theorem area_eq : t.area = |t.span| / 2 := by
  have ha := t.sideA_sq
  have hb := t.sideB_sq
  have hc := t.sideC_sq
  simp only [area, sides, Exact.literal_eq, Exact.larger_eq, Exact.sqrt_eq]
  push_cast
  generalize t.b.distance t.c = a, t.a.distance t.c = b, t.a.distance t.b = c at *
  have hproduct : (a + b + c) / 2 * ((a + b + c) / 2 - a) * ((a + b + c) / 2 - b) *
      ((a + b + c) / 2 - c) = (t.span / 2) ^ 2 := by
    calc
      _ = (2 * (a ^ 2 * b ^ 2 + b ^ 2 * c ^ 2 + c ^ 2 * a ^ 2) - (a ^ 2) ^ 2 - (b ^ 2) ^ 2 -
          (c ^ 2) ^ 2) / 16 := by ring
      _ = (t.span / 2) ^ 2 := by
        rw [ha, hb, hc, div_pow, span_sq]
        ring
  rw [hproduct, max_eq_left (sq_nonneg _), Real.sqrt_sq_eq_abs, abs_div, abs_two]

/-- The leg beside the altitude on a base is the projection of the side beside it. -/
theorem leg_eq {hypotenuse base projection : ℝ} (hbase : 0 < base)
    (h : hypotenuse ^ 2 * base ^ 2 = t.span ^ 2 + projection ^ 2) :
    leg hypotenuse (2 * t.area / base) = |projection| / base := by
  have hheight : 2 * t.area / base = |t.span| / base := by
    rw [area_eq]
    ring
  have hsquare : hypotenuse * hypotenuse - |t.span| / base * (|t.span| / base) =
      (projection / base) ^ 2 := by
    rw [div_mul_div_comm, abs_mul_abs_self]
    field_simp
    linear_combination h
  simp only [leg, Exact.literal_eq, Exact.larger_eq, Exact.sqrt_eq]
  push_cast
  rw [hheight, hsquare, max_eq_left (sq_nonneg _), Real.sqrt_sq_eq_abs, abs_div,
    abs_of_pos hbase]

theorem sideC_sq_mul_sideA_sq :
    t.a.distance t.b ^ 2 * t.b.distance t.c ^ 2 = t.span ^ 2 + t.dotB ^ 2 := by
  rw [sideC_sq, sideA_sq, span_sq]
  ring

theorem sideC_sq_mul_sideB_sq :
    t.a.distance t.b ^ 2 * t.a.distance t.c ^ 2 = t.span ^ 2 + t.dotA ^ 2 := by
  rw [sideC_sq, sideB_sq, span_sq]
  ring

variable {t}

/-- A triangle that has an area has sides. -/
theorem distance_pos (h : t.span ≠ 0) :
    0 < t.b.distance t.c ∧ 0 < t.a.distance t.c ∧ 0 < t.a.distance t.b := by
  have hspan : 0 < t.span ^ 2 := by positivity
  have hca : 0 < t.a.distance t.b ^ 2 * t.b.distance t.c ^ 2 := by
    rw [sideC_sq_mul_sideA_sq]
    positivity
  have hcb : 0 < t.a.distance t.b ^ 2 * t.a.distance t.c ^ 2 := by
    rw [sideC_sq_mul_sideB_sq]
    positivity
  have hpos {p q : Point ℝ} (h : 0 < p.distance q ^ 2) : 0 < p.distance q :=
    (distance_nonneg p q).lt_of_ne' fun hzero => h.ne' (by rw [hzero, zero_pow two_ne_zero])
  exact ⟨hpos (pos_of_mul_pos_right hca (sq_nonneg _)),
    hpos (pos_of_mul_pos_right hcb (sq_nonneg _)), hpos (pos_of_mul_pos_left hca (sq_nonneg _))⟩

theorem altitudeFeet_eq (h : t.span ≠ 0) :
    t.altitudeFeet =
      (measuredFoot t.a t.b t.c, measuredFoot t.b t.a t.c, measuredFoot t.c t.a t.b) := by
  obtain ⟨ha, hb, hc⟩ := distance_pos h
  have hd := t.leg_eq ha t.sideC_sq_mul_sideA_sq
  have he := t.leg_eq hb t.sideC_sq_mul_sideB_sq
  have hf := t.leg_eq hc ((mul_comm _ _).trans t.sideC_sq_mul_sideB_sq)
  simp only [altitudeFeet, sides, Exact.literal_eq]
  push_cast
  rw [hd, he, hf]
  simp only [measuredFoot, dotA, dotB, t.a.corner_comm t.c, div_div, pow_two]

theorem span_ne_zero_iff : t.span ≠ 0 ↔ t.area ≠ 0 := by
  rw [area_eq, div_ne_zero_iff, abs_ne_zero]
  exact (and_iff_left two_ne_zero).symm

/-- **The feet of the altitudes are found unless an angle is obtuse.** In every triangle with an
area the three points lie on the lines of the sides. The one on `bc`, which is measured from `b`, is
the foot of the altitude unless the angle at `b` is obtuse, and the other two, which are measured
from `a`, are unless the angle at `a` is; an obtuse angle at `c` does no harm. Behind an obtuse
angle the point is the mirror image of the foot at the vertex that it is measured from. -/
theorem altitudeFeet_by_angle (t : Triangle ℝ) (h : t.area ≠ 0) :
    ((∃ s : ℝ, t.altitudeFeet.1 = t.b.lerp t.c s) ∧ (∃ s : ℝ, t.altitudeFeet.2.1 = t.a.lerp t.c s) ∧
      ∃ s : ℝ, t.altitudeFeet.2.2 = t.a.lerp t.b s) ∧
    (IsFoot t.altitudeFeet.1 t.a t.b t.c ↔ 0 ≤ t.dotB) ∧
    (IsFoot t.altitudeFeet.2.1 t.b t.a t.c ↔ 0 ≤ t.dotA) ∧
    (IsFoot t.altitudeFeet.2.2 t.c t.a t.b ↔ 0 ≤ t.dotA) ∧
    (t.dotB ≤ 0 → IsFoot (t.b.lerp t.altitudeFeet.1 (-1)) t.a t.b t.c) ∧
    (t.dotA ≤ 0 → IsFoot (t.a.lerp t.altitudeFeet.2.1 (-1)) t.b t.a t.c ∧
      IsFoot (t.a.lerp t.altitudeFeet.2.2 (-1)) t.c t.a t.b) := by
  have hspan := span_ne_zero_iff.2 h
  obtain ⟨ha, hb, hc⟩ := distance_pos hspan
  have hdotA : t.a.corner t.c t.b = t.dotA := t.a.corner_comm _ _
  rw [altitudeFeet_eq hspan]
  refine ⟨⟨⟨_, rfl⟩, ⟨_, rfl⟩, ⟨_, rfl⟩⟩, isFoot_measuredFoot_iff ha.ne',
    isFoot_measuredFoot_iff hb.ne', ?_, isFoot_reflected ha.ne', fun hobtuse => ⟨?_, ?_⟩⟩
  · rw [← hdotA]
    exact isFoot_measuredFoot_iff hc.ne'
  · exact isFoot_reflected hb.ne' hobtuse
  · rw [← hdotA] at hobtuse
    exact isFoot_reflected hc.ne' hobtuse

/-- A triangle with an obtuse angle at `b`. -/
noncomputable def obtuse : Triangle ℝ := ⟨⟨-5, 12⟩, ⟨0, 0⟩, ⟨4, 0⟩⟩

theorem dot_obtuse : obtuse.dotA = 189 ∧ obtuse.dotB = -20 := by
  simp only [obtuse, dotA, dotB, corner, dot, place, Complex.sub_re, Complex.sub_im]
  norm_num

theorem area_obtuse : obtuse.area = 24 := by
  have hspan : obtuse.span = 48 := by
    simp only [obtuse, span, cross, place, Complex.sub_re, Complex.sub_im]
    norm_num
  rw [area_eq, hspan]
  norm_num

theorem altitudeFeet_by_angle_obtuse :
    obtuse.area ≠ 0 ∧ ¬IsFoot obtuse.altitudeFeet.1 obtuse.a obtuse.b obtuse.c ∧
      IsFoot obtuse.altitudeFeet.2.1 obtuse.b obtuse.a obtuse.c ∧
      IsFoot obtuse.altitudeFeet.2.2 obtuse.c obtuse.a obtuse.b := by
  have harea : obtuse.area ≠ 0 := by
    rw [area_obtuse]
    norm_num
  obtain ⟨hA, hB⟩ := dot_obtuse
  obtain ⟨-, hd, he, hf, -⟩ := altitudeFeet_by_angle obtuse harea
  rw [hB] at hd
  rw [hA] at he hf
  exact ⟨harea, mt hd.1 (by norm_num), he.2 (by norm_num), hf.2 (by norm_num)⟩

/-- One of the three points can be a point that is no foot. -/
theorem altitudeFeet_missed :
    ¬∀ t : Triangle ℝ, t.area ≠ 0 → IsFoot t.altitudeFeet.1 t.a t.b t.c ∧
      IsFoot t.altitudeFeet.2.1 t.b t.a t.c ∧ IsFoot t.altitudeFeet.2.2 t.c t.a t.b := by
  intro h
  have harea : obtuse.area ≠ 0 := by
    rw [area_obtuse]
    norm_num
  have hspan := span_ne_zero_iff.2 harea
  have hfoot := (h obtuse harea).1
  rw [altitudeFeet_eq hspan] at hfoot
  have hcorner := (isFoot_measuredFoot_iff (distance_pos hspan).1.ne').1 hfoot
  have hB : obtuse.b.corner obtuse.a obtuse.c = -20 := dot_obtuse.2
  rw [hB] at hcorner
  norm_num at hcorner

end Triangle

end Easel
