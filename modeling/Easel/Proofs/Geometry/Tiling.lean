import Easel.Proofs.Geometry.Altitudes
import Easel.Proofs.Geometry.Corners

/-!
# Acute triangles tile

In an acute triangle the feet of the altitudes lie inside the sides. They cut off three corners that
are similar to the triangle, in the ratio of the cosines of its angles, and between these lies the
triangle that is drawn. So the fractal of an acute seed can be divided for ever, and every division
is a dissection.
-/

namespace Easel

open scoped Exact
open Planar

namespace Point

variable {p q r v : Point ℝ}

/-- The cosine of the angle at `v`. -/
noncomputable def cosine (v q r : Point ℝ) : ℝ := v.corner q r / (v.distance q * v.distance r)

/-- How far along the line from `q` to `r` the foot of the perpendicular from `p` lies. -/
noncomputable def share (p q r : Point ℝ) : ℝ := q.corner p r / q.distance r ^ 2

theorem cosine_comm (v q r : Point ℝ) : cosine v q r = cosine v r q := by
  rw [cosine, cosine, corner_comm, mul_comm]

theorem distance_comm (p q : Point ℝ) : p.distance q = q.distance p := by
  rw [← sq_eq_sq₀ (distance_nonneg p q) (distance_nonneg q p), ← corner_add_corner p q p, add_comm,
    corner_add_corner]

theorem share_add_share (h : q.distance r ≠ 0) : share p q r + share p r q = 1 := by
  rw [share, share, r.distance_comm q, ← add_div, q.corner_comm, r.corner_comm, corner_add_corner,
    div_self (pow_ne_zero 2 h)]

theorem measuredFoot_eq (h : 0 ≤ q.corner p r) : measuredFoot p q r = q.lerp r (share p q r) := by
  rw [measuredFoot, share, abs_of_nonneg h]

theorem lerp_swap (p q : Point ℝ) {s t : ℝ} (h : s + t = 1) : p.lerp q s = q.lerp p t := by
  obtain rfl := eq_sub_of_add_eq h
  simp only [lerp, mk.injEq]
  exact ⟨by ring, by ring⟩

/-- A foot inside a side is found from both ends of it. -/
theorem measuredFoot_swap (h : q.distance r ≠ 0) (hq : 0 ≤ q.corner p r) (hr : 0 ≤ r.corner p q) :
    measuredFoot p q r = measuredFoot p r q := by
  rw [measuredFoot_eq hq, measuredFoot_eq hr, lerp_swap q r (share_add_share h)]

theorem corner_lerp_lerp (v q r : Point ℝ) (s t : ℝ) :
    v.corner (v.lerp q s) (v.lerp r t) = s * t * v.corner q r := by
  simp only [corner, place_lerp, add_sub_cancel_left, dot_mul_ofReal]
  ring

theorem corner_lerp_self_lerp (v q r : Point ℝ) (s t : ℝ) :
    (v.lerp q s).corner v (v.lerp r t) = s * (s * v.distance q ^ 2 - t * v.corner q r) := by
  rw [distance_sq]
  simp only [corner, dot, place, lerp, Complex.sub_re, Complex.sub_im]
  ring

theorem share_mul_share (v q r : Point ℝ) : share r v q * share q v r = cosine v q r ^ 2 := by
  rw [share, share, cosine, v.corner_comm r, div_mul_div_comm, div_pow, mul_pow, pow_two (corner _ _ _)]

section Feet

/-! The feet of the perpendiculars from `q` and `r` on the sides of an angle that is not obtuse. -/

variable (h : 0 ≤ v.corner q r)

include h

theorem corner_measuredFoot : v.corner (measuredFoot r v q) (measuredFoot q v r) =
    cosine v q r ^ 2 * v.corner q r := by
  rw [measuredFoot_eq h, measuredFoot_eq (v.corner_comm q r ▸ h), corner_lerp_lerp,
    share_mul_share]

/-- The angle at one foot is that at the vertex from which the other one was dropped. -/
theorem measuredFoot_corner (hq : v.distance q ≠ 0) (hr : v.distance r ≠ 0) :
    (measuredFoot r v q).corner v (measuredFoot q v r) = cosine v q r ^ 2 * r.corner v q := by
  have hnear : share r v q * v.distance q ^ 2 = v.corner q r := by
    rw [share, div_mul_cancel₀ _ (pow_ne_zero 2 hq), corner_comm]
  have hfar : share q v r * (v.corner q r + r.corner v q) = v.corner q r := by
    rw [share, v.corner_comm q, corner_add_corner, div_mul_cancel₀ _ (pow_ne_zero 2 hr)]
  rw [measuredFoot_eq h, measuredFoot_eq (v.corner_comm q r ▸ h), corner_lerp_self_lerp, hnear,
    ← share_mul_share]
  linear_combination -share r v q * hfar

end Feet

end Point

open Point

namespace Triangle

variable {t u w : Triangle ℝ}

/-- All angles are acute. -/
structure Acute (t : Triangle ℝ) : Prop where
  a : 0 < t.dotA
  b : 0 < t.dotB
  c : 0 < t.dotC

/-- The sides of `u` are those of `t` in one ratio, each opposite the same vertex. -/
def SimilarTo (t u : Triangle ℝ) : Prop :=
  ∃ k > 0, u.sides = (k * t.sides.1, k * t.sides.2.1, k * t.sides.2.2)

theorem SimilarTo.refl (t : Triangle ℝ) : t.SimilarTo t :=
  ⟨1, one_pos, by simp only [one_mul]⟩

theorem SimilarTo.trans (h : t.SimilarTo u) (h' : u.SimilarTo w) : t.SimilarTo w := by
  obtain ⟨k, hk, hu⟩ := h
  obtain ⟨l, hl, hw⟩ := h'
  refine ⟨l * k, mul_pos hl hk, ?_⟩
  simp only [hw, hu, mul_assoc]

/-- All inner products of `u` are those of `t` in one ratio. -/
structure Scales (k : ℝ) (t u : Triangle ℝ) : Prop where
  a : u.dotA = k ^ 2 * t.dotA
  b : u.dotB = k ^ 2 * t.dotB
  c : u.dotC = k ^ 2 * t.dotC

namespace Scales

variable {k : ℝ}

theorem acute (h : Scales k t u) (hk : 0 < k) (ht : t.Acute) : u.Acute where
  a := h.a ▸ mul_pos (pow_pos hk 2) ht.a
  b := h.b ▸ mul_pos (pow_pos hk 2) ht.b
  c := h.c ▸ mul_pos (pow_pos hk 2) ht.c

theorem similarTo (h : Scales k t u) (hk : 0 < k) : t.SimilarTo u := by
  have hroot {p q p' q' : Point ℝ} (hsq : p'.distance q' ^ 2 = k ^ 2 * p.distance q ^ 2) :
      p'.distance q' = k * p.distance q := by
    rw [← mul_pow] at hsq
    exact (sq_eq_sq₀ (distance_nonneg p' q') (mul_nonneg hk.le (distance_nonneg p q))).1 hsq
  refine ⟨k, hk, Prod.ext (hroot ?_) (Prod.ext (hroot ?_) (hroot ?_))⟩
  · rw [sideA_sq, sideA_sq, h.b, h.c, mul_add]
  · rw [sideB_sq, sideB_sq, h.a, h.c, mul_add]
  · rw [sideC_sq, sideC_sq, h.a, h.b, mul_add]

end Scales

namespace Acute

variable (h : t.Acute)

include h

theorem span_ne_zero : t.span ≠ 0 := by
  have hsq := t.span_sq
  have ha := h.a
  have hb := h.b
  have hc := h.c
  intro hzero
  rw [hzero] at hsq
  have hpos : 0 < t.dotA * t.dotB + t.dotB * t.dotC + t.dotA * t.dotC := by positivity
  rw [← hsq] at hpos
  simp at hpos

theorem cosine_pos : 0 < cosine t.a t.b t.c ∧ 0 < cosine t.b t.a t.c ∧ 0 < cosine t.c t.a t.b := by
  obtain ⟨ha, hb, hc⟩ := distance_pos h.span_ne_zero
  refine ⟨div_pos h.a (mul_pos hc hb), div_pos h.b (mul_pos ?_ ha), div_pos h.c (mul_pos ?_ ?_)⟩
  · rwa [distance_comm]
  · rwa [distance_comm]
  · rwa [distance_comm]

theorem distance_ne_zero :
    t.b.distance t.c ≠ 0 ∧ t.a.distance t.c ≠ 0 ∧ t.a.distance t.b ≠ 0 := by
  obtain ⟨ha, hb, hc⟩ := distance_pos h.span_ne_zero
  exact ⟨ha.ne', hb.ne', hc.ne'⟩

/-- The angles with their sides in the other order. -/
theorem corner_nonneg :
    0 ≤ t.a.corner t.c t.b ∧ 0 ≤ t.b.corner t.c t.a ∧ 0 ≤ t.c.corner t.b t.a := by
  rw [t.a.corner_comm, t.b.corner_comm, t.c.corner_comm]
  exact ⟨h.a.le, h.b.le, h.c.le⟩

/-- The feet as they are found from either end of a side. -/
theorem altitudeFeet_swap :
    t.altitudeFeet =
      (measuredFoot t.a t.c t.b, measuredFoot t.b t.c t.a, measuredFoot t.c t.b t.a) := by
  obtain ⟨ha, hb, hc⟩ := h.distance_ne_zero
  obtain ⟨hA, hB, hC⟩ := h.corner_nonneg
  rw [altitudeFeet_eq h.span_ne_zero, measuredFoot_swap ha h.b.le h.c.le,
    measuredFoot_swap hb h.a.le hC, measuredFoot_swap hc hA hB]

/-- The corner at `a` is similar to the triangle. -/
theorem scales_cornerA :
    Scales (cosine t.a t.b t.c) t ⟨t.a, t.altitudeFeet.2.1, t.altitudeFeet.2.2⟩ := by
  obtain ⟨-, hb, hc⟩ := h.distance_ne_zero
  obtain ⟨hA, -, -⟩ := h.corner_nonneg
  rw [altitudeFeet_eq h.span_ne_zero]
  refine ⟨?_, ?_, ?_⟩
  · rw [dotA, dotA, corner_comm, corner_measuredFoot h.a.le]
  · rw [cosine_comm]
    exact measuredFoot_corner hA hb hc
  · exact measuredFoot_corner h.a.le hc hb

/-- The corner at `b` is similar to the triangle. -/
theorem scales_cornerB :
    Scales (cosine t.b t.a t.c) t ⟨t.altitudeFeet.1, t.b, t.altitudeFeet.2.2⟩ := by
  obtain ⟨ha, -, hc⟩ := h.distance_ne_zero
  rw [distance_comm] at hc
  obtain ⟨-, hB, -⟩ := h.corner_nonneg
  have hfeet := altitudeFeet_eq h.span_ne_zero
  have hswap := h.altitudeFeet_swap
  have hd : t.altitudeFeet.1 = measuredFoot t.a t.b t.c := by rw [hfeet]
  have hf : t.altitudeFeet.2.2 = measuredFoot t.c t.b t.a := by rw [hswap]
  rw [hd, hf]
  refine ⟨?_, ?_, ?_⟩
  · rw [cosine_comm]
    exact measuredFoot_corner hB ha hc
  · rw [dotB, dotB, corner_comm, corner_measuredFoot h.b.le]
  · rw [dotC, dotC, corner_comm, measuredFoot_corner h.b.le hc ha, corner_comm]

/-- The corner at `c` is similar to the triangle. -/
theorem scales_cornerC :
    Scales (cosine t.c t.a t.b) t ⟨t.altitudeFeet.1, t.altitudeFeet.2.1, t.c⟩ := by
  obtain ⟨ha, hb, -⟩ := h.distance_ne_zero
  rw [distance_comm] at ha hb
  obtain ⟨-, -, hC⟩ := h.corner_nonneg
  rw [h.altitudeFeet_swap]
  refine ⟨?_, ?_, ?_⟩
  · rw [dotA, dotA, corner_comm, measuredFoot_corner hC ha hb, cosine_comm, corner_comm]
  · rw [dotB, dotB, corner_comm, measuredFoot_corner h.c.le hb ha, corner_comm]
  · rw [dotC, dotC, corner_comm, corner_measuredFoot h.c.le]

end Acute

/-! ## Areas -/

section Dissection

variable {x y z : ℝ} (t : Triangle ℝ)

/-- Points on the three sides of a triangle dissect it into four. -/
theorem area_eq_sum (hx : x ∈ Set.Icc 0 1) (hy : y ∈ Set.Icc 0 1) (hz : z ∈ Set.Icc 0 1) :
    t.area = area ⟨t.b.lerp t.c x, t.a.lerp t.c y, t.a.lerp t.b z⟩ +
      (area ⟨t.b.lerp t.c x, t.a.lerp t.c y, t.c⟩ + area ⟨t.b.lerp t.c x, t.b, t.a.lerp t.b z⟩ +
        area ⟨t.a, t.a.lerp t.c y, t.a.lerp t.b z⟩) := by
  obtain ⟨⟨hx, hx'⟩, ⟨hy, hy'⟩, hz, hz'⟩ := And.intro hx (And.intro hy hz)
  rw [← sub_nonneg] at hx' hy' hz'
  have hinner : span ⟨t.b.lerp t.c x, t.a.lerp t.c y, t.a.lerp t.b z⟩ =
      (x * z * (1 - y) + (1 - x) * (1 - z) * y) * t.span := by
    simp only [span, cross, place, lerp, Complex.sub_re, Complex.sub_im]
    ring
  have hC : span ⟨t.b.lerp t.c x, t.a.lerp t.c y, t.c⟩ = -((1 - x) * (1 - y)) * t.span := by
    simp only [span, cross, place, lerp, Complex.sub_re, Complex.sub_im]
    ring
  have hB : span ⟨t.b.lerp t.c x, t.b, t.a.lerp t.b z⟩ = -(x * (1 - z)) * t.span := by
    simp only [span, cross, place, lerp, Complex.sub_re, Complex.sub_im]
    ring
  have hA : span ⟨t.a, t.a.lerp t.c y, t.a.lerp t.b z⟩ = -(y * z) * t.span := by
    simp only [span, cross, place, lerp, Complex.sub_re, Complex.sub_im]
    ring
  -- the one in the middle has the orientation of the triangle, the corners have the other one
  simp only [area_eq, hinner, hA, hB, hC, abs_mul _ t.span, abs_neg]
  have hmiddle : 0 ≤ x * z * (1 - y) + (1 - x) * (1 - z) * y :=
    add_nonneg (mul_nonneg (mul_nonneg hx hz) hy') (mul_nonneg (mul_nonneg hx' hz') hy)
  rw [abs_of_nonneg hmiddle, abs_of_nonneg (mul_nonneg hx' hy'), abs_of_nonneg (mul_nonneg hx hz'),
    abs_of_nonneg (mul_nonneg hy hz)]
  ring

end Dissection

theorem share_mem_Icc {p q r : Point ℝ} (h : q.distance r ≠ 0) (hq : 0 ≤ q.corner p r)
    (hr : 0 ≤ r.corner p q) : share p q r ∈ Set.Icc (0 : ℝ) 1 := by
  have hsum := share_add_share (p := p) h
  have hleft : 0 ≤ share p q r := div_nonneg hq (sq_nonneg _)
  have hright : 0 ≤ share p r q := div_nonneg hr (sq_nonneg _)
  exact ⟨hleft, by linarith⟩

/-- The feet of the altitudes dissect an acute triangle. -/
theorem Acute.area_eq_sum (h : t.Acute) :
    t.area = (Sierpinski.inner t).area + (area ⟨t.altitudeFeet.1, t.altitudeFeet.2.1, t.c⟩ +
      area ⟨t.altitudeFeet.1, t.b, t.altitudeFeet.2.2⟩ +
        area ⟨t.a, t.altitudeFeet.2.1, t.altitudeFeet.2.2⟩) := by
  obtain ⟨ha, hb, hc⟩ := h.distance_ne_zero
  obtain ⟨hA, hB, hC⟩ := h.corner_nonneg
  rw [Sierpinski.inner, altitudeFeet_eq h.span_ne_zero, measuredFoot_eq h.b.le,
    measuredFoot_eq h.a.le, measuredFoot_eq hA]
  exact t.area_eq_sum (share_mem_Icc ha h.b.le h.c.le) (share_mem_Icc hb h.a.le hC)
    (share_mem_Icc hc hA hB)

end Triangle

namespace Sierpinski

open Triangle

/-- What an acute triangle `s` hands on to the triangles that are left to divide. -/
structure Inherits (s t : Triangle ℝ) : Prop where
  similar : s.SimilarTo t
  acute : t.Acute

variable {s t u : Triangle ℝ}

theorem Inherits.corner (h : Inherits s t) (hu : u ∈ corners t (inner t)) : Inherits s u := by
  have hangles := h.acute.cosine_pos
  simp only [corners, List.mem_cons, List.not_mem_nil, or_false] at hu
  obtain ⟨k, hk, hscales⟩ : ∃ k > 0, Scales k t u := by
    rcases hu with rfl | rfl | rfl
    · exact ⟨_, hangles.2.2, h.acute.scales_cornerC⟩
    · exact ⟨_, hangles.2.1, h.acute.scales_cornerB⟩
    · exact ⟨_, hangles.1, h.acute.scales_cornerA⟩
  exact ⟨h.similar.trans (hscales.similarTo hk), hscales.acute hk h.acute⟩

theorem inherits_grown {seed : Triangle ℝ} (h : seed.Acute) (n : ℕ) :
    ∀ t ∈ (grown seed n).frontier, Inherits seed t := by
  induction n with
  | zero =>
    intro t ht
    rw [List.mem_singleton.1 ht]
    exact ⟨.refl seed, h⟩
  | succ n ih =>
    intro t ht
    obtain ⟨u, hu, ht⟩ := mem_frontier_next.1 ht
    exact (ih u hu).corner ht

/-- What is drawn in acute triangles and what is left of them have their areas together. -/
theorem sum_area_divided {l : List (Triangle ℝ)} (h : ∀ t ∈ l, t.Acute) :
    ((l.map inner).map area).sum + ((l.flatMap fun t => corners t (inner t)).map area).sum =
      (l.map area).sum := by
  induction l with
  | nil => simp
  | cons t l ih =>
    have ht : t.area = (inner t).area + ((corners t (inner t)).map area).sum := by
      rw [(h t List.mem_cons_self).area_eq_sum, add_assoc (area _)]
      simp only [corners, inner, List.map_cons, List.map_nil, List.sum_cons, List.sum_nil, add_zero]
    have hl := ih fun u hu => h u (List.mem_cons_of_mem t hu)
    simp only [List.map_cons, List.flatMap_cons, List.map_append, List.sum_append, List.sum_cons]
    rw [ht, ← hl, add_add_add_comm]

/-- Everything that has been drawn besides the seed and everything that is left make up the seed. -/
theorem sum_area_grown {seed : Triangle ℝ} (h : seed.Acute) (n : ℕ) :
    ((grown seed n).triangles.tail.map area).sum + ((grown seed n).frontier.map area).sum =
      seed.area := by
  induction n with
  | zero => simp [grown, ofSeed]
  | succ n ih =>
    have hne : (grown seed n).triangles ≠ [] := by
      intro hnil
      have hfirst := (counted_grown seed n).first
      rw [hnil] at hfirst
      cases hfirst
    rw [← ih, ← sum_area_divided fun t ht => (inherits_grown h n t ht).acute, grown,
      triangles_next, frontier_next, List.tail_append_of_ne_nil hne, List.map_append,
      List.sum_append, add_assoc]

/-- **Acute triangles tile.** However often an acute seed is divided, every triangle that is left to
divide is similar to it, vertex by vertex, and so it is acute and has three sides that can be
divided by; the next generation draws a triangle inside it and leaves three corners, and its area is
the sum of their areas. All that is ever drawn and what is left over make up the seed. -/
theorem acute_tiles (seed : Triangle ℝ) (h : seed.Acute) (n : ℕ) :
    (∀ (i : ℕ) (t : Triangle ℝ), (grown seed n).frontier[i]? = some t →
      seed.SimilarTo t ∧ t.Acute ∧
      (t.sides.1 ≠ 0 ∧ t.sides.2.1 ≠ 0 ∧ t.sides.2.2 ≠ 0) ∧
      ∃ drawn atC atB atA : Triangle ℝ,
        (grown seed (n + 1)).triangles[(grown seed n).triangles.length + i]? = some drawn ∧
        (grown seed (n + 1)).frontier[3 * i]? = some atC ∧
        (grown seed (n + 1)).frontier[3 * i + 1]? = some atB ∧
        (grown seed (n + 1)).frontier[3 * i + 2]? = some atA ∧
        t.area = drawn.area + (atC.area + atB.area + atA.area)) ∧
    ((grown seed n).triangles.tail.map area).sum + ((grown seed n).frontier.map area).sum =
      seed.area := by
  refine ⟨fun i t ht => ?_, sum_area_grown h n⟩
  obtain ⟨hsimilar, hacute⟩ := inherits_grown h n t (List.mem_of_getElem? ht)
  have hdivides := (grown seed n).divides
  refine ⟨hsimilar, hacute, hacute.distance_ne_zero, _, _, _, _, (hdivides.draws i).trans ?_,
    (hdivides.cornerC i).trans ?_, (hdivides.cornerB i).trans ?_, (hdivides.cornerA i).trans ?_,
    hacute.area_eq_sum⟩
  · rw [ht]
    rfl
  · rw [ht]
    rfl
  · rw [ht]
    rfl
  · rw [ht]
    rfl

/-- An acute triangle with three different angles. -/
noncomputable def slanted : Triangle ℝ := ⟨⟨0, 0⟩, ⟨4, 0⟩, ⟨1, 3⟩⟩

theorem acute_tiles_slanted :
    slanted.Acute ∧
      (∃ t, (grown slanted 1).frontier[1]? = some t ∧ slanted.SimilarTo t ∧ t.Acute ∧
        t.sides.1 ≠ 0) ∧
      ((grown slanted 2).triangles.tail.map area).sum +
        ((grown slanted 2).frontier.map area).sum = slanted.area := by
  have hacute : slanted.Acute := by
    constructor
    · norm_num [slanted, dotA, Point.corner, dot, Point.place]
    · norm_num [slanted, dotB, Point.corner, dot, Point.place]
    · norm_num [slanted, dotC, Point.corner, dot, Point.place]
  obtain ⟨hsimilar, htacute, ⟨hside, -⟩, -⟩ := (acute_tiles slanted hacute 1).1 1 _ rfl
  exact ⟨hacute, ⟨_, rfl, hsimilar, htacute, hside⟩, (acute_tiles slanted hacute 2).2⟩

end Sierpinski

end Easel
