import Easel.Proofs.Geometry.Inscribed

/-!
# Packings of another size

A similarity takes the circles that fill a gap to the circles that fill its image, if the tolerance
is taken along. The drawing's tolerance stays as it is: that a gasket is seeded with a larger circle
is the same as that it is filled with a smaller tolerance.
-/

namespace Easel

open scoped Exact

variable {o : Point ℝ} {r : ℝ}

namespace Circle

/-- The image of a circle under the similarity that takes the unit circle to the circle of radius
`r` around `o`. -/
noncomputable def scaled (o : Point ℝ) (r : ℝ) (c : Circle ℝ) : Circle ℝ :=
  ⟨⟨o.x + r * c.center.x, o.y + r * c.center.y⟩, r * c.radius, c.curvature / r⟩

theorem place_scaled (c : Circle ℝ) : (c.scaled o r).place = ⟨o.x, o.y⟩ + r * c.place := by
  refine Complex.ext ?_ ?_
  · rw [Complex.add_re, Complex.re_ofReal_mul]
    rfl
  · rw [Complex.add_im, Complex.im_ofReal_mul]
    rfl

theorem dist_scaled (hr : 0 < r) (c d : Circle ℝ) :
    dist (c.scaled o r).place (d.scaled o r).place = r * dist c.place d.place := by
  rw [place_scaled, place_scaled, dist_add_left, Complex.dist_eq, Complex.dist_eq, ← mul_sub,
    norm_mul, Complex.norm_real, Real.norm_of_nonneg hr.le]

theorem isTangentTo_scaled (hr : 0 < r) (c d : Circle ℝ) (ε : ℝ) :
    (c.scaled o r).isTangentTo (d.scaled o r) ε = c.isTangentTo d (ε / r) := by
  have hsum : r * dist c.place d.place - (r * c.radius + r * d.radius) =
      r * (dist c.place d.place - (c.radius + d.radius)) := by
    ring
  have hdifference : r * dist c.place d.place - |r * d.radius - r * c.radius| =
      r * (dist c.place d.place - |d.radius - c.radius|) := by
    rw [← mul_sub, abs_mul, abs_of_pos hr, mul_sub]
  rw [Bool.eq_iff_iff, isTangentTo_iff, isTangentTo_iff, dist_scaled hr]
  simp only [scaled, hsum, hdifference, abs_mul, abs_of_pos hr, lt_div_iff₀' hr]

theorem arm_scaled (hr : 0 < r) (b c : Circle ℝ) :
    (b.scaled o r).arm (c.scaled o r) = b.arm c := by
  have hr' : (r : ℂ) ≠ 0 := Complex.ofReal_ne_zero.2 hr.ne'
  have hk : ((c.scaled o r).curvature : ℂ) = c.curvature / r := Complex.ofReal_div _ _
  rw [arm, arm, place_scaled, place_scaled, hk]
  field_simp
  ring

theorem scaled_ofPlace (hr : 0 < r) (z : ℂ) (k : ℝ) :
    (ofPlace z k).scaled o r = ofPlace (⟨o.x, o.y⟩ + r * z) (k / r) := by
  have hcenter : (⟨o.x + r * z.re, o.y + r * z.im⟩ : Point ℝ) =
      ⟨(⟨o.x, o.y⟩ + r * z : ℂ).re, (⟨o.x, o.y⟩ + r * z : ℂ).im⟩ := by
    rw [Complex.add_re, Complex.add_im, Complex.re_ofReal_mul, Complex.im_ofReal_mul]
  have hradius : r * |1 / k| = |1 / (k / r)| := by
    rw [one_div_div, ← mul_one_div r k, abs_mul, abs_of_pos hr]
  rw [ofPlace, ofPlace, scaled, ofCurvature, ofCurvature]
  simp only [Exact.literal_eq, Exact.abs_eq, Nat.cast_one, hradius, hcenter]

end Circle

namespace Gap

/-- The image of a gap under a similarity. -/
noncomputable def scaled (o : Point ℝ) (r : ℝ) (g : Gap ℝ) : Gap ℝ :=
  ⟨g.first.scaled o r, g.second.scaled o r, g.third.scaled o r⟩

theorem placed_scaled (hr : 0 < r) (g : Gap ℝ) (a : ℂ) (k : ℝ) :
    (g.scaled o r).placed a (k / r) = (g.placed a k).scaled o r := by
  have hfirst : (g.scaled o r).first.place = ⟨o.x, o.y⟩ + r * g.first.place :=
    Circle.place_scaled _
  rw [placed, placed, Circle.scaled_ofPlace hr, hfirst]
  congr 1
  push_cast
  rw [div_div_eq_mul_div]
  ring

theorem candidates_scaled (hr : 0 < r) (g : Gap ℝ) (k : ℝ) :
    (g.scaled o r).candidates (k / r) = (g.candidates k).map (Circle.scaled o r) := by
  rw [candidates_eq_placed, candidates_eq_placed]
  simp only [List.map_cons, List.map_nil, placed_scaled hr]
  simp only [scaled, Circle.arm_scaled hr]

theorem descartes_div (hr : 0 < r) (k₁ k₂ k₃ : ℝ) :
    (descartes (k₁ / r) (k₂ / r) (k₃ / r)).1 = (descartes k₁ k₂ k₃).1 / r := by
  have hproducts : k₁ / r * (k₂ / r) + k₂ / r * (k₃ / r) + k₁ / r * (k₃ / r) =
      (k₁ * k₂ + k₂ * k₃ + k₁ * k₃) / r ^ 2 := by
    field_simp
  have hroot (x : ℝ) : √(max (x / r ^ 2) 0) = √(max x 0) / r := by
    rw [← zero_div (r ^ 2), max_div_div_right (sq_nonneg r), zero_div,
      Real.sqrt_div' _ (sq_nonneg r), Real.sqrt_sq hr.le]
  rw [descartes_eq_sqrt, descartes_eq_sqrt, hproducts, hroot]
  ring

theorem inscribedWithin_scaled (hr : 0 < r) (g : Gap ℝ) (ε : ℝ) :
    (g.scaled o r).inscribedWithin ε = (g.inscribedWithin (ε / r)).map (Circle.scaled o r) := by
  have hcurvature : (descartes (g.scaled o r).first.curvature (g.scaled o r).second.curvature
      (g.scaled o r).third.curvature).1 =
        (descartes g.first.curvature g.second.curvature g.third.curvature).1 / r :=
    descartes_div hr _ _ _
  rw [inscribedWithin, inscribedWithin, hcurvature, candidates_scaled hr, List.filter_map]
  congr 2
  funext c
  simp only [Function.comp_apply, admits, circles, scaled, List.all_cons, List.all_nil,
    Circle.isTangentTo_scaled hr]

end Gap

end Easel
