import Easel.Proofs.Geometry.Growth

/-!
# Every gap is filled

Three circles that touch each other have a circle that touches all of them, and without rounding
`Gap.inscribed` finds it, whichever way the circles lie: with curvatures of any sign, and with their
centres in line or not. The circle is found by its arm from the first of the three
(`Planar.exists_arms`): of the two square roots of the product of their arms, one lies between the
two as the arm has to.

The packing that a gasket starts goes on for ever: in units of the outermost circle its curvatures
are whole numbers that four does not divide (`Gap.Whole`), so that no gap asks for a straight line
in place of a circle.
-/

namespace Easel

open scoped Exact

namespace Planar

variable {q v w : ℂ} {b c t : ℝ}

theorem dot_comm (u v : ℂ) : dot u v = dot v u := by
  rw [dot, dot, mul_comm u.re, mul_comm u.im]

theorem dot_neg_left (u v : ℂ) : dot (-u) v = -dot u v := by
  simp only [dot, Complex.neg_re, Complex.neg_im]
  ring

theorem sq_eq_mul_iff :
    q ^ 2 = v * w ↔ q.re ^ 2 - q.im ^ 2 = v.re * w.re - v.im * w.im ∧
      2 * q.re * q.im = v.re * w.im + v.im * w.re := by
  rw [Complex.ext_iff, pow_two, Complex.mul_re, Complex.mul_im, Complex.mul_re, Complex.mul_im]
  ring_nf

/-- A square root of the product of two vectors halves the angle between them. -/
theorem two_mul_dot_sq (h : q ^ 2 = v * w) :
    2 * dot q v ^ 2 = dot v v * (dot q q + dot v w) := by
  obtain ⟨hre, him⟩ := sq_eq_mul_iff.1 h
  simp only [dot]
  linear_combination (v.re ^ 2 - v.im ^ 2) * hre + 2 * v.re * v.im * him

/-- It is on the same side of both of them. -/
theorem two_mul_dot_mul_dot (h : q ^ 2 = v * w) :
    2 * (dot q v * dot q w) = dot q q * (dot q q + dot v w) := by
  obtain ⟨hre, him⟩ := sq_eq_mul_iff.1 h
  simp only [dot]
  linear_combination -(q.re ^ 2 - q.im ^ 2) * hre - 2 * q.re * q.im * him

theorem dot_self_sq (h : q ^ 2 = v * w) : dot q q ^ 2 = dot v v * dot w w := by
  obtain ⟨hre, him⟩ := sq_eq_mul_iff.1 h
  simp only [dot]
  linear_combination (q.re ^ 2 - q.im ^ 2 + v.re * w.re - v.im * w.im) * hre +
    (2 * q.re * q.im + v.re * w.im + v.im * w.re) * him

section Pair

/-! Two arms `v` and `w` of lengths `b` and `c`. -/

variable (hv : dot v v = b ^ 2) (hw : dot w w = c ^ 2) (hvw : dot v w = b * c - 2)

include hv hw hvw

theorem one_le_mul : 1 ≤ b * c := by
  have harea := cross_mul_cross w v v
  rw [hv, hw, dot_comm w v, hvw] at harea
  have hnonneg := mul_self_nonneg (cross v w)
  linarith

/-- A vector that lies between the arms as a square root of their product does leads to a third
arm. -/
theorem arms_of_between (ht : t ^ 2 = b * c - 1) (hq : dot q q = b * c) (hqv : dot q v = b * t)
    (hqw : dot q w = c * t) :
    Arms (v + w + (q + q)) v w (b + c + 2 * t) b c := by
  simp only [dot] at hv hw hvw hq hqv hqw
  refine ⟨?_, hv, hw, ?_, ?_, hvw⟩ <;> simp only [dot, Complex.add_re, Complex.add_im]
  · linear_combination hv + hw + 2 * hvw + 4 * hq + 4 * hqv + 4 * hqw - 4 * ht
  · linear_combination hv + hvw + 2 * hqv
  · linear_combination hw + hvw + 2 * hqw

section Root

/-! A square root `q` of the product of the arms. -/

variable (h : q ^ 2 = v * w)

include h

theorem dot_self_root : dot q q = b * c := by
  have hbc := one_le_mul hv hw hvw
  have hsq : dot q q ^ 2 = (b * c) ^ 2 := by rw [dot_self_sq h, hv, hw, mul_pow]
  rw [dot_self] at hsq ⊢
  exact (sq_eq_sq₀ (sq_nonneg _) (zero_le_one.trans hbc)).1 hsq

theorem dot_root_sq : dot q v ^ 2 = b ^ 2 * (b * c - 1) := by
  have hdot := two_mul_dot_sq h
  rw [dot_self_root hv hw hvw h, hv, hvw] at hdot
  linarith

/-- Seen from the root, the arms are as far to one side as they are long. -/
theorem mul_dot_root : b * dot q w = c * dot q v := by
  have hqv := dot_root_sq hv hw hvw h
  have hqw := two_mul_dot_sq (h.trans (mul_comm v w))
  have hproduct := two_mul_dot_mul_dot h
  rw [dot_self_root hv hw hvw h, dot_comm w v, hvw, hw] at hqw
  rw [dot_self_root hv hw hvw h, hvw] at hproduct
  -- the square of the difference vanishes
  rw [← sub_eq_zero, ← sq_eq_zero_iff]
  linear_combination b ^ 2 / 2 * hqw + c ^ 2 * hqv - b * c * hproduct

/-- One of the two square roots of the product of two arms leads to a third arm. -/
theorem exists_arms (ht : t ^ 2 = b * c - 1) :
    ∃ p, (p = q ∨ p = -q) ∧ Arms (v + w + (p + p)) v w (b + c + 2 * t) b c := by
  have hb : b ≠ 0 := by
    rintro rfl
    linarith [one_le_mul hv hw hvw]
  have hqq := dot_self_root hv hw hvw h
  have hside := mul_dot_root hv hw hvw h
  have hsq : dot q v ^ 2 = (b * t) ^ 2 := by rw [dot_root_sq hv hw hvw h, mul_pow, ht]
  obtain hplus | hminus := sq_eq_sq_iff_eq_or_eq_neg.1 hsq
  · refine ⟨q, .inl rfl, arms_of_between hv hw hvw ht hqq hplus (mul_left_cancel₀ hb ?_)⟩
    rw [hside, hplus]
    ring
  · refine ⟨-q, .inr rfl, arms_of_between hv hw hvw ht ?_ ?_ (mul_left_cancel₀ hb ?_)⟩
    · rw [dot_neg_left, dot_comm, dot_neg_left, neg_neg, hqq]
    · rw [dot_neg_left, hminus, neg_neg]
    · rw [dot_neg_left, mul_neg, hside, hminus]
      ring

end Root

end Pair

end Planar

open Planar

namespace Gap

variable {g g' : Gap ℝ} {c : Circle ℝ}

/-- The sum of the products of two curvatures each, which Descartes' theorem takes the root of. -/
noncomputable def radicand (g : Gap ℝ) : ℝ :=
  g.first.curvature * g.second.curvature + g.second.curvature * g.third.curvature +
    g.first.curvature * g.third.curvature

/-- Both curvatures that Descartes' theorem gives, the larger first. -/
noncomputable def roots (g : Gap ℝ) : ℝ × ℝ :=
  descartes g.first.curvature g.second.curvature g.third.curvature

/-- The circles of the gap have the radii that belong to their curvatures, and touch each other by
them. -/
structure Touching (g : Gap ℝ) : Prop where
  proper : ∀ c ∈ g.circles, c.Proper
  curved : ∀ c ∈ g.circles, c.curvature ≠ 0
  touches : g.circles.Pairwise Circle.Touches

/-- Circles of three curvatures around three points touch if the distances of the points say so. -/
theorem touching_ofPlace {z₁ z₂ z₃ : ℂ} {k₁ k₂ k₃ : ℝ} (h₁ : k₁ ≠ 0) (h₂ : k₂ ≠ 0) (h₃ : k₃ ≠ 0)
    (h₁₂ : dot (z₁ - z₂) (z₁ - z₂) = (1 / k₁ + 1 / k₂) ^ 2)
    (h₁₃ : dot (z₁ - z₃) (z₁ - z₃) = (1 / k₁ + 1 / k₃) ^ 2)
    (h₂₃ : dot (z₂ - z₃) (z₂ - z₃) = (1 / k₂ + 1 / k₃) ^ 2) :
    (⟨.ofPlace z₁ k₁, .ofPlace z₂ k₂, .ofPlace z₃ k₃⟩ : Gap ℝ).Touching where
  proper := forall_mem_circles.2 ⟨Circle.proper_ofCurvature _ _ _, Circle.proper_ofCurvature _ _ _,
    Circle.proper_ofCurvature _ _ _⟩
  curved := forall_mem_circles.2 ⟨h₁, h₂, h₃⟩
  touches := pairwise_circles.2 ⟨Circle.touches_iff.2 h₁₂, Circle.touches_iff.2 h₁₃,
    Circle.touches_iff.2 h₂₃⟩

theorem roots_eq (g : Gap ℝ) :
    g.roots = (g.bend + 2 * √(max g.radicand 0), g.bend - 2 * √(max g.radicand 0)) := by
  rw [roots, descartes_eq_sqrt, bend, radicand]

/-- The candidates are two circles of the curvature asked for. -/
theorem eq_placed_of_mem_candidates {k : ℝ} (h : c ∈ g.candidates k) :
    ∃ a, c = g.placed a k := by
  rw [candidates_eq_placed, List.mem_pair] at h
  exact h.elim (fun h => ⟨_, h⟩) fun h => ⟨_, h⟩

theorem curvature_of_mem_inscribed (h : c ∈ g.inscribed) : c.curvature = g.roots.1 := by
  obtain ⟨a, rfl⟩ := eq_placed_of_mem_candidates (List.mem_filter.1 h).1
  rfl

theorem proper_of_mem_inscribed (h : c ∈ g.inscribed) : c.Proper := by
  obtain ⟨a, rfl⟩ := eq_placed_of_mem_candidates (List.mem_filter.1 h).1
  exact g.proper_placed _ _

namespace Touching

theorem arms (h : g.Touching) :
    dot (g.first.arm g.second) (g.first.arm g.second) = g.first.reach g.second ^ 2 ∧
      dot (g.first.arm g.third) (g.first.arm g.third) = g.first.reach g.third ^ 2 ∧
      dot (g.first.arm g.second) (g.first.arm g.third) =
        g.first.reach g.second * g.first.reach g.third - 2 := by
  obtain ⟨h₁, h₂, h₃⟩ := forall_mem_circles.1 h.curved
  obtain ⟨h₁₂, h₁₃, h₂₃⟩ := pairwise_circles.1 h.touches
  exact ⟨(Circle.touches_iff_dot_arm h₂ h₁).1 h₁₂.symm,
    (Circle.touches_iff_dot_arm h₃ h₁).1 h₁₃.symm,
    (Circle.touches_iff_dot_arms h₁ h₂ h₃ h₁₂.symm h₁₃.symm).1 h₂₃⟩

theorem reach_mul_reach (h : g.Touching) :
    g.first.reach g.second * g.first.reach g.third - 1 = g.radicand / g.first.curvature ^ 2 := by
  obtain ⟨h₁, -⟩ := forall_mem_circles.1 h.curved
  rw [Circle.reach, Circle.reach, radicand]
  field_simp
  ring

theorem radicand_nonneg (h : g.Touching) : 0 ≤ g.radicand := by
  obtain ⟨h₁, -⟩ := forall_mem_circles.1 h.curved
  obtain ⟨hv, hw, hvw⟩ := h.arms
  have hle := sub_nonneg.2 (one_le_mul hv hw hvw)
  rwa [h.reach_mul_reach, le_div_iff₀ (by positivity), zero_mul] at hle

/-- Both curvatures solve Descartes' equation. -/
theorem descartes (h : g.Touching) {k : ℝ} (hk : k = g.roots.1 ∨ k = g.roots.2) :
    (g.bend + k) ^ 2 = 2 * (g.first.curvature ^ 2 + g.second.curvature ^ 2 +
      g.third.curvature ^ 2 + k ^ 2) := by
  have hsq := Real.sq_sqrt h.radicand_nonneg
  rw [roots_eq, max_eq_left h.radicand_nonneg] at hk
  rw [radicand] at hsq hk
  rw [bend] at hk ⊢
  rcases hk with rfl | rfl
  · linear_combination -4 * hsq
  · linear_combination -4 * hsq

/-- A circle whose arm completes those of the gap touches all three circles. -/
theorem touches_of_arms (h : g.Touching) (hk : c.curvature ≠ 0)
    (harms : Arms (g.first.arm c) (g.first.arm g.second) (g.first.arm g.third) (g.first.reach c)
      (g.first.reach g.second) (g.first.reach g.third)) :
    ∀ d ∈ g.circles, c.Touches d := by
  obtain ⟨h₁, h₂, h₃⟩ := forall_mem_circles.1 h.curved
  obtain ⟨h₁₂, h₁₃, -⟩ := pairwise_circles.1 h.touches
  have hfirst : c.Touches g.first := (Circle.touches_iff_dot_arm hk h₁).2 harms.first
  have hsecond : c.Touches g.second :=
    (Circle.touches_iff_dot_arms h₁ hk h₂ hfirst h₁₂.symm).2 harms.first_second
  have hthird : c.Touches g.third :=
    (Circle.touches_iff_dot_arms h₁ hk h₃ hfirst h₁₃.symm).2 harms.first_third
  exact forall_mem_circles.2 ⟨hfirst, hsecond, hthird⟩

/-- The reach of a circle of the larger curvature. -/
theorem reach_eq (h : g.Touching) (hk : c.curvature = g.roots.1) :
    g.first.reach c = g.first.reach g.second + g.first.reach g.third +
      2 * (√g.radicand / g.first.curvature) := by
  obtain ⟨h₁, -⟩ := forall_mem_circles.1 h.curved
  rw [Circle.reach, hk, roots_eq, max_eq_left h.radicand_nonneg, bend, Circle.reach, Circle.reach]
  field_simp
  ring

/-- One candidate of the larger curvature touches all three circles. -/
theorem exists_candidate (h : g.Touching) (hk : g.roots.1 ≠ 0) :
    ∃ c ∈ g.candidates g.roots.1, ∀ d ∈ g.circles, c.Touches d := by
  obtain ⟨hv, hw, hvw⟩ := h.arms
  have hsq : (√g.radicand / g.first.curvature) ^ 2 =
      g.first.reach g.second * g.first.reach g.third - 1 := by
    rw [div_pow, Real.sq_sqrt h.radicand_nonneg, h.reach_mul_reach]
  obtain ⟨p, hp, harms⟩ := exists_arms hv hw hvw (Complex.root_sq _) hsq
  refine ⟨g.placed (g.first.arm g.second + g.first.arm g.third + (p + p)) g.roots.1, ?_,
    h.touches_of_arms hk ?_⟩
  · rw [candidates_eq_placed, List.mem_pair]
    refine hp.imp (fun hp => ?_) fun hp => ?_
    · rw [hp, mul_two]
    · rw [hp, mul_two, ← neg_add, ← sub_eq_add_neg]
  · rwa [g.arm_placed _ hk, h.reach_eq rfl]

/-- The gap is filled. -/
theorem exists_inscribed (h : g.Touching) (hk : g.roots.1 ≠ 0) :
    ∃ c ∈ g.inscribed, ∀ d ∈ g.circles, c.Touches d := by
  obtain ⟨c, hmem, htouches⟩ := h.exists_candidate hk
  refine ⟨c, List.mem_filter.2 ⟨hmem, List.all_eq_true.2 fun d hd => ?_⟩, htouches⟩
  obtain ⟨a, rfl⟩ := eq_placed_of_mem_candidates hmem
  exact ((htouches d hd).contact (g.proper_placed _ _) (h.proper d hd)).isTangentTo
    Gasket.tangencyTolerance_pos

/-- A circle that touches those of the gap leaves gaps between circles that touch. -/
theorem around (h : g.Touching) (hk : g.roots.1 ≠ 0) (hc : c ∈ g.inscribed)
    (htouches : ∀ d ∈ g.circles, c.Touches d) (hg' : g' ∈ g.around c) : g'.Touching where
  proper d hd := by
    rcases (of_mem_around hg').2 d hd with rfl | hd
    · exact proper_of_mem_inscribed hc
    · exact h.proper d hd
  curved d hd := by
    rcases (of_mem_around hg').2 d hd with rfl | hd
    · rwa [curvature_of_mem_inscribed hc]
    · exact h.curved d hd
  touches := pairwise_of_mem_around h.touches htouches hg'

end Touching

end Gap

/-! ## The curvatures of a packing -/

/-- Four whole numbers that Descartes' equation ties together, none of them divisible by four. -/
structure Quadruple (a b c d : ℤ) : Prop where
  equation : (a + b + c + d) ^ 2 = 2 * (a ^ 2 + b ^ 2 + c ^ 2 + d ^ 2)
  first : ¬4 ∣ a
  second : ¬4 ∣ b
  third : ¬4 ∣ c
  fourth : ¬4 ∣ d

namespace Quadruple

variable {a b c d : ℤ}

theorem two_dvd_sum (h : Quadruple a b c d) : 2 ∣ a + b + c + d :=
  Int.prime_two.dvd_of_dvd_pow (Dvd.intro _ h.equation.symm)

/-- The other solution of the equation for the last number. -/
theorem reflect (h : Quadruple a b c d) : Quadruple a b c (2 * (a + b + c) - d) where
  equation := by linear_combination h.equation
  first := h.first
  second := h.second
  third := h.third
  fourth := by
    -- it differs from `d` by twice an even number less four times `d`
    have hsum := h.two_dvd_sum
    have hd := h.fourth
    omega

theorem rotate (h : Quadruple a b c d) : Quadruple d a b c where
  equation := by linear_combination h.equation
  first := h.fourth
  second := h.first
  third := h.second
  fourth := h.third

theorem swap (h : Quadruple a b c d) : Quadruple a b d c where
  equation := by linear_combination h.equation
  first := h.first
  second := h.second
  third := h.fourth
  fourth := h.third

theorem exchange (h : Quadruple a b c d) : Quadruple d b c a where
  equation := by linear_combination h.equation
  first := h.fourth
  second := h.second
  third := h.third
  fourth := h.first

end Quadruple

namespace Gap

variable {g g' : Gap ℝ} {c : Circle ℝ} {r : ℝ}

/-- In units of `1 / r` the curvatures around the gap are three numbers of a quadruple. -/
def Whole (r : ℝ) (g : Gap ℝ) : Prop :=
  ∃ a b c d : ℤ, Quadruple a b c d ∧ g.first.curvature = a / r ∧ g.second.curvature = b / r ∧
    g.third.curvature = c / r

namespace Whole

/-- The curvature that fills the gap is the fourth number of a quadruple. -/
theorem exists_root (h : g.Whole r) :
    ∃ a b c d : ℤ, Quadruple a b c d ∧ g.first.curvature = a / r ∧ g.second.curvature = b / r ∧
      g.third.curvature = c / r ∧ g.roots.1 = d / r := by
  obtain ⟨a, b, c, d, hq, h₁, h₂, h₃⟩ := h
  have hequation := congrArg ((↑) : ℤ → ℝ) hq.equation
  push_cast at hequation
  have hradicand : g.radicand = ((a + b + c - d) / (2 * r)) ^ 2 := by
    rw [radicand, h₁, h₂, h₃]
    linear_combination r⁻¹ ^ 2 / 4 * hequation
  have hroot : g.roots.1 = (a + b + c) / r + 2 * |((a + b + c - d) / (2 * r) : ℝ)| := by
    rw [roots_eq, hradicand, max_eq_left (sq_nonneg _), Real.sqrt_sq_eq_abs, bend, h₁, h₂, h₃]
    ring
  rcases abs_choice ((a + b + c - d) / (2 * r) : ℝ) with habs | habs
  · refine ⟨a, b, c, 2 * (a + b + c) - d, hq.reflect, h₁, h₂, h₃, ?_⟩
    rw [hroot, habs]
    push_cast
    ring
  · refine ⟨a, b, c, d, hq, h₁, h₂, h₃, ?_⟩
    rw [hroot, habs]
    ring

theorem root_ne_zero (h : g.Whole r) (hr : r ≠ 0) : g.roots.1 ≠ 0 := by
  obtain ⟨a, b, c, d, hq, -, -, -, hroot⟩ := h.exists_root
  have hd : d ≠ 0 := by
    rintro rfl
    exact hq.fourth (dvd_zero 4)
  rw [hroot]
  exact div_ne_zero (Int.cast_ne_zero.2 hd) hr

theorem around (h : g.Whole r) (hc : c ∈ g.inscribed) (hg' : g' ∈ g.around c) : g'.Whole r := by
  obtain ⟨a₁, a₂, a₃, k, hq, h₁, h₂, h₃, hk⟩ := h.exists_root
  rw [← curvature_of_mem_inscribed hc] at hk
  simp only [Gap.around, List.mem_cons, List.not_mem_nil, or_false] at hg'
  rcases hg' with rfl | rfl | rfl
  · exact ⟨k, a₁, a₂, a₃, hq.rotate, hk, h₁, h₂⟩
  · exact ⟨k, a₂, a₃, a₁, hq.exchange, hk, h₂, h₃⟩
  · exact ⟨k, a₁, a₃, a₂, hq.rotate.swap, hk, h₁, h₃⟩

end Whole

end Gap

namespace Gasket

theorem whole_seed (o : Point ℝ) (r : ℝ) : (seed o r).Whole r := by
  rw [Gap.seed_eq]
  refine ⟨-1, 2, 2, 3, ⟨by norm_num, by decide, by decide, by decide, by decide⟩, ?_, ?_, ?_⟩
  · push_cast
    rfl
  · push_cast
    rfl
  · push_cast
    rfl

/-- In units of the outermost circle, the curvatures of a gasket are whole numbers. -/
theorem whole_grown (o : Point ℝ) (r : ℝ) (n : ℕ) :
    ∀ g ∈ (grown o r n).frontier, g.Whole r :=
  forall_mem_frontier_grown (whole_seed o r) Gap.Whole.around n

theorem touching_seed (o : Point ℝ) {r : ℝ} (hr : r ≠ 0) : (seed o r).Touching := by
  have hside (x y : ℝ) : dot (⟨x, o.y⟩ - ⟨y, o.y⟩) (⟨x, o.y⟩ - ⟨y, o.y⟩) = (x - y) ^ 2 := by
    simp only [dot, Complex.sub_re, Complex.sub_im]
    ring
  rw [Gap.seed_eq]
  refine Gap.touching_ofPlace (div_ne_zero (neg_ne_zero.2 one_ne_zero) hr)
    (div_ne_zero two_ne_zero hr) (div_ne_zero two_ne_zero hr) ?_ ?_ ?_
  · rw [hside]
    field_simp
    ring
  · rw [hside]
    field_simp
    ring
  · rw [hside]
    field_simp
    ring

/-- **Every gap is filled.** For three circles that touch each other, whatever the signs of their
curvatures, Descartes' theorem takes the root of a number that is not negative, both its curvatures
solve the equation, and unless the larger one is zero a circle of this curvature that touches all
three fills the gap. In a gasket it never is zero: in every generation every open gap between
circles that touch is filled, and between the circle that fills it and those around it there are
again such gaps, which the next generation fills. -/
theorem gaps_filled :
    (∀ g : Gap ℝ, g.Touching →
      0 ≤ g.radicand ∧
      (∀ k, k = g.roots.1 ∨ k = g.roots.2 →
        (g.bend + k) ^ 2 = 2 * (g.first.curvature ^ 2 + g.second.curvature ^ 2 +
          g.third.curvature ^ 2 + k ^ 2)) ∧
      (g.roots.1 ≠ 0 →
        ∃ c ∈ g.inscribed, c.curvature = g.roots.1 ∧ ∀ d ∈ g.circles, c.Touches d)) ∧
    ∀ (o : Point ℝ) (r : ℝ), r ≠ 0 →
      (seed o r).Touching ∧ ∀ n, ∀ g ∈ (grown o r n).frontier, g.Touching →
        ∃ c ∈ g.inscribed, (∀ d ∈ g.circles, c.Touches d) ∧
          ∀ g' ∈ g.around c, g' ∈ (grown o r (n + 1)).frontier ∧ g'.Touching := by
  constructor
  · intro g h
    refine ⟨h.radicand_nonneg, fun k => h.descartes, fun hk => ?_⟩
    obtain ⟨c, hc, htouches⟩ := h.exists_inscribed hk
    exact ⟨c, hc, Gap.curvature_of_mem_inscribed hc, htouches⟩
  · intro o r hr
    refine ⟨touching_seed o hr, fun n g hg h => ?_⟩
    have hk := (whole_grown o r n g hg).root_ne_zero hr
    obtain ⟨c, hc, htouches⟩ := h.exists_inscribed hk
    refine ⟨c, hc, htouches, fun g' hg' => ⟨?_, h.around hk hc htouches hg'⟩⟩
    exact mem_frontier_next.2 ⟨g, hg, c, hc, hg'⟩

/-- A circle around two others of different sizes, whose centres are not in line. -/
noncomputable def lopsided : Gap ℝ :=
  ⟨.ofPlace 0 (-1), .ofPlace ⟨1 / 2, 0⟩ 2, .ofPlace ⟨0, 2 / 3⟩ 3⟩

theorem gaps_filled_lopsided :
    lopsided.Touching ∧ lopsided.roots = (6, 2) ∧
      (∃ c ∈ lopsided.inscribed, c.curvature = 6 ∧ ∀ d ∈ lopsided.circles, c.Touches d) ∧
      (1 : ℝ) ≠ 0 ∧ (seed (⟨0, 0⟩ : Point ℝ) 1).Touching ∧
      ∃ c ∈ (seed (⟨0, 0⟩ : Point ℝ) 1).inscribed,
        ∀ d ∈ (seed (⟨0, 0⟩ : Point ℝ) 1).circles, c.Touches d := by
  have htouching : lopsided.Touching := by
    refine Gap.touching_ofPlace (by norm_num) (by norm_num) (by norm_num) ?_ ?_ ?_
    · norm_num [dot]
    · norm_num [dot]
    · norm_num [dot]
  have hroots : lopsided.roots = (6, 2) := by
    rw [Gap.roots_eq]
    norm_num [Gap.bend, Gap.radicand, lopsided]
  have hlarger : lopsided.roots.1 ≠ 0 := by rw [hroots]; norm_num
  obtain ⟨hgap, hgasket⟩ := gaps_filled
  obtain ⟨hseed, hfilled⟩ := hgasket ⟨0, 0⟩ 1 one_ne_zero
  obtain ⟨c, hc, htouches, -⟩ := hfilled 0 _ (List.mem_singleton.2 rfl) hseed
  refine ⟨htouching, hroots, ?_, one_ne_zero, hseed, c, hc, htouches⟩
  have hinscribed := (hgap lopsided htouching).2.2 hlarger
  rwa [hroots] at hinscribed

end Gasket

end Easel
