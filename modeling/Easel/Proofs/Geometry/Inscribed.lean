import Easel.Proofs.Geometry.Descartes
import Easel.Proofs.Number.Exact
import Easel.Geometry.Gasket

/-!
# The circles in a gap

What `Gap.inscribed` finds when nothing is rounded. The three circles of a gap and the one on its
other side, the companion, are four circles that meet each other. The complex square root gives two
candidates: the circle opposite to the companion, which fills the gap, and one that has its size but
not its place. The tolerance has to tell them apart, and one that is small enough does.
-/

namespace Easel

open scoped Exact
open Planar

namespace Circle

/-- The radius is the one that belongs to the curvature. -/
def Proper (c : Circle ℝ) : Prop := c.radius = |1 / c.curvature|

/-- The circle of curvature `k` around a point given as a complex number. -/
noncomputable def ofPlace (z : ℂ) (k : ℝ) : Circle ℝ := ofCurvature z.re z.im k

@[simp] theorem place_ofPlace (z : ℂ) (k : ℝ) : (ofPlace z k).place = z := rfl

@[simp] theorem curvature_ofPlace (z : ℂ) (k : ℝ) : (ofPlace z k).curvature = k := rfl

theorem proper_ofCurvature (x y k : ℝ) : (ofCurvature x y k).Proper := by
  rw [Proper]
  simp only [ofCurvature, Exact.literal_eq, Exact.abs_eq, Nat.cast_one]

theorem distance_eq (c d : Circle ℝ) : c.center.distance d.center = dist c.place d.place := by
  rw [dist_comm, Complex.dist_eq, Complex.norm_def, Complex.normSq_apply]
  rfl

/-- Circles that touch, by their radii. -/
def Contact (c d : Circle ℝ) : Prop :=
  dist c.place d.place = c.radius + d.radius ∨ dist c.place d.place = |d.radius - c.radius|

variable {c d : Circle ℝ} {ε : ℝ}

theorem isTangentTo_iff :
    c.isTangentTo d ε = true ↔
      |dist c.place d.place - (c.radius + d.radius)| < ε ∨
        |dist c.place d.place - (|d.radius - c.radius|)| < ε := by
  rw [← distance_eq]
  simp only [isTangentTo, Bool.or_eq_true, decide_eq_true_eq, Exact.abs_eq]

theorem Contact.isTangentTo (h : c.Contact d) (hε : 0 < ε) : c.isTangentTo d ε = true := by
  rw [isTangentTo_iff]
  obtain h | h := h
  · left
    rwa [h, sub_self, abs_zero]
  · right
    rwa [h, sub_self, abs_zero]

/-- Circles that do not touch are told apart by a tolerance that is small enough. -/
theorem exists_isTangentTo_eq_false (h : ¬c.Contact d) :
    ∃ ε₀ > 0, ∀ ε ≤ ε₀, c.isTangentTo d ε = false := by
  rw [Contact, not_or, ← sub_eq_zero, ← ne_eq, ← abs_pos, ← sub_eq_zero (b := |_|), ← ne_eq,
    ← abs_pos] at h
  refine ⟨_, lt_min h.1 h.2, fun ε hε => ?_⟩
  rw [← Bool.not_eq_true, isTangentTo_iff, not_or, not_lt, not_lt]
  exact le_min_iff.1 hε

/-- A tolerance that is large enough takes any two circles to touch. -/
theorem exists_isTangentTo (c d : Circle ℝ) : ∃ ε₁, ∀ ε > ε₁, c.isTangentTo d ε = true :=
  ⟨_, fun _ hε => isTangentTo_iff.2 (.inl hε)⟩

theorem abs_add_eq (x y : ℝ) : |x + y| = |x| + |y| ∨ |x + y| = |(|y| - |x|)| := by
  rcases le_total 0 x with hx | hx <;> rcases le_total 0 y with hy | hy
  · exact .inl (abs_add_eq_add_abs_iff x y |>.2 (.inl ⟨hx, hy⟩))
  · right
    rw [abs_of_nonneg hx, abs_of_nonpos hy, ← abs_neg]
    congr 1
    ring
  · right
    rw [abs_of_nonpos hx, abs_of_nonneg hy]
    congr 1
    ring
  · exact .inl (abs_add_eq_add_abs_iff x y |>.2 (.inr ⟨hx, hy⟩))

/-- Circles whose curvatures say that they touch do so by their radii. -/
theorem Touches.contact (h : c.Touches d) (hc : c.Proper) (hd : d.Proper) : c.Contact d := by
  have htouches : dist c.place d.place = _ := h
  rw [Contact, htouches, hc, hd]
  exact abs_add_eq _ _

theorem sq_eq_of_abs {x k l : ℝ} (h : x = |k| + |l| ∨ x = |(|l| - |k|)|) :
    x ^ 2 = (k + l) ^ 2 ∨ x ^ 2 = (k - l) ^ 2 := by
  have hsq : x ^ 2 = (|k| + |l|) ^ 2 ∨ x ^ 2 = (|l| - |k|) ^ 2 :=
    h.imp (fun h => by rw [h]) fun h => by rw [h, sq_abs]
  rcases abs_choice k with hk | hk <;> rcases abs_choice l with hl | hl <;> rw [hk, hl] at hsq
  · exact hsq.imp_right fun h => h.trans (by ring)
  · exact (hsq.imp (fun h => h.trans (by ring)) fun h => h.trans (by ring)).symm
  · exact (hsq.imp (fun h => h.trans (by ring)) fun h => h.trans (by ring)).symm
  · exact hsq.imp (fun h => h.trans (by ring)) fun h => h.trans (by ring)

/-- Of circles that touch in whatever way, the distance of the centres is the sum or the difference
of the inverse curvatures. -/
theorem Contact.dot_sub (h : c.Contact d) (hc : c.Proper) (hd : d.Proper) :
    dot (c.place - d.place) (c.place - d.place) = (1 / c.curvature + 1 / d.curvature) ^ 2 ∨
      dot (c.place - d.place) (c.place - d.place) = (1 / c.curvature - 1 / d.curvature) ^ 2 := by
  rw [dot_self, ← Complex.dist_eq]
  rw [Contact, hc, hd] at h
  exact sq_eq_of_abs h

end Circle

namespace Gap

theorem forall_mem_circles {α : Type} {g : Gap α} {p : Circle α → Prop} :
    (∀ c ∈ g.circles, p c) ↔ p g.first ∧ p g.second ∧ p g.third := by
  simp [circles]

theorem pairwise_circles {α : Type} {g : Gap α} {R : Circle α → Circle α → Prop} :
    g.circles.Pairwise R ↔ R g.first g.second ∧ R g.first g.third ∧ R g.second g.third := by
  simp [circles, and_assoc]

/-- The circle of curvature `k` whose arm from the first circle of the gap is `a`. -/
noncomputable def placed (g : Gap ℝ) (a : ℂ) (k : ℝ) : Circle ℝ :=
  .ofPlace (a / k + g.first.place) k

theorem value_zero : (⟨0, 0⟩ : Complex ℝ).value = 0 := rfl

theorem value_center (c : Circle ℝ) : (⟨c.center.x, c.center.y⟩ : Complex ℝ).value = c.place := rfl

/-- The candidates lie a square root away from the sum of the arms. -/
theorem candidates_eq_placed (g : Gap ℝ) (k : ℝ) :
    g.candidates k =
      [g.placed (g.first.arm g.second + g.first.arm g.third +
          Complex.root (g.first.arm g.second * g.first.arm g.third) * 2) k,
        g.placed (g.first.arm g.second + g.first.arm g.third -
          Complex.root (g.first.arm g.second * g.first.arm g.third) * 2) k] := by
  have hofCurvature (z : Complex ℝ) : Circle.ofCurvature z.re z.im k = .ofPlace z.value k := rfl
  have hproduct : g.first.arm g.second * g.first.arm g.third =
      (g.second.place - g.first.place) * (g.third.place - g.first.place) *
        (g.second.curvature * g.third.curvature : ℝ) := by
    rw [Circle.arm, Circle.arm]
    push_cast
    ring
  rw [hproduct]
  simp only [candidates, List.map_cons, List.map_nil, hofCurvature, placed, Exact.literal_eq,
    Nat.cast_zero, Complex.value_add, Complex.value_sub, Complex.value_shrink, Complex.value_scale,
    Complex.value_sqrt, Complex.value_mul, value_center, value_zero, zero_mul, zero_add, add_zero,
    Circle.arm]
  push_cast
  rfl

theorem descartes_eq_sqrt (k₁ k₂ k₃ : ℝ) :
    descartes k₁ k₂ k₃ = (k₁ + k₂ + k₃ + 2 * √(max (k₁ * k₂ + k₂ * k₃ + k₁ * k₃) 0),
      k₁ + k₂ + k₃ - 2 * √(max (k₁ * k₂ + k₂ * k₃ + k₁ * k₃) 0)) := by
  simp only [descartes, Exact.literal_eq, Exact.larger_eq, Exact.sqrt_eq]
  push_cast
  rfl

/-- The sum of the curvatures around the gap. -/
noncomputable def bend (g : Gap ℝ) : ℝ := g.first.curvature + g.second.curvature + g.third.curvature

/-- The circles of the gap touch each other, and `c` touches all of them. It is not too small to lie
on the other side of the gap. -/
structure Companion (g : Gap ℝ) (c : Circle ℝ) : Prop where
  proper : ∀ d ∈ g.circles, d.Proper
  quartet : Circle.Quartet c g.first g.second g.third
  le : c.curvature ≤ g.bend

/-- The circle that fills the gap, opposite to `c`. -/
noncomputable def opposite (g : Gap ℝ) (c : Circle ℝ) : Circle ℝ :=
  g.placed ((g.first.arm g.second + g.first.arm g.third) +
    (g.first.arm g.second + g.first.arm g.third) - g.first.arm c) (g.bend + g.bend - c.curvature)

/-- The other candidate: it has the arm of `c`, but the curvature of the circle that fills the
gap. -/
noncomputable def ghost (g : Gap ℝ) (c : Circle ℝ) : Circle ℝ :=
  g.placed (g.first.arm c) (g.bend + g.bend - c.curvature)

variable {g : Gap ℝ} {c : Circle ℝ} {ε : ℝ}

theorem arm_placed (g : Gap ℝ) (a : ℂ) {k : ℝ} (hk : k ≠ 0) : g.first.arm (g.placed a k) = a := by
  have hk' : (k : ℂ) ≠ 0 := Complex.ofReal_ne_zero.2 hk
  rw [Circle.arm, placed, Circle.place_ofPlace, Circle.curvature_ofPlace, add_sub_cancel_right,
    div_mul_cancel₀ _ hk']

theorem proper_placed (g : Gap ℝ) (a : ℂ) (k : ℝ) : (g.placed a k).Proper :=
  Circle.proper_ofCurvature _ _ _

/-- A gap that one circle fills. In the first gap of a gasket the companion fills the gap as well:
its curvature is the sum of the others. -/
def Regular (g : Gap ℝ) : Prop := ∃ c, g.Companion c ∧ c.curvature < g.bend

theorem regular_of_quartet {c c₁ c₂ c₃ : Circle ℝ} (h₁ : c₁.Proper) (h₂ : c₂.Proper)
    (h₃ : c₃.Proper) (h : Circle.Quartet c c₁ c₂ c₃)
    (hlt : c.curvature < c₁.curvature + c₂.curvature + c₃.curvature) :
    (⟨c₁, c₂, c₃⟩ : Gap ℝ).Regular := by
  exact ⟨c, ⟨forall_mem_circles.2 ⟨h₁, h₂, h₃⟩, h, hlt.le⟩, hlt⟩

namespace Companion

theorem bend_pos (h : g.Companion c) : 0 < g.bend := by
  have h₁₂ := h.quartet.one_two.positive
  have h₁₃ := h.quartet.one_three.positive
  have h₂₃ := h.quartet.two_three.positive
  rw [bend]
  linarith

/-- The curvature of the circle that fills the gap. -/
theorem curvature_pos (h : g.Companion c) : 0 < g.bend + g.bend - c.curvature := by
  have hbend := h.bend_pos
  linarith [h.le]

theorem opposite (h : g.Companion c) :
    Circle.Opposite c (g.opposite c) g.first g.second g.third where
  curvature := by
    rw [Gap.opposite, placed, Circle.curvature_ofPlace, bend]
    ring
  moment := by
    have harm := g.arm_placed ((g.first.arm g.second + g.first.arm g.third) +
      (g.first.arm g.second + g.first.arm g.third) - g.first.arm c) h.curvature_pos.ne'
    rw [← Gap.opposite] at harm
    have hk : (g.opposite c).curvature = g.bend + g.bend - c.curvature := rfl
    have hk' := congrArg ((↑) : ℝ → ℂ) hk
    rw [bend] at hk'
    push_cast at hk'
    simp only [Circle.arm] at harm
    linear_combination harm + g.first.place * hk'

/-- The curvature that Descartes' theorem gives is that of the circle opposite to `c`. -/
theorem descartes_eq (h : g.Companion c) :
    (descartes g.first.curvature g.second.curvature g.third.curvature).1 =
      g.bend + g.bend - c.curvature := by
  have hroot : √(max (g.first.curvature * g.second.curvature +
      g.second.curvature * g.third.curvature + g.first.curvature * g.third.curvature) 0) =
        (g.bend - c.curvature) / 2 := by
    have hd := h.quartet.descartes
    rw [← bend] at hd
    have hsq : g.first.curvature * g.second.curvature + g.second.curvature * g.third.curvature +
        g.first.curvature * g.third.curvature = ((g.bend - c.curvature) / 2) ^ 2 := by
      linear_combination -hd / 4
    rw [hsq, max_eq_left (sq_nonneg _), Real.sqrt_sq (by linarith [h.le])]
  rw [descartes_eq_sqrt, hroot, bend]
  ring

/-- One candidate fills the gap. -/
theorem candidates_eq (h : g.Companion c) :
    g.candidates (g.bend + g.bend - c.curvature) = [g.opposite c, g.ghost c] ∨
      g.candidates (g.bend + g.bend - c.curvature) = [g.ghost c, g.opposite c] := by
  have hroot : (Complex.root (g.first.arm g.second * g.first.arm g.third) * 2) ^ 2 =
      (g.first.arm c - (g.first.arm g.second + g.first.arm g.third)) ^ 2 := by
    rw [mul_pow, Complex.root_sq, h.quartet.complex_descartes]
    ring
  rw [candidates_eq_placed, Gap.opposite, ghost]
  obtain hroot | hroot := sq_eq_sq_iff_eq_or_eq_neg.1 hroot
  · right
    rw [hroot, add_sub_cancel, sub_sub_eq_add_sub]
  · left
    rw [hroot, neg_sub, add_sub_assoc', sub_sub_self]

/-- The circle that fills the gap touches the circles around it. -/
theorem contact (h : g.Companion c) {d : Circle ℝ} (hd : d ∈ g.circles) :
    (g.opposite c).Contact d := by
  have hproper := h.proper d hd
  have ho := h.opposite
  have hq := h.quartet
  have hle := h.le
  rw [bend] at hle
  have hmeets : (g.opposite c).Meets d := by
    simp only [circles, List.mem_cons, List.not_mem_nil, or_false] at hd
    obtain rfl | rfl | rfl := hd
    · exact ho.meets hq hle
    · exact ho.rotate.meets hq.rotate (by linarith)
    · exact ho.rotate.rotate.meets hq.rotate.rotate (by linarith)
  exact hmeets.touches.contact (g.proper_placed _ _) hproper

/-- The gaps left around the circle that fills a gap are regular: of the three circles around it,
each is the companion of the gap that lacks it. -/
theorem regular_of_mem_around (h : g.Companion c) {g' : Gap ℝ}
    (hg' : g' ∈ g.around (g.opposite c)) : g'.Regular := by
  obtain ⟨hfirst, hsecond, hthird⟩ := forall_mem_circles.1 h.proper
  have ho := h.opposite
  have hq := h.quartet
  have hle := h.le
  rw [bend] at hle
  have hleft : c.curvature ≤ g.second.curvature + g.third.curvature + g.first.curvature := by
    linarith
  have hright : c.curvature ≤ g.third.curvature + g.first.curvature + g.second.curvature := by
    linarith
  have hfilling : (g.opposite c).Proper := g.proper_placed _ _
  simp only [Gap.around, List.mem_cons, List.not_mem_nil, or_false] at hg'
  obtain rfl | rfl | rfl := hg'
  · exact regular_of_quartet hfilling hfirst hsecond (ho.quartet hq hle) (ho.curvature_lt hq hle)
  · exact regular_of_quartet hfilling hsecond hthird (ho.rotate.quartet hq.rotate hleft)
      (ho.rotate.curvature_lt hq.rotate hleft)
  · have hlt := ho.rotate.rotate.curvature_lt hq.rotate.rotate hright
    exact regular_of_quartet hfilling hfirst hthird
      (ho.rotate.rotate.quartet hq.rotate.rotate hright).swap (by linarith)

theorem arm_ghost (h : g.Companion c) : g.first.arm (g.ghost c) = g.first.arm c :=
  g.arm_placed _ h.curvature_pos.ne'

/-- The other candidate touches the first circle of the gap for one curvature of this circle
only. -/
theorem curvature_eq_of_contact (h : g.Companion c) (hlt : c.curvature < g.bend)
    (hcontact : (g.ghost c).Contact g.first) :
    (g.ghost c).curvature = c.curvature + 2 * g.first.curvature := by
  have hk : (g.ghost c).curvature ≠ 0 := h.curvature_pos.ne'
  have h₁ := h.quartet.zero_one.right
  have hmeets := (h.opposite.meets h.quartet h.le).positive
  have hpositive := h.quartet.zero_one.positive
  have hbend := h.bend_pos
  have hcurvature : (g.ghost c).curvature = g.bend + g.bend - c.curvature := rfl
  have hcurvature' : (g.opposite c).curvature = (g.ghost c).curvature := rfl
  have hdot := h.quartet.zero_one.dot_arm
  rw [← h.arm_ghost, Circle.arm, dot_mul_ofReal, Circle.reach] at hdot
  rw [hcurvature'] at hmeets
  -- one of the four cases is the goal, the others contradict `hlt` or a positive sum of curvatures
  obtain hfirst | hfirst := hcontact.dot_sub (g.proper_placed _ _) (h.proper _ (by simp [circles]))
  · rw [hfirst] at hdot
    have hsq : ((g.ghost c).curvature + g.first.curvature) ^ 2 =
        (c.curvature + g.first.curvature) ^ 2 := by
      field_simp at hdot
      linear_combination hdot
    obtain hk | hk := sq_eq_sq_iff_eq_or_eq_neg.1 hsq <;> linarith
  · rw [hfirst] at hdot
    have hsq : ((g.ghost c).curvature - g.first.curvature) ^ 2 =
        (c.curvature + g.first.curvature) ^ 2 := by
      field_simp at hdot
      linear_combination hdot
    obtain hk | hk := sq_eq_sq_iff_eq_or_eq_neg.1 hsq <;> linarith

/-- For this curvature, how far the other candidate is from the second circle. -/
theorem dot_ghost_sub_second (h : g.Companion c)
    (hcurvature : (g.ghost c).curvature = c.curvature + 2 * g.first.curvature) :
    dot ((g.ghost c).place - g.second.place) ((g.ghost c).place - g.second.place) *
        ((g.ghost c).curvature ^ 2 * g.second.curvature ^ 2) =
      (g.ghost c).curvature ^ 2 + g.second.curvature ^ 2 +
        6 * ((g.ghost c).curvature * g.second.curvature) := by
  have h₁ := h.quartet.one_two.left
  have h₂ := h.quartet.one_two.right
  have hghost := h.quartet.zero_one.dot_arm
  have hboth := Circle.dot_arm h.quartet.zero_one h.quartet.one_two.symm h.quartet.zero_two
  have hsecond := Circle.touches_iff.1 h.quartet.one_two.symm.touches
  rw [← h.arm_ghost, Circle.arm, dot_mul_ofReal, Circle.reach,
    ← sub_eq_of_eq_add hcurvature] at hghost
  rw [← h.arm_ghost, Circle.arm, Circle.arm, dot_mul_ofReal, Circle.reach, Circle.reach,
    ← sub_eq_of_eq_add hcurvature] at hboth
  -- the law of cosines in the triangle of the centres
  have hcosine := dot_sub_self ((g.ghost c).place - g.first.place) (g.second.place - g.first.place)
  rw [sub_sub_sub_cancel_right, hsecond] at hcosine
  generalize (g.ghost c).curvature = k at *
  generalize dot ((g.ghost c).place - g.first.place) ((g.ghost c).place - g.first.place) = p at *
  generalize dot ((g.ghost c).place - g.first.place) (g.second.place - g.first.place) = q at *
  calc _ = p * (k * k) * g.second.curvature ^ 2 +
        k ^ 2 * ((1 / g.second.curvature + 1 / g.first.curvature) ^ 2 * g.second.curvature ^ 2) -
          2 * (q * (k * g.second.curvature)) * (k * g.second.curvature) := by
        rw [hcosine]
        ring
    _ = _ := by
        rw [hghost, hboth]
        field_simp
        ring

/-- The other candidate does not touch both the first circle and the second one. -/
theorem not_contact_ghost (h : g.Companion c) (hlt : c.curvature < g.bend)
    (hfirst : (g.ghost c).Contact g.first) : ¬(g.ghost c).Contact g.second := by
  intro hcontact
  have hk : (g.ghost c).curvature ≠ 0 := h.curvature_pos.ne'
  have h₂ := h.quartet.one_two.right
  have hdot := h.dot_ghost_sub_second (h.curvature_eq_of_contact hlt hfirst)
  have hproduct := mul_ne_zero hk h₂
  obtain hsecond | hsecond :=
    hcontact.dot_sub (g.proper_placed _ _) (h.proper _ (by simp [circles]))
  · rw [hsecond] at hdot
    field_simp at hdot
    exact hproduct (by linarith)
  · rw [hsecond] at hdot
    field_simp at hdot
    exact hproduct (by linarith)

end Companion

/-! ## What a tolerance lets pass -/

section Tolerance

variable {α : Type} [Analytic α]

/-- Whether a candidate is taken. -/
def admits (tolerance : α) (g : Gap α) (c : Circle α) : Bool :=
  g.circles.all fun parent => c.isTangentTo parent tolerance

/-- The circles that fill the gap, for another tolerance than the one of the drawing. -/
def inscribedWithin (tolerance : α) (g : Gap α) : List (Circle α) :=
  (g.candidates (descartes g.first.curvature g.second.curvature g.third.curvature).1).filter
    (admits tolerance g)

theorem inscribed_eq (g : Gap α) : g.inscribed = g.inscribedWithin Circle.tangencyTolerance := rfl

end Tolerance

theorem exists_admits (g : Gap ℝ) (d : Circle ℝ) : ∃ ε₁, ∀ ε > ε₁, admits ε g d = true := by
  obtain ⟨ε₁, h₁⟩ := Circle.exists_isTangentTo d g.first
  obtain ⟨ε₂, h₂⟩ := Circle.exists_isTangentTo d g.second
  obtain ⟨ε₃, h₃⟩ := Circle.exists_isTangentTo d g.third
  refine ⟨max (max ε₁ ε₂) ε₃, fun ε hε => ?_⟩
  obtain ⟨hε, hε₃⟩ := max_lt_iff.1 hε
  obtain ⟨hε₁, hε₂⟩ := max_lt_iff.1 hε
  simp only [admits, circles, List.all_cons, List.all_nil, h₁ ε hε₁, h₂ ε hε₂, h₃ ε hε₃,
    Bool.and_true]

namespace Companion

theorem inscribedWithin_eq_filter (h : g.Companion c) (ε : ℝ) :
    g.inscribedWithin ε =
      (g.candidates (g.bend + g.bend - c.curvature)).filter (admits ε g) := by
  rw [inscribedWithin, h.descartes_eq]

theorem inscribedWithin_eq (h : g.Companion c) (ε : ℝ) :
    g.inscribedWithin ε = [g.opposite c, g.ghost c].filter (admits ε g) ∨
      g.inscribedWithin ε = [g.ghost c, g.opposite c].filter (admits ε g) := by
  rw [h.inscribedWithin_eq_filter]
  exact h.candidates_eq.imp (fun heq => by rw [heq]) fun heq => by rw [heq]

theorem admits_opposite (h : g.Companion c) (hε : 0 < ε) : admits ε g (g.opposite c) = true := by
  rw [admits, List.all_eq_true]
  exact fun d hd => (h.contact hd).isTangentTo hε

/-- Whatever the tolerance, a gap is not left open. -/
theorem opposite_mem_inscribedWithin (h : g.Companion c) (hε : 0 < ε) :
    g.opposite c ∈ g.inscribedWithin ε := by
  obtain heq | heq := h.inscribedWithin_eq ε <;> rw [heq, List.mem_filter]
  · exact ⟨by simp, h.admits_opposite hε⟩
  · exact ⟨by simp, h.admits_opposite hε⟩

/-- A tolerance that is small enough lets only the circle that fills the gap pass. -/
theorem exists_inscribedWithin_eq (h : g.Companion c) (hlt : c.curvature < g.bend) :
    ∃ ε₀ > 0, ∀ ε, 0 < ε → ε ≤ ε₀ → g.inscribedWithin ε = [g.opposite c] := by
  obtain ⟨d, hd, hcontact⟩ : ∃ d ∈ g.circles, ¬(g.ghost c).Contact d := by
    by_cases hfirst : (g.ghost c).Contact g.first
    · exact ⟨g.second, by simp [circles], h.not_contact_ghost hlt hfirst⟩
    · exact ⟨g.first, by simp [circles], hfirst⟩
  obtain ⟨ε₀, hpos, hε₀⟩ := Circle.exists_isTangentTo_eq_false hcontact
  refine ⟨ε₀, hpos, fun ε hε hle => ?_⟩
  have hopposite := h.admits_opposite hε
  have hghost : ¬admits ε g (g.ghost c) = true := by
    rw [admits, List.all_eq_true]
    exact fun hall => Bool.false_ne_true ((hε₀ ε hle).symm.trans (hall d hd))
  obtain heq | heq := h.inscribedWithin_eq ε
  · rw [heq, List.filter_cons_of_pos hopposite, List.filter_cons_of_neg hghost, List.filter_nil]
  · rw [heq, List.filter_cons_of_neg hghost, List.filter_cons_of_pos hopposite, List.filter_nil]

/-- A tolerance that is too large lets both candidates pass. -/
theorem exists_length_inscribedWithin (h : g.Companion c) :
    ∃ ε₁, ∀ ε > ε₁, (g.inscribedWithin ε).length = 2 := by
  obtain ⟨ε₁, h₁⟩ := g.exists_admits (g.opposite c)
  obtain ⟨ε₂, h₂⟩ := g.exists_admits (g.ghost c)
  refine ⟨max ε₁ ε₂, fun ε hε => ?_⟩
  obtain ⟨hε₁, hε₂⟩ := max_lt_iff.1 hε
  obtain heq | heq := h.inscribedWithin_eq ε <;>
    simp only [heq, List.filter_cons, List.filter_nil, h₁ ε hε₁, h₂ ε hε₂, if_true,
      List.length_cons, List.length_nil]

end Companion

end Gap

end Easel
