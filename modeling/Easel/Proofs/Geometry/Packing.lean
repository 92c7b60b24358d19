import Easel.Proofs.Geometry.Similarity

/-!
# How many circles a gasket has

A gasket seeded inside a circle is followed through its generations, without rounding. Each
generation fills the regular gaps of the one before (`Gap.Parts`), whatever the tolerance is, and
what it adds besides depends on the tolerance: nothing if this is small enough, and a second circle
in every gap if it is too large. By `Gasket.frontier_grown` the radius of the gasket decides which
of these is the case, since the tolerance of the drawing is fixed.
-/

namespace Easel

open scoped Exact
open Planar

namespace Gap

section Division

variable {α : Type} [Analytic α]

/-- The gaps left in a gap when circles have been put into it. -/
def dividedWithin (tolerance : α) (g : Gap α) : List (Gap α) :=
  (g.inscribedWithin tolerance).flatMap g.around

/-- Each circle leaves three gaps. -/
theorem length_dividedWithin (tolerance : α) (g : Gap α) :
    (g.dividedWithin tolerance).length = 3 * (g.inscribedWithin tolerance).length := by
  rw [dividedWithin, List.length_flatMap]
  simp [around, Nat.mul_comm]

/-- The gaps left when all gaps of a list are divided. -/
def divideWithin (tolerance : α) (gs : List (Gap α)) : List (Gap α) :=
  gs.flatMap (dividedWithin tolerance)

end Division

/-! ## The parts of regular gaps -/

/-- `parts` are the gaps that a division of `gs` leaves if nothing but the circles opposite to the
companions is put into them. Every division leaves them, and one with a small tolerance leaves
nothing else. -/
structure Parts (gs parts : List (Gap ℝ)) : Prop where
  length : parts.length = 3 * gs.length
  regular : ∀ g ∈ parts, g.Regular
  sublist : ∀ ε > 0, parts.Sublist (divideWithin ε gs)
  sharp : ∃ ε₀ > 0, ∀ ε, 0 < ε → ε ≤ ε₀ →
    divideWithin ε gs = parts ∧ ∀ g ∈ gs, (g.inscribedWithin ε).length = 1

theorem Regular.exists_parts {g : Gap ℝ} (h : g.Regular) : ∃ parts, Parts [g] parts := by
  obtain ⟨c, hc, hlt⟩ := h
  obtain ⟨ε₀, hpos, hε₀⟩ := hc.exists_inscribedWithin_eq hlt
  refine ⟨g.around (g.opposite c), rfl, fun _ => hc.regular_of_mem_around, fun ε hε => ?_,
    ε₀, hpos, fun ε hε hle => ?_⟩
  · have hmem := List.singleton_sublist.2 (hc.opposite_mem_inscribedWithin hε)
    simpa [divideWithin, dividedWithin] using hmem.flatMap g.around
  · have heq := hε₀ ε hε hle
    simp [divideWithin, dividedWithin, heq]

theorem Parts.append {gs gs' parts parts' : List (Gap ℝ)} (h : Parts gs parts)
    (h' : Parts gs' parts') : Parts (gs ++ gs') (parts ++ parts') where
  length := by rw [List.length_append, List.length_append, h.length, h'.length, Nat.mul_add]
  regular := by
    rw [List.forall_mem_append]
    exact ⟨h.regular, h'.regular⟩
  sublist := by
    intro ε hε
    rw [divideWithin, List.flatMap_append]
    exact (h.sublist ε hε).append (h'.sublist ε hε)
  sharp := by
    obtain ⟨ε₀, hpos, hε₀⟩ := h.sharp
    obtain ⟨ε₀', hpos', hε₀'⟩ := h'.sharp
    refine ⟨min ε₀ ε₀', lt_min hpos hpos', fun ε hε hle => ?_⟩
    obtain ⟨heq, hlength⟩ := hε₀ ε hε (hle.trans (min_le_left _ _))
    obtain ⟨heq', hlength'⟩ := hε₀' ε hε (hle.trans (min_le_right _ _))
    rw [divideWithin, List.flatMap_append, List.forall_mem_append]
    exact ⟨congrArg₂ _ heq heq', hlength, hlength'⟩

/-- Regular gaps have regular parts. -/
theorem exists_parts {gs : List (Gap ℝ)} (h : ∀ g ∈ gs, g.Regular) : ∃ parts, Parts gs parts := by
  induction gs with
  | nil =>
    refine ⟨[], rfl, fun g hg => ?_, fun _ _ => List.nil_sublist _, 1, one_pos, fun _ _ _ => ?_⟩
    · exact absurd hg List.not_mem_nil
    · exact ⟨rfl, fun g hg => absurd hg List.not_mem_nil⟩
  | cons g gs ih =>
    obtain ⟨parts, hparts⟩ := (h g List.mem_cons_self).exists_parts
    obtain ⟨rest, hrest⟩ := ih fun g' hg' => h g' (List.mem_cons_of_mem _ hg')
    exact ⟨parts ++ rest, hparts.append hrest⟩

/-- If the tolerance is too large, two circles are put into each gap. -/
theorem exists_length_divideWithin {gs : List (Gap ℝ)} (h : ∀ g ∈ gs, g.Regular) :
    ∃ ε₁, ∀ ε > ε₁, (divideWithin ε gs).length = 6 * gs.length := by
  induction gs with
  | nil => exact ⟨0, fun _ _ => rfl⟩
  | cons g gs ih =>
    obtain ⟨c, hc, -⟩ := h g List.mem_cons_self
    obtain ⟨ε₁, h₁⟩ := hc.exists_length_inscribedWithin
    obtain ⟨ε₂, h₂⟩ := ih fun g' hg' => h g' (List.mem_cons_of_mem _ hg')
    refine ⟨max ε₁ ε₂, fun ε hε => ?_⟩
    obtain ⟨hε₁, hε₂⟩ := max_lt_iff.1 hε
    have hrest := h₂ ε hε₂
    rw [divideWithin] at hrest
    rw [divideWithin, List.flatMap_cons, List.length_append, length_dividedWithin, h₁ ε hε₁, hrest,
      List.length_cons]
    ring

/-! ## The first gap -/

theorem seed_eq (o : Point ℝ) (r : ℝ) :
    Gasket.seed o r = ⟨.ofPlace ⟨o.x, o.y⟩ (-1 / r), .ofPlace ⟨o.x - r / 2, o.y⟩ (2 / r),
      .ofPlace ⟨o.x + r / 2, o.y⟩ (2 / r)⟩ := by
  simp only [Gasket.seed, Circle.ofPlace, Exact.literal_eq]
  push_cast
  rfl

/-- The gap that a gasket of radius one around the origin starts from. -/
noncomputable def unit : Gap ℝ := Gasket.seed ⟨0, 0⟩ 1

theorem unit_eq : unit = ⟨.ofPlace 0 (-1), .ofPlace (-1 / 2) 2, .ofPlace (1 / 2) 2⟩ := by
  rw [unit, seed_eq]
  norm_num [Circle.ofPlace]

theorem scaled_unit {o : Point ℝ} {r : ℝ} (hr : 0 < r) : unit.scaled o r = Gasket.seed o r := by
  rw [unit_eq, seed_eq, scaled, Circle.scaled_ofPlace hr, Circle.scaled_ofPlace hr,
    Circle.scaled_ofPlace hr]
  congr 2
  · rw [mul_zero, add_zero]
  · refine Complex.ext ?_ ?_
    · simp
      ring
    · simp
  · refine Complex.ext ?_ ?_
    · simp
      ring
    · simp

theorem meets_ofPlace {z w : ℂ} {k l : ℝ} (hk : k ≠ 0) (hl : l ≠ 0) (hpositive : 0 < k + l)
    (h : dot (z - w) (z - w) = (1 / k + 1 / l) ^ 2) :
    (Circle.ofPlace z k).Meets (.ofPlace w l) :=
  ⟨hk, hl, Circle.touches_iff.2 h, hpositive⟩

/-- There is a circle above the two inner ones that touches all three, and one below. -/
theorem companion_unit {y : ℝ} (hy : y ^ 2 = 4 / 9) : unit.Companion (.ofPlace ⟨0, y⟩ 3) := by
  have hside (x : ℝ) (hx : x ^ 2 = 1 / 4) : (Circle.ofPlace ⟨0, y⟩ 3).Meets (.ofPlace x 2) := by
    refine meets_ofPlace (by norm_num) (by norm_num) (by norm_num) ?_
    norm_num [dot]
    linarith
  have houter (x : ℝ) (hx : x ^ 2 = 1 / 4) : (Circle.ofPlace 0 (-1)).Meets (.ofPlace x 2) := by
    refine meets_ofPlace (by norm_num) (by norm_num) (by norm_num) ?_
    norm_num [dot]
    linarith
  rw [unit_eq]
  refine ⟨?_, ⟨?_, ?_, ?_, ?_, ?_, ?_⟩, ?_⟩
  · exact forall_mem_circles.2 ⟨Circle.proper_ofCurvature _ _ _, Circle.proper_ofCurvature _ _ _,
      Circle.proper_ofCurvature _ _ _⟩
  · refine meets_ofPlace (by norm_num) (by norm_num) (by norm_num) ?_
    norm_num [dot]
    linarith
  · simpa using hside (-1 / 2) (by norm_num)
  · simpa using hside (1 / 2) (by norm_num)
  · simpa using houter (-1 / 2) (by norm_num)
  · simpa using houter (1 / 2) (by norm_num)
  · refine meets_ofPlace (by norm_num) (by norm_num) (by norm_num) ?_
    norm_num [dot]
  · norm_num [bend]

/-- The curvature that fills the first gap is that of the circle above, and of the one below. -/
theorem curvature_unit (y : ℝ) :
    unit.bend + unit.bend - (Circle.ofPlace ⟨0, y⟩ 3).curvature = 3 := by
  rw [unit_eq, bend]
  norm_num

theorem opposite_unit (y : ℝ) : unit.opposite (.ofPlace ⟨0, y⟩ 3) = .ofPlace ⟨0, -y⟩ 3 := by
  rw [opposite, placed, curvature_unit, unit_eq]
  simp only [Circle.curvature_ofPlace, Circle.place_ofPlace, Circle.arm]
  congr 1
  refine Complex.ext ?_ ?_ <;> norm_num
  ring

theorem ghost_unit (y : ℝ) : unit.ghost (.ofPlace ⟨0, y⟩ 3) = .ofPlace ⟨0, y⟩ 3 := by
  rw [ghost, placed, curvature_unit, unit_eq]
  simp only [Circle.curvature_ofPlace, Circle.place_ofPlace, Circle.arm]
  congr 1
  refine Complex.ext ?_ ?_ <;> norm_num

theorem admits_unit {y ε : ℝ} (hy : y ^ 2 = 4 / 9) (hε : 0 < ε) :
    admits ε unit (.ofPlace ⟨0, -y⟩ 3) = true := by
  rw [← opposite_unit]
  exact (companion_unit hy).admits_opposite hε

/-- The first gap is filled by two circles, one above and one below, whatever the tolerance. -/
theorem exists_inscribedWithin_unit :
    ∃ y : ℝ, y ^ 2 = 4 / 9 ∧ ∀ ε > 0,
      unit.inscribedWithin ε = [.ofPlace ⟨0, -y⟩ 3, .ofPlace ⟨0, y⟩ 3] := by
  have hy : (2 / 3 : ℝ) ^ 2 = 4 / 9 := by norm_num
  have hcompanion := companion_unit hy
  have hcandidates := hcompanion.candidates_eq
  rw [opposite_unit, ghost_unit] at hcandidates
  have hbelow (ε : ℝ) (hε : ε > 0) := admits_unit hy hε
  have habove (ε : ℝ) (hε : ε > 0) := admits_unit ((neg_sq (2 / 3 : ℝ)).trans hy) hε
  simp only [neg_neg] at habove
  obtain hcandidates | hcandidates := hcandidates
  · refine ⟨2 / 3, hy, fun ε hε => ?_⟩
    rw [hcompanion.inscribedWithin_eq_filter, hcandidates, List.filter_cons_of_pos (hbelow ε hε),
      List.filter_cons_of_pos (habove ε hε), List.filter_nil]
  · refine ⟨-(2 / 3), (neg_sq _).trans hy, fun ε hε => ?_⟩
    rw [hcompanion.inscribedWithin_eq_filter, hcandidates, neg_neg,
      List.filter_cons_of_pos (habove ε hε), List.filter_cons_of_pos (hbelow ε hε), List.filter_nil]

/-- The six gaps around the first two circles are regular and do not depend on the tolerance. -/
theorem exists_divideWithin_unit :
    ∃ gs : List (Gap ℝ), gs.length = 6 ∧ (∀ g ∈ gs, g.Regular) ∧
      ∀ ε > 0, divideWithin ε [unit] = gs := by
  obtain ⟨y, hy, heq⟩ := exists_inscribedWithin_unit
  refine ⟨unit.around (.ofPlace ⟨0, -y⟩ 3) ++ unit.around (.ofPlace ⟨0, y⟩ 3), rfl, ?_, ?_⟩
  · rw [List.forall_mem_append]
    constructor
    · rw [← opposite_unit]
      exact fun g => (companion_unit hy).regular_of_mem_around
    · rw [← neg_neg y, ← opposite_unit]
      exact fun g => (companion_unit ((neg_sq y).trans hy)).regular_of_mem_around
  · intro ε hε
    simp only [divideWithin, dividedWithin, heq ε hε, List.flatMap_cons, List.flatMap_nil,
      List.append_nil]

/-! ## The frontier -/

/-- The frontier after `n` generations, for a gasket of radius one. -/
noncomputable def frontierWithin (ε : ℝ) (n : ℕ) : List (Gap ℝ) := (divideWithin ε)^[n] [unit]

theorem frontierWithin_succ (ε : ℝ) (n : ℕ) :
    frontierWithin ε (n + 1) = divideWithin ε (frontierWithin ε n) :=
  Function.iterate_succ_apply' _ _ _

/-- In every generation there are the regular gaps of the exact packing; with a tolerance that is
small enough there are no others. -/
theorem exists_frontierWithin (n : ℕ) :
    ∃ gs : List (Gap ℝ), gs.length = 2 * 3 ^ (n + 1) ∧ (∀ g ∈ gs, g.Regular) ∧
      (∀ ε > 0, gs.Sublist (frontierWithin ε (n + 1))) ∧
      ∃ ε₀ > 0, ∀ ε, 0 < ε → ε ≤ ε₀ → frontierWithin ε (n + 1) = gs ∧
        ∀ m < n, (frontierWithin ε (m + 1)).length = 2 * 3 ^ (m + 1) ∧
          ∀ g ∈ frontierWithin ε (m + 1), (g.inscribedWithin ε).length = 1 := by
  -- the regular gaps are carried along: the frontier itself depends on the tolerance
  induction n with
  | zero =>
    obtain ⟨gs, hlength, hregular, heq⟩ := exists_divideWithin_unit
    refine ⟨gs, hlength, hregular, fun ε hε => ?_, 1, one_pos, fun ε hε _ => ⟨heq ε hε, ?_⟩⟩
    · exact (heq ε hε).symm ▸ List.Sublist.refl _
    · exact fun m hm => absurd hm (Nat.not_lt_zero m)
  | succ n ih =>
    obtain ⟨gs, hlength, hregular, hsublist, ε₀, hpos, hsharp⟩ := ih
    obtain ⟨parts, hparts⟩ := exists_parts hregular
    obtain ⟨ε₀', hpos', hsharp'⟩ := hparts.sharp
    refine ⟨parts, ?_, hparts.regular, fun ε hε => ?_, min ε₀ ε₀', lt_min hpos hpos',
      fun ε hε hle => ?_⟩
    · rw [hparts.length, hlength]
      ring
    · rw [frontierWithin_succ]
      exact (hparts.sublist ε hε).trans ((hsublist ε hε).flatMap _)
    · obtain ⟨hfrontier, hone⟩ := hsharp ε hε (hle.trans (min_le_left _ _))
      obtain ⟨hfrontier', hone'⟩ := hsharp' ε hε (hle.trans (min_le_right _ _))
      refine ⟨by rw [frontierWithin_succ, hfrontier, hfrontier'], fun m hm => ?_⟩
      obtain hm | rfl := Nat.lt_succ_iff_lt_or_eq.1 hm
      · exact hone m hm
      · rw [hfrontier]
        exact ⟨hlength, hone'⟩

/-- With a tolerance that is too large, each gap of the first generation is filled twice. -/
theorem exists_length_frontierWithin :
    ∃ ε₁, ∀ ε > ε₁, 0 < ε → (frontierWithin ε 2).length = 36 := by
  obtain ⟨gs, hlength, hregular, heq⟩ := exists_divideWithin_unit
  obtain ⟨ε₁, h₁⟩ := exists_length_divideWithin hregular
  refine ⟨ε₁, fun ε hε hpos => ?_⟩
  have hfirst : frontierWithin ε 1 = gs := heq ε hpos
  rw [frontierWithin_succ, hfirst, h₁ ε hε, hlength]

end Gap

namespace Gasket

section Generations

variable {α : Type} [Analytic α]

/-- The gasket inside a circle of radius `radius` after some generations. -/
def grown (origin : Point α) (radius : α) : ℕ → Gasket α
  | 0 => (empty origin).enclose radius
  | n + 1 => (grown origin radius n).next

theorem length_circles_next (g : Gasket α) :
    g.next.circles.length = g.circles.length + g.added := List.length_append

theorem frontier_next (g : Gasket α) :
    g.next.frontier = Gap.divideWithin Circle.tangencyTolerance g.frontier := by
  simp only [next, fillings, List.flatMap_map]
  rfl

/-- Each circle that a generation adds leaves three gaps. -/
theorem length_frontier_next (g : Gasket α) : g.next.frontier.length = 3 * g.added := by
  rw [frontier_next, Gap.divideWithin, List.length_flatMap, added, fillings, List.flatMap_map,
    List.length_flatMap]
  simp only [Gap.length_dividedWithin]
  rw [List.sum_map_mul_left]
  rfl

/-- The circles are counted by the gaps that they leave. -/
theorem three_mul_length_circles (origin : Point α) (radius : α) (n : ℕ) :
    3 * (grown origin radius n).circles.length =
      9 + ∑ m ∈ Finset.range n, (grown origin radius (m + 1)).frontier.length := by
  induction n with
  | zero => rfl
  | succ n ih =>
    rw [Finset.sum_range_succ, ← add_assoc, ← ih, grown, length_circles_next, length_frontier_next]
    ring

/-- No gap is filled by more than the two candidates. -/
theorem length_inscribed_le (g : Gap α) : g.inscribed.length ≤ 2 := List.length_filter_le _ _

theorem added_le (g : Gasket α) : g.added ≤ 2 * g.frontier.length := by
  have hsum : (g.frontier.map fun gap => gap.inscribed.length).sum ≤
      (g.frontier.map fun gap => gap.inscribed.length).length • 2 := by
    refine List.sum_le_card_nsmul _ 2 fun x hx => ?_
    obtain ⟨gap, -, rfl⟩ := List.mem_map.1 hx
    exact length_inscribed_le gap
  rw [added, fillings, List.flatMap_map, List.length_flatMap]
  rwa [List.length_map, smul_eq_mul, Nat.mul_comm] at hsum

theorem length_frontier_grown_le (origin : Point α) (radius : α) (n : ℕ) :
    (grown origin radius n).frontier.length ≤ 6 ^ n := by
  induction n with
  | zero => rfl
  | succ n ih =>
    have hadded := added_le (grown origin radius n)
    rw [grown, length_frontier_next, pow_succ]
    omega

end Generations

theorem tangencyTolerance_pos : (0 : ℝ) < Circle.tangencyTolerance := by
  rw [Circle.tangencyTolerance]
  norm_num

theorem divideWithin_scaled {r : ℝ} (hr : 0 < r) (o : Point ℝ) (ε : ℝ) (gs : List (Gap ℝ)) :
    Gap.divideWithin ε (gs.map (Gap.scaled o r)) =
      (Gap.divideWithin (ε / r) gs).map (Gap.scaled o r) := by
  rw [Gap.divideWithin, Gap.divideWithin, List.flatMap_map, List.map_flatMap]
  congr 1
  funext g
  rw [Gap.dividedWithin, Gap.dividedWithin, Gap.inscribedWithin_scaled hr, List.flatMap_map,
    List.map_flatMap]
  rfl

theorem frontier_grown {r : ℝ} (hr : 0 < r) (o : Point ℝ) (n : ℕ) :
    (grown o r n).frontier =
      (Gap.frontierWithin (Circle.tangencyTolerance / r) n).map (Gap.scaled o r) := by
  induction n with
  | zero =>
    rw [Gap.frontierWithin, Function.iterate_zero, id_eq, List.map_singleton, Gap.scaled_unit hr]
    rfl
  | succ n ih => rw [grown, frontier_next, ih, divideWithin_scaled hr, Gap.frontierWithin_succ]

theorem sum_two_mul_three_pow (n : ℕ) :
    9 + ∑ m ∈ Finset.range n, 2 * 3 ^ (m + 1) = 3 * (2 + 3 ^ n) := by
  induction n with
  | zero => rfl
  | succ n ih =>
    rw [Finset.sum_range_succ, ← add_assoc, ih]
    ring

/-- Whatever the radius, no gap is left open. -/
theorem le_length_frontier_grown {r : ℝ} (hr : 0 < r) (o : Point ℝ) (n : ℕ) :
    2 * 3 ^ (n + 1) ≤ (grown o r (n + 1)).frontier.length := by
  obtain ⟨gs, hlength, -, hsublist, -⟩ := Gap.exists_frontierWithin n
  rw [frontier_grown hr, List.length_map, ← hlength]
  exact (hsublist _ (div_pos tangencyTolerance_pos hr)).length_le

theorem le_length_circles_grown {r : ℝ} (hr : 0 < r) (o : Point ℝ) (n : ℕ) :
    2 + 3 ^ n ≤ (grown o r n).circles.length := by
  have hsum : ∑ m ∈ Finset.range n, 2 * 3 ^ (m + 1) ≤
      ∑ m ∈ Finset.range n, (grown o r (m + 1)).frontier.length :=
    Finset.sum_le_sum fun m _ => le_length_frontier_grown hr o m
  have hcount := three_mul_length_circles o r n
  have hpow := sum_two_mul_three_pow n
  omega

/-- From some radius on, the circles are those of the exact packing. -/
theorem exists_length_grown_eq (n : ℕ) :
    ∃ R > 0, ∀ (o : Point ℝ) (r : ℝ), R ≤ r →
      (grown o r (n + 1)).circles.length = 2 + 3 ^ (n + 1) ∧
      (grown o r (n + 1)).frontier.length = 2 * 3 ^ (n + 1) ∧
      ∀ m < n, ∀ g ∈ (grown o r (m + 1)).frontier, g.inscribed.length = 1 := by
  obtain ⟨gs, hlength, -, -, ε₀, hpos, hsharp⟩ := Gap.exists_frontierWithin n
  refine ⟨Circle.tangencyTolerance / ε₀, div_pos tangencyTolerance_pos hpos, fun o r hle => ?_⟩
  have hr : 0 < r := (div_pos tangencyTolerance_pos hpos).trans_le hle
  have hε : Circle.tangencyTolerance / r ≤ ε₀ := by
    rwa [div_le_iff₀ hr, ← div_le_iff₀' hpos]
  obtain ⟨hlast, hbefore⟩ := hsharp _ (div_pos tangencyTolerance_pos hr) hε
  have hfrontier (m : ℕ) (hm : m < n + 1) :
      (grown o r (m + 1)).frontier.length = 2 * 3 ^ (m + 1) := by
    rw [frontier_grown hr, List.length_map]
    obtain hm | rfl := Nat.lt_succ_iff_lt_or_eq.1 hm
    · exact (hbefore m hm).1
    · rw [hlast, hlength]
  refine ⟨?_, hfrontier n n.lt_succ_self, fun m hm g hg => ?_⟩
  · have hsum := Finset.sum_congr rfl fun m hm => hfrontier m (Finset.mem_range.1 hm)
    have hcount := three_mul_length_circles o r (n + 1)
    have hpow := sum_two_mul_three_pow (n + 1)
    omega
  · rw [frontier_grown hr, List.mem_map] at hg
    obtain ⟨g, hg, rfl⟩ := hg
    rw [Gap.inscribed_eq, Gap.inscribedWithin_scaled hr, List.length_map]
    exact (hbefore m hm).2 g hg

/-- The first gap is filled by two circles, at every scale. -/
theorem added_grown_zero {r : ℝ} (hr : 0 < r) (o : Point ℝ) : (grown o r 0).added = 2 := by
  obtain ⟨gs, hlength, -, heq⟩ := Gap.exists_divideWithin_unit
  have hfrontier : (grown o r 1).frontier.length = 6 := by
    rw [frontier_grown hr, List.length_map, ← hlength]
    exact congrArg List.length (heq _ (div_pos tangencyTolerance_pos hr))
  have hcount : (grown o r 1).frontier.length = 3 * (grown o r 0).added := length_frontier_next _
  omega

/-- Up to some radius, the second generation fills gaps twice. -/
theorem exists_lt_length_grown :
    ∃ r₀ > 0, ∀ (o : Point ℝ) (r : ℝ), 0 < r → r ≤ r₀ → ∀ n ≥ 2,
      2 + 3 ^ n < (grown o r n).circles.length := by
  obtain ⟨ε₁, h₁⟩ := Gap.exists_length_frontierWithin
  have hpos : 0 < |ε₁| + 1 := by positivity
  refine ⟨Circle.tangencyTolerance / (|ε₁| + 1), div_pos tangencyTolerance_pos hpos,
    fun o r hr hle n hn => ?_⟩
  have hε : ε₁ < Circle.tangencyTolerance / r := by
    have hlarge : |ε₁| + 1 ≤ Circle.tangencyTolerance / r := by
      rwa [le_div_iff₀ hr, ← le_div_iff₀' hpos]
    linarith [le_abs_self ε₁]
  have hsecond : (grown o r (1 + 1)).frontier.length = 36 := by
    rw [frontier_grown hr, List.length_map]
    exact h₁ _ hε (div_pos tangencyTolerance_pos hr)
  have hsum : ∑ m ∈ Finset.range n, 2 * 3 ^ (m + 1) <
      ∑ m ∈ Finset.range n, (grown o r (m + 1)).frontier.length :=
    Finset.sum_lt_sum (fun m _ => le_length_frontier_grown hr o m)
      ⟨1, Finset.mem_range.2 hn, by rw [hsecond]; norm_num⟩
  have hcount := three_mul_length_circles o r n
  have hpow := sum_two_mul_three_pow n
  omega

/-- **The size of a packing depends on its scale.** Without rounding, a gasket never has fewer
circles than the packing of Descartes' theorem. From some radius on it has as many, the first gap
being filled by two circles and every later one by one. Up to some radius it has more: the tolerance
stays the same, and in the end it takes circles to touch that do not. With rounding, no gap is
filled by more than two circles, and nothing keeps it from being left open. -/
theorem packing_by_scale (n : ℕ) (hn : 1 ≤ n) :
    (∀ (o : Point ℝ) (r : ℝ), 0 < r → (grown o r 0).added = 2 ∧
      2 + 3 ^ n ≤ (grown o r n).circles.length ∧ 2 * 3 ^ n ≤ (grown o r n).frontier.length) ∧
    (∃ R > 0, ∀ (o : Point ℝ) (r : ℝ), R ≤ r →
      (grown o r n).circles.length = 2 + 3 ^ n ∧ (grown o r n).frontier.length = 2 * 3 ^ n ∧
      ∀ m, 1 ≤ m → m < n → ∀ g ∈ (grown o r m).frontier, g.inscribed.length = 1) ∧
    (∃ r₀ > 0, ∀ (o : Point ℝ) (r : ℝ), 0 < r → r ≤ r₀ → 2 ≤ n →
      2 + 3 ^ n < (grown o r n).circles.length) ∧
    ∀ (o : Point Float) (r : Float), (grown o r n).frontier.length ≤ 6 ^ n ∧
      3 * (grown o r n).circles.length =
        9 + ∑ m ∈ Finset.range n, (grown o r (m + 1)).frontier.length := by
  refine ⟨fun o r hr => ?_, ?_, ?_, fun o r => ?_⟩
  · obtain ⟨n, rfl⟩ := Nat.exists_eq_add_of_le' hn
    exact ⟨added_grown_zero hr o, le_length_circles_grown hr o _, le_length_frontier_grown hr o n⟩
  · obtain ⟨n, rfl⟩ := Nat.exists_eq_add_of_le' hn
    obtain ⟨R, hpos, hR⟩ := exists_length_grown_eq n
    refine ⟨R, hpos, fun o r hle => ?_⟩
    obtain ⟨hcircles, hfrontier, hone⟩ := hR o r hle
    refine ⟨hcircles, hfrontier, fun m hm hlt => ?_⟩
    obtain ⟨m, rfl⟩ := Nat.exists_eq_add_of_le' hm
    exact hone m (Nat.lt_of_succ_lt_succ hlt)
  · obtain ⟨r₀, hpos, h₀⟩ := exists_lt_length_grown
    exact ⟨r₀, hpos, fun o r hr hle hn => h₀ o r hr hle _ hn⟩
  · exact ⟨length_frontier_grown_le o r n, three_mul_length_circles o r n⟩

/-- At one radius a gasket has the eleven circles of the packing, at another one it has more. -/
theorem packing_by_scale_two :
    1 ≤ 2 ∧ (0 : ℝ) < 1 ∧ (grown (⟨0, 0⟩ : Point ℝ) 1 0).added = 2 ∧
      (∃ r > 0, (grown (⟨0, 0⟩ : Point ℝ) r 2).circles.length = 11) ∧
      ∃ r > 0, 11 < (grown (⟨0, 0⟩ : Point ℝ) r 2).circles.length := by
  obtain ⟨hall, ⟨R, hR, hlarge⟩, ⟨r₀, hr₀, hsmall⟩, -⟩ := packing_by_scale 2 (by decide)
  exact ⟨by decide, one_pos, (hall ⟨0, 0⟩ 1 one_pos).1, ⟨R, hR, (hlarge ⟨0, 0⟩ R le_rfl).1⟩, r₀,
    hr₀, hsmall ⟨0, 0⟩ r₀ hr₀ le_rfl le_rfl⟩

set_option maxRecDepth 100000 in
/-- With rounding, the first gap inside a circle of radius `10 ^ 9` is left open. -/
theorem packing_depends_on_scale :
    ¬∀ (o : Point Float) (r : Float) (n : ℕ), o.isFinite = true → Scalar.isFinite r = true →
      0 < r → 1 ≤ n →
        (grown o r n).circles.length = 2 + 3 ^ n ∧ (grown o r n).frontier.length = 2 * 3 ^ n := by
  intro h
  have hopen : (grown (⟨0, 0⟩ : Point Float) 1e9 1).circles.length = 3 := by decide +kernel
  have hcount := h ⟨0, 0⟩ 1e9 1 (by decide) (by decide) (by decide) le_rfl
  rw [hopen] at hcount
  exact absurd hcount.1 (by decide)

end Gasket

end Easel
