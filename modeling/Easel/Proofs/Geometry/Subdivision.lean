import Easel.Geometry.Sierpinski
import Easel.Proofs.Number.Double

/-!
# How long a triangle can be divided

Dividing a triangle divides by its sides. As long as the triangles to be divided are sound, their
sides neither vanishing nor out of range, everything that is drawn is finite; the bounds leave room
for the squares of squares in Heron's formula. As soon as one of them has a side of length zero, a
triangle without finite coordinates is drawn. That no check of the seed tells of this is shown by a
right triangle, which is far from being degenerate: two of the feet of its altitudes are the corner
of the right angle, and what is left there has no sides.
-/

namespace Easel

open Binary64

namespace Triangle

/-- Whether all coordinates are finite. -/
def isFinite (t : Triangle Float) : Bool := t.a.isFinite && t.b.isFinite && t.c.isFinite

/-- Whether some side has the length zero. -/
def isCollapsed (t : Triangle Float) : Bool :=
  t.sides.1 == 0 || t.sides.2.1 == 0 || t.sides.2.2 == 0

/-- Whether a coordinate is one of a drawing of ordinary size. -/
def coordinateInRange (x : Float) : Bool := decide (-twoPow 100 ≤ x) && decide (x ≤ twoPow 100)

/-- Whether the length of a side is one that can be divided by. -/
def sideInRange (x : Float) : Bool := decide (twoPow (-250) ≤ x) && decide (x ≤ twoPow 102)

/-- Whether all coordinates and sides are in range. -/
def isSound (t : Triangle Float) : Bool :=
  ([t.a, t.b, t.c].all fun p => coordinateInRange p.x && coordinateInRange p.y) &&
    [t.sides.1, t.sides.2.1, t.sides.2.2].all sideInRange

/-! ## Bounds -/

/-- A point that is not too far out. -/
structure Near (p : Point Float) : Prop where
  x : Within 100 p.x
  y : Within 100 p.y

/-- The length of a side that can be divided by. -/
structure Length (x : Float) : Prop where
  within : Within 102 x
  le : 2 ^ (-250 : ℤ) ≤ |value x|

theorem within_of_coordinateInRange {x : Float} (h : coordinateInRange x = true) :
    Within 100 x := by
  rw [coordinateInRange, Bool.and_eq_true, decide_eq_true_eq, decide_eq_true_eq] at h
  exact within_of_le_of_le (by decide) (by decide) h.1 h.2

theorem length_of_sideInRange {x : Float} (h : sideInRange x = true) : Length x := by
  rw [sideInRange, Bool.and_eq_true, decide_eq_true_eq, decide_eq_true_eq] at h
  obtain ⟨hwithin, hle⟩ :=
    between_of_le_of_le (by decide) (by decide) (by decide) (by decide) h.1 h.2
  exact ⟨hwithin, hle⟩

theorem two_bounds : Within 1 (2 : Float) ∧ 2 ^ (1 : ℤ) ≤ |value (2 : Float)| :=
  between_of_le_of_le (by decide) (by decide) (by decide) (by decide) (by decide)
    (by decide)

variable {t : Triangle Float}

/-- Heron's formula stays in range, whatever the sides. -/
theorem within_area (ha : Length t.sides.1) (hb : Length t.sides.2.1) (hc : Length t.sides.2.2) :
    Within 210 t.area := by
  have hs : Within 104 ((t.sides.1 + t.sides.2.1 + t.sides.2.2) / 2) :=
    ((ha.within.add hb.within (n := 103) (by decide) (by decide) (by decide)).add hc.within
      (n := 104) (by decide) (by decide) (by decide)).div two_bounds.1.isFinite two_bounds.2
      (by decide) (by decide)
  have hproduct := ((hs.mul (hs.sub ha.within (n := 105) (by decide) (by decide) (by decide))
      (n := 209) (by decide) (by decide)).mul
      (hs.sub hb.within (n := 105) (by decide) (by decide) (by decide))
      (n := 314) (by decide) (by decide)).mul
      (hs.sub hc.within (n := 105) (by decide) (by decide) (by decide))
      (n := 419) (by decide) (by decide)
  have hlarger := within_larger_zero hproduct
  exact hlarger.1.sqrt hlarger.2 (by decide) (by decide)

/-- The share of a side at which the foot of an altitude lies. -/
theorem within_share {area base hypotenuse side : Float} (harea : Within 210 area)
    (hbase : Length base) (hhypotenuse : Length hypotenuse) (hside : Length side) :
    Within 714 (leg hypotenuse (2 * area / side) / base) := by
  have hheight : Within 461 (2 * area / side) :=
    (two_bounds.1.mul harea (n := 211) (by decide) (by decide)).div hside.within.isFinite hside.le
      (by decide) (by decide)
  have hdifference := (hhypotenuse.within.mul hhypotenuse.within (n := 204) (by decide)
      (by decide)).sub (hheight.mul hheight (n := 922) (by decide) (by decide))
    (n := 923) (by decide) (by decide) (by decide)
  have hlarger := within_larger_zero hdifference
  have hleg : Within 462 (leg hypotenuse (2 * area / side)) :=
    hlarger.1.sqrt hlarger.2 (by decide) (by decide)
  exact hleg.div hbase.within.isFinite hbase.le (by decide) (by decide)

theorem isFinite_lerp {p q : Point Float} (hp : Near p) (hq : Near q) {s : Float}
    (hs : Within 714 s) : (p.lerp q s).isFinite = true := by
  have hcoordinate {x y : Float} (hx : Within 100 x) (hy : Within 100 y) :
      Within 816 (x + (y - x) * s) :=
    hx.add ((hy.sub hx (n := 101) (by decide) (by decide) (by decide)).mul hs (n := 815)
      (by decide) (by decide)) (by decide) (by decide) (by decide)
  rw [Point.isFinite, Bool.and_eq_true]
  exact ⟨(hcoordinate hp.x hq.x).isFinite, (hcoordinate hp.y hq.y).isFinite⟩

theorem near_of_isSound (h : t.isSound = true) : Near t.a ∧ Near t.b ∧ Near t.c := by
  simp only [isSound, List.all_cons, List.all_nil, Bool.and_true, Bool.and_eq_true] at h
  obtain ⟨⟨⟨hax, hay⟩, ⟨hbx, hby⟩, hcx, hcy⟩, -⟩ := h
  exact ⟨⟨within_of_coordinateInRange hax, within_of_coordinateInRange hay⟩,
    ⟨within_of_coordinateInRange hbx, within_of_coordinateInRange hby⟩,
    ⟨within_of_coordinateInRange hcx, within_of_coordinateInRange hcy⟩⟩

theorem length_of_isSound (h : t.isSound = true) :
    Length t.sides.1 ∧ Length t.sides.2.1 ∧ Length t.sides.2.2 := by
  simp only [isSound, List.all_cons, List.all_nil, Bool.and_true, Bool.and_eq_true] at h
  obtain ⟨-, ha, hb, hc⟩ := h
  exact ⟨length_of_sideInRange ha, length_of_sideInRange hb, length_of_sideInRange hc⟩

theorem isFinite_of_near {p : Point Float} (h : Near p) : p.isFinite = true := by
  rw [Point.isFinite, Bool.and_eq_true]
  exact ⟨h.x.isFinite, h.y.isFinite⟩

theorem isFinite_of_isSound (h : t.isSound = true) : t.isFinite = true := by
  obtain ⟨ha, hb, hc⟩ := near_of_isSound h
  simp only [isFinite, isFinite_of_near ha, isFinite_of_near hb, isFinite_of_near hc, Bool.and_true]

/-- What is drawn inside a sound triangle is finite. -/
theorem isFinite_inner (h : t.isSound = true) : (Sierpinski.inner t).isFinite = true := by
  obtain ⟨hA, hB, hC⟩ := near_of_isSound h
  obtain ⟨ha, hb, hc⟩ := length_of_isSound h
  have harea := within_area ha hb hc
  have hd : (Sierpinski.inner t).a.isFinite = true :=
    isFinite_lerp hB hC (within_share harea ha hc ha)
  have he : (Sierpinski.inner t).b.isFinite = true :=
    isFinite_lerp hA hC (within_share harea hb hc hb)
  have hf : (Sierpinski.inner t).c.isFinite = true :=
    isFinite_lerp hA hB (within_share harea hc hb hc)
  simp only [isFinite, hd, he, hf, Bool.and_true]

/-- A point that lies a share of a segment along it is finite only if the share is. -/
theorem isFinite_of_isFinite_lerp {p q : Point Float} {s : Float}
    (h : (p.lerp q s).isFinite = true) : s.isFinite = true := by
  rw [Point.isFinite, Bool.and_eq_true] at h
  exact (isFinite_of_isFinite_mul (isFinite_of_isFinite_add h.1).2).2

/-- What is drawn inside a collapsed triangle is not finite. -/
theorem not_isFinite_inner (h : t.isCollapsed = true) : (Sierpinski.inner t).isFinite = false := by
  rw [← Bool.not_eq_true]
  intro hfinite
  rw [isFinite, Bool.and_eq_true, Bool.and_eq_true] at hfinite
  obtain ⟨⟨hd, he⟩, hf⟩ := hfinite
  rw [isCollapsed, Bool.or_eq_true, Bool.or_eq_true] at h
  rcases h with (ha | hb) | hc
  · exact absurd (isFinite_of_isFinite_lerp hd) (Bool.eq_false_iff.1 (not_isFinite_div _ ha))
  · exact absurd (isFinite_of_isFinite_lerp he) (Bool.eq_false_iff.1 (not_isFinite_div _ hb))
  · exact absurd (isFinite_of_isFinite_lerp hf) (Bool.eq_false_iff.1 (not_isFinite_div _ hc))

end Triangle

namespace Sierpinski

section Generations

variable {α : Type} [Analytic α]

/-- The fractal of a seed after some generations. -/
def grown (seed : Triangle α) : ℕ → Sierpinski α
  | 0 => .ofSeed seed
  | n + 1 => (grown seed n).next

/-- One generation draws the inner triangle of every triangle of the frontier. -/
theorem mem_triangles_next {s : Sierpinski α} {t : Triangle α} :
    t ∈ s.next.triangles ↔ t ∈ s.triangles ∨ ∃ u ∈ s.frontier, inner u = t := by
  simp [next, List.mem_map]

/-- The triangles of the frontier are corners of those they come from. -/
theorem mem_frontier_next {s : Sierpinski α} {t : Triangle α} :
    t ∈ s.next.frontier ↔ ∃ u ∈ s.frontier, t ∈ corners u (inner u) := by
  simp [next, List.mem_flatMap]

end Generations

/-- What has been drawn stays. -/
theorem triangles_grown_subset {α : Type} [Analytic α] (seed : Triangle α) {m n : ℕ} (h : m ≤ n) :
    (grown seed m).triangles ⊆ (grown seed n).triangles := by
  induction n, h using Nat.le_induction with
  | base => exact List.Subset.refl _
  | succ n _ ih => exact fun t ht => mem_triangles_next.2 (.inl (ih ht))

/-- Everything that a generation draws in sound triangles, or leaves of them, is finite. -/
theorem isFinite_next {s : Sierpinski Float} (htriangles : ∀ t ∈ s.triangles, t.isFinite = true)
    (hsound : ∀ t ∈ s.frontier, t.isSound = true) :
    (∀ t ∈ s.next.triangles, t.isFinite = true) ∧ ∀ t ∈ s.next.frontier, t.isFinite = true := by
  constructor
  · intro t ht
    rcases mem_triangles_next.1 ht with ht | ⟨u, hu, rfl⟩
    · exact htriangles t ht
    · exact Triangle.isFinite_inner (hsound u hu)
  · intro t ht
    obtain ⟨u, hu, ht⟩ := mem_frontier_next.1 ht
    have hcorners := Triangle.isFinite_of_isSound (hsound u hu)
    have hfeet := Triangle.isFinite_inner (hsound u hu)
    simp only [Triangle.isFinite, Bool.and_eq_true] at hcorners hfeet ⊢
    simp only [corners, List.mem_cons, List.not_mem_nil, or_false] at ht
    rcases ht with rfl | rfl | rfl
    · exact ⟨hfeet.1, hcorners.2⟩
    · exact ⟨⟨hfeet.1.1, hcorners.1.2⟩, hfeet.2⟩
    · exact ⟨⟨hcorners.1.1, hfeet.1.2⟩, hfeet.2⟩

/-- **A triangle can be divided until one of its parts collapses.** As long as the triangles that
are divided are sound, all triangles drawn and all that are left to divide have finite coordinates;
once a side of one of them has the length zero, some triangle drawn has not. -/
theorem finite_until_collapse (seed : Triangle Float) (n : ℕ) (hseed : seed.isFinite = true) :
    ((∀ m < n, ∀ t ∈ (grown seed m).frontier, t.isSound = true) →
      ∀ t ∈ (grown seed n).triangles ++ (grown seed n).frontier, t.isFinite = true) ∧
    ((∃ m < n, ∃ t ∈ (grown seed m).frontier, t.isCollapsed = true) →
      ∃ t ∈ (grown seed n).triangles, t.isFinite = false) := by
  constructor
  · intro hsound
    suffices h : (∀ t ∈ (grown seed n).triangles, t.isFinite = true) ∧
        ∀ t ∈ (grown seed n).frontier, t.isFinite = true by
      intro t ht
      exact (List.mem_append.1 ht).elim (h.1 t) (h.2 t)
    induction n with
    | zero =>
      have honly : ∀ t ∈ [seed], t.isFinite = true := by
        intro t ht
        rwa [List.mem_singleton.1 ht]
      exact ⟨honly, honly⟩
    | succ n ih =>
      have hbefore := ih fun m hm => hsound m (Nat.lt_succ_of_lt hm)
      exact isFinite_next hbefore.1 (hsound n (Nat.lt_succ_self n))
  · rintro ⟨m, hm, t, ht, hcollapsed⟩
    refine ⟨inner t, ?_, Triangle.not_isFinite_inner hcollapsed⟩
    exact triangles_grown_subset seed hm (mem_triangles_next.2 (.inr ⟨t, ht, rfl⟩))

/-- A right triangle. It is not degenerate, and yet it cannot be divided twice. -/
def rightAngled : Triangle Float := ⟨⟨0, 0⟩, ⟨4, 0⟩, ⟨0, 3⟩⟩

theorem finite_until_collapse_rightAngled :
    rightAngled.isFinite = true ∧ rightAngled.isDegenerate = false ∧
      (∀ t ∈ (grown rightAngled 1).triangles ++ (grown rightAngled 1).frontier,
        t.isFinite = true) ∧
      ∃ t ∈ (grown rightAngled 2).triangles, t.isFinite = false := by
  have hseed : rightAngled.isFinite = true := by decide
  have hsound : ∀ m < 1, ∀ t ∈ (grown rightAngled m).frontier, t.isSound = true := by
    decide +kernel
  have hcollapsed : ∃ m < 2, ∃ t ∈ (grown rightAngled m).frontier, t.isCollapsed = true :=
    ⟨1, by decide, by decide +kernel⟩
  exact ⟨hseed, by decide +kernel, (finite_until_collapse rightAngled 1 hseed).1 hsound,
    (finite_until_collapse rightAngled 2 hseed).2 hcollapsed⟩

end Sierpinski

end Easel
