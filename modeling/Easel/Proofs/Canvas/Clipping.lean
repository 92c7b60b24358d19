import Mathlib
import Easel.Canvas.Clip
import Easel.Proofs.Number.Exact

/-!
# Clipping is exact

In exact numbers, clipping a segment to a box gives the part of the segment in the box, by its first
and its last point. Each side of the box leaves an interval of parameters an interval: `Ends` says
that a range of the program is an interval of real numbers, and `Ends.cut` that one more side keeps
it so. Neither the segment nor the box need have an extent; a box may be empty.
-/

namespace Easel.Box

open Set
open scoped Exact

/-! ## Ranges of parameters -/

/-- The range holds the two ends of the interval, or says that it is empty. -/
def Ends : Option (ℝ × ℝ) → Set ℝ → Prop
  | none, s => s = ∅
  | some (low, high), s => low ≤ high ∧ s = Icc low high

namespace Ends

variable {s : Set ℝ} {low high p q : ℝ}

theorem isLeast (h : Ends (some (low, high)) s) : IsLeast s low := by
  rw [h.2]
  exact isLeast_Icc h.1

theorem isGreatest (h : Ends (some (low, high)) s) : IsGreatest s high := by
  rw [h.2]
  exact isGreatest_Icc h.1

/-- A half plane along which the segment runs leaves all parameters or none. -/
theorem cut_zero (h : low ≤ high) (q : ℝ) :
    Ends (Box.cut 0 q (low, high)) (Icc low high ∩ {t | 0 * t ≤ q}) := by
  simp only [Box.cut, beq_self_eq_true, if_true, Exact.literal_eq, Nat.cast_zero, zero_mul]
  split
  case isTrue hq => simp [Ends, not_le.2 hq]
  case isFalse hq => simp [Ends, not_lt.1 hq, h]

/-- A half plane that the segment enters bounds the parameters from below. -/
theorem cut_neg (h : low ≤ high) (hp : p < 0) (q : ℝ) :
    Ends (Box.cut p q (low, high)) (Icc low high ∩ {t | p * t ≤ q}) := by
  have hside : {t | p * t ≤ q} = Ici (q / p) := by
    ext t
    rw [mem_ofPred_eq, mem_Ici, div_le_iff_of_neg hp, mul_comm]
  simp only [Box.cut, beq_iff_eq, Exact.literal_eq, Nat.cast_zero, if_neg hp.ne, if_pos hp, hside]
  split
  case isTrue hout =>
    refine eq_empty_iff_forall_notMem.2 fun t ht => ?_
    exact absurd (ht.2.trans ht.1.2) (not_le.2 hout)
  case isFalse hin =>
    refine ⟨max_le h (not_lt.1 hin), ?_⟩
    ext t
    simp only [mem_inter_iff, mem_Icc, mem_Ici, Exact.larger_eq, max_le_iff]
    tauto

/-- A half plane that the segment leaves bounds the parameters from above. -/
theorem cut_pos (h : low ≤ high) (hp : 0 < p) (q : ℝ) :
    Ends (Box.cut p q (low, high)) (Icc low high ∩ {t | p * t ≤ q}) := by
  have hside : {t | p * t ≤ q} = Iic (q / p) := by
    ext t
    rw [mem_ofPred_eq, mem_Iic, le_div_iff₀ hp, mul_comm]
  simp only [Box.cut, beq_iff_eq, Exact.literal_eq, Nat.cast_zero, if_neg hp.ne',
    if_neg hp.not_gt, hside]
  split
  case isTrue hout =>
    refine eq_empty_iff_forall_notMem.2 fun t ht => ?_
    exact absurd (ht.1.1.trans ht.2) (not_le.2 hout)
  case isFalse hin =>
    refine ⟨le_min h (not_lt.1 hin), ?_⟩
    ext t
    simp only [mem_inter_iff, mem_Icc, mem_Iic, Exact.smaller_eq, le_min_iff]
    tauto

/-- A cut leaves of an interval what is on its side. -/
theorem cut {range : Option (ℝ × ℝ)} (h : Ends range s) (p q : ℝ) :
    Ends (range.bind (Box.cut p q)) (s ∩ {t | p * t ≤ q}) := by
  match range with
  | none =>
    rw [show s = ∅ from h, empty_inter]
    rfl
  | some (low, high) =>
    obtain ⟨hle, rfl⟩ := h
    rcases lt_trichotomy p 0 with hp | rfl | hp
    · exact cut_neg hle hp q
    · exact cut_zero hle q
    · exact cut_pos hle hp q

end Ends

/-! ## Segments and boxes -/

/-- The positions in the box, its sides included. -/
def region (b : Box ℝ) : Set (Position ℝ) := Icc (b.left, b.top) (b.right, b.bottom)

/-- The parameters for which the segment is in the box. -/
def inside (b : Box ℝ) (start stop : Position ℝ) : Set ℝ :=
  {t ∈ Icc 0 1 | start + t • (stop - start) ∈ b.region}

variable {b : Box ℝ} {start stop : Position ℝ}

theorem mem_region {p : Position ℝ} :
    p ∈ b.region ↔ b.left ≤ p.1 ∧ p.1 ≤ b.right ∧ b.top ≤ p.2 ∧ p.2 ≤ b.bottom := by
  simp only [region, mem_Icc, Prod.le_def]
  tauto

theorem along_eq (start stop : Position ℝ) (t : ℝ) :
    along start stop t = start + t • (stop - start) := rfl

theorem along_eq_lineMap (start stop : Position ℝ) :
    along start stop = AffineMap.lineMap (k := ℝ) start stop := by
  funext t
  rw [AffineMap.lineMap_apply, along_eq, vsub_eq_sub, vadd_eq_add, add_comm]

/-- The four sides of the box, as bounds on the parameter. -/
theorem inside_eq (b : Box ℝ) (start stop : Position ℝ) :
    b.inside start stop = Icc 0 1 ∩ {t | -(stop.1 - start.1) * t ≤ start.1 - b.left} ∩
      {t | (stop.1 - start.1) * t ≤ b.right - start.1} ∩
      {t | -(stop.2 - start.2) * t ≤ start.2 - b.top} ∩
      {t | (stop.2 - start.2) * t ≤ b.bottom - start.2} := by
  ext t
  have hposition : start + t • (stop - start) =
    (start.1 + t * (stop.1 - start.1), start.2 + t * (stop.2 - start.2)) := rfl
  simp only [inside, hposition, mem_region, mem_inter_iff, mem_ofPred_eq]
  constructor
  · rintro ⟨ht, hleft, hright, htop, hbottom⟩
    exact ⟨⟨⟨⟨ht, by linarith⟩, by linarith⟩, by linarith⟩, by linarith⟩
  · rintro ⟨⟨⟨⟨ht, hleft⟩, hright⟩, htop⟩, hbottom⟩
    exact ⟨ht, by linarith, by linarith, by linarith, by linarith⟩

theorem ends_parameters (b : Box ℝ) (start stop : Position ℝ) :
    Ends (b.parameters start stop) (b.inside start stop) := by
  have hwhole : Ends (some (0, 1)) (Icc 0 1) := ⟨zero_le_one, rfl⟩
  have hcuts := (((hwhole.cut (-(stop.1 - start.1)) (start.1 - b.left)).cut
    (stop.1 - start.1) (b.right - start.1)).cut
    (-(stop.2 - start.2)) (start.2 - b.top)).cut (stop.2 - start.2) (b.bottom - start.2)
  rw [← inside_eq] at hcuts
  simpa only [parameters, Exact.literal_eq, Nat.cast_zero, Nat.cast_one, Option.bind_some,
    Option.bind_assoc] using hcuts

/-- The segment between two points of a segment. -/
theorem segment_along {low high : ℝ} (h : low ≤ high) :
    segment ℝ (along start stop low) (along start stop high) =
      along start stop '' Icc low high := by
  rw [along_eq_lineMap, ← image_segment, segment_eq_Icc h]

theorem segment_inter_region (b : Box ℝ) (start stop : Position ℝ) :
    segment ℝ start stop ∩ b.region = along start stop '' b.inside start stop := by
  rw [segment_eq_image_lineMap, ← along_eq_lineMap]
  ext p
  constructor
  · rintro ⟨⟨t, ht, rfl⟩, hp⟩
    exact ⟨t, ⟨ht, hp⟩, rfl⟩
  · rintro ⟨t, ⟨ht, hp⟩, rfl⟩
    exact ⟨⟨t, ht, rfl⟩, hp⟩

/-- What is clipped away, and what is left: the ends of the interval of parameters. -/
theorem clip_cases (b : Box ℝ) (start stop : Position ℝ) :
    (b.clip start stop = none ∧ b.inside start stop = ∅) ∨
      ∃ low high, b.clip start stop = some (along start stop low, along start stop high) ∧
        low ≤ high ∧ b.inside start stop = Icc low high := by
  have hends := ends_parameters b start stop
  rw [clip]
  match h : b.parameters start stop with
  | none =>
    rw [h] at hends
    exact .inl ⟨rfl, hends⟩
  | some (low, high) =>
    rw [h] at hends
    exact .inr ⟨low, high, rfl, hends.1, hends.2⟩

/-- **Clipping is exact.** In exact numbers a segment is clipped away if and only if no point of it
is in the box. Otherwise clipping gives its points for the least and the greatest parameter for
which it is in the box, in this order, and what lies between them is exactly the part of the segment
in the box. -/
theorem clip_exact (b : Box ℝ) (start stop : Position ℝ) :
    (b.clip start stop = none ↔
      ∀ t ∈ Icc (0 : ℝ) 1, start + t • (stop - start) ∉ b.region) ∧
    ∀ first last, b.clip start stop = some (first, last) →
      (∃ low high, IsLeast {t ∈ Icc (0 : ℝ) 1 | start + t • (stop - start) ∈ b.region} low ∧
        IsGreatest {t ∈ Icc (0 : ℝ) 1 | start + t • (stop - start) ∈ b.region} high ∧
        first = start + low • (stop - start) ∧ last = start + high • (stop - start)) ∧
      segment ℝ first last = segment ℝ start stop ∩ b.region := by
  rcases clip_cases b start stop with ⟨hclip, hinside⟩ | ⟨low, high, hclip, hle, hinside⟩
  · refine ⟨iff_of_true hclip fun t ht hp => ?_, fun first last h => ?_⟩
    · exact (hinside ▸ (⟨ht, hp⟩ : t ∈ b.inside start stop) : t ∈ (∅ : Set ℝ))
    · rw [hclip] at h
      cases h
  · have hends : Ends (some (low, high)) (b.inside start stop) := ⟨hle, hinside⟩
    refine ⟨iff_of_false (by simp [hclip]) fun h => ?_, fun first last h => ?_⟩
    · exact h low hends.isLeast.1.1 hends.isLeast.1.2
    · rw [hclip] at h
      cases h
      refine ⟨⟨low, high, hends.isLeast, hends.isGreatest, rfl, rfl⟩, ?_⟩
      rw [segment_along hle, segment_inter_region, hinside]

/-- A segment that runs into the box, along it and out of it. -/
theorem clip_exact_through :
    (⟨0, 0, 10, 10⟩ : Box ℝ).clip (-10, 5) (30, 5) = some ((0, 5), (10, 5)) ∧
      segment ℝ (0, 5) (10, 5) =
        segment ℝ (-10, 5) (30, 5) ∩ (⟨0, 0, 10, 10⟩ : Box ℝ).region := by
  have hclip : (⟨0, 0, 10, 10⟩ : Box ℝ).clip (-10, 5) (30, 5) = some ((0, 5), (10, 5)) := by
    simp only [clip, parameters, Box.cut, along, Exact.literal_eq, Exact.neg_eq, Exact.lt_iff,
      beq_iff_eq]
    norm_num
  exact ⟨hclip, ((clip_exact _ _ _).2 _ _ hclip).2⟩

end Easel.Box
