import Easel.Proofs.Geometry.Altitudes
import Easel.Geometry.Labelled

/-!
# Where circles cross

The common points of two circles when nothing is rounded. A point is described by a complex number:
how far it lies along the line of the centres, and how far beside it. The common points lie as far
along as the radical line and as far beside as half the chord. The square of that is negative when
the circles are apart or nested, which is what the comparisons before it ask, so nothing is missed.
-/

namespace Easel

open scoped Exact

namespace Point

/-- The way from `p` to `q`, of length one. -/
noncomputable def direction (p q : Point ℝ) : ℂ := (q.place - p.place) / p.distance q

/-- The point that lies `z.re` along the way from `p` to `q` and `z.im` beside it. -/
noncomputable def along (p q : Point ℝ) (z : ℂ) : Point ℝ :=
  ⟨(p.place + z * direction p q).re, (p.place + z * direction p q).im⟩

variable {p q : Point ℝ}

theorem place_injective : Function.Injective place := by
  rintro ⟨x, y⟩ ⟨x', y'⟩ h
  obtain ⟨hx, hy⟩ := Complex.ext_iff.1 h
  exact congrArg₂ Point.mk hx hy

theorem distance_eq_norm (p q : Point ℝ) : p.distance q = ‖q.place - p.place‖ := by
  rw [Complex.norm_def, Complex.normSq_apply]
  rfl

theorem distance_pos_iff : 0 < p.distance q ↔ p ≠ q := by
  rw [distance_eq_norm, norm_pos_iff, sub_ne_zero, place_injective.ne_iff]
  exact ne_comm

theorem norm_direction (h : p ≠ q) : ‖direction p q‖ = 1 := by
  have hd := distance_pos_iff.2 h
  rw [direction, norm_div, Complex.norm_real, Real.norm_of_nonneg hd.le, ← distance_eq_norm,
    div_self hd.ne']

theorem direction_ne_zero (h : p ≠ q) : direction p q ≠ 0 :=
  norm_ne_zero_iff.1 (norm_direction h ▸ one_ne_zero)

theorem place_along (p q : Point ℝ) (z : ℂ) :
    (along p q z).place = p.place + z * direction p q := rfl

theorem along_mk (p q : Point ℝ) (s t : ℝ) :
    along p q ⟨s, t⟩ =
      ⟨p.x + s * ((q.x - p.x) / p.distance q) - t * ((q.y - p.y) / p.distance q),
        p.y + s * ((q.y - p.y) / p.distance q) + t * ((q.x - p.x) / p.distance q)⟩ := by
  simp only [along, direction, place, Complex.add_re, Complex.add_im, Complex.mul_re,
    Complex.mul_im, Complex.div_ofReal_re, Complex.div_ofReal_im, Complex.sub_re, Complex.sub_im]
  simp only [mk.injEq]
  exact ⟨by ring, by ring⟩

theorem along_injective (h : p ≠ q) : Function.Injective (along p q) := by
  intro z w hzw
  have hplace := congrArg place hzw
  rw [place_along, place_along, add_right_inj] at hplace
  exact mul_right_cancel₀ (direction_ne_zero h) hplace

theorem exists_along (h : p ≠ q) (r : Point ℝ) : ∃ z, along p q z = r := by
  refine ⟨(r.place - p.place) / direction p q, place_injective ?_⟩
  rw [place_along, div_mul_cancel₀ _ (direction_ne_zero h), add_sub_cancel]

theorem distance_along_start (h : p ≠ q) (z : ℂ) : (along p q z).distance p = ‖z‖ := by
  rw [distance_eq_norm, norm_sub_rev, place_along, add_sub_cancel_left, norm_mul, norm_direction h,
    mul_one]

theorem distance_along_end (h : p ≠ q) (z : ℂ) :
    (along p q z).distance q = ‖z - p.distance q‖ := by
  have hd : (p.distance q : ℂ) ≠ 0 := Complex.ofReal_ne_zero.2 (distance_pos_iff.2 h).ne'
  have hend : q.place = p.place + p.distance q * direction p q := by
    rw [direction, mul_div_cancel₀ _ hd, add_sub_cancel]
  have hway : (along p q z).place - q.place = (z - p.distance q) * direction p q := by
    rw [place_along, hend]
    ring
  rw [distance_eq_norm, norm_sub_rev, hway, norm_mul, norm_direction h, mul_one]

end Point

namespace Circle

open Point

variable {c₁ c₂ : Point ℝ} {r₁ r₂ d : ℝ}

/-- How far along the line of centres at the distance `d` the radical line crosses it. -/
noncomputable def radical (r₁ r₂ d : ℝ) : ℝ := (r₁ * r₁ - r₂ * r₂ + d * d) / (2 * d)

/-- The square of half the chord that the radical line cuts out; less than zero if it misses the
circles. -/
noncomputable def chordSq (r₁ r₂ d : ℝ) : ℝ := r₁ * r₁ - radical r₁ r₂ d * radical r₁ r₂ d

theorem eq_radical_iff (hd : 0 < d) (s : ℝ) :
    s = radical r₁ r₂ d ↔ s * (2 * d) = r₁ * r₁ - r₂ * r₂ + d * d :=
  eq_div_iff (mul_pos two_pos hd).ne'

/-- A triangle with the sides `r₁`, `r₂` and `d` has half the chord as its height. -/
theorem chordSq_mul (hd : 0 < d) :
    chordSq r₁ r₂ d * (2 * d) ^ 2 = ((r₁ + r₂) ^ 2 - d ^ 2) * (d ^ 2 - |r₁ - r₂| ^ 2) := by
  have hradical : radical r₁ r₂ d * (2 * d) = r₁ * r₁ - r₂ * r₂ + d * d :=
    (eq_radical_iff hd _).1 rfl
  rw [chordSq, sq_abs]
  linear_combination (-radical r₁ r₂ d * (2 * d) - (r₁ * r₁ - r₂ * r₂ + d * d)) * hradical

section Radii

variable (hd : 0 < d) (h₁ : 0 ≤ r₁) (h₂ : 0 ≤ r₂)

include hd h₁ h₂

/-- The radical line misses the circles exactly when they are apart or nested. At most one of the
two factors can be negative, since their sum is `4 * r₁ * r₂`. -/
theorem chordSq_neg_iff : chordSq r₁ r₂ d < 0 ↔ r₁ + r₂ < d ∨ d < |r₁ - r₂| := by
  have hapart : (r₁ + r₂) ^ 2 - d ^ 2 < 0 ↔ r₁ + r₂ < d := by
    rw [sub_neg, sq_lt_sq₀ (add_nonneg h₁ h₂) hd.le]
  have hnested : d ^ 2 - |r₁ - r₂| ^ 2 < 0 ↔ d < |r₁ - r₂| := by
    rw [sub_neg, sq_lt_sq₀ hd.le (abs_nonneg _)]
  have hsum : 0 ≤ ((r₁ + r₂) ^ 2 - d ^ 2) + (d ^ 2 - |r₁ - r₂| ^ 2) := by
    rw [sq_abs]
    linarith [mul_nonneg h₁ h₂]
  rw [← hapart, ← hnested, ← mul_lt_mul_iff_left₀ (pow_pos (mul_pos two_pos hd) 2), zero_mul,
    chordSq_mul hd, mul_neg_iff]
  constructor
  · rintro (⟨-, h⟩ | ⟨h, -⟩)
    · exact .inr h
    · exact .inl h
  · rintro (h | h)
    · exact .inr ⟨h, by linarith⟩
    · exact .inl ⟨by linarith, h⟩

theorem chordSq_eq_zero_iff : chordSq r₁ r₂ d = 0 ↔ d = r₁ + r₂ ∨ d = |r₁ - r₂| := by
  rw [← mul_eq_zero_iff_right (pow_pos (mul_pos two_pos hd) 2).ne', chordSq_mul hd, mul_eq_zero,
    sub_eq_zero, sub_eq_zero, sq_eq_sq₀ (add_nonneg h₁ h₂) hd.le, sq_eq_sq₀ hd.le (abs_nonneg _),
    eq_comm]

/-- The common points in the coordinates of the two centres. -/
theorem norm_eq_iff (z : ℂ) :
    ‖z‖ = r₁ ∧ ‖z - d‖ = r₂ ↔ z.re = radical r₁ r₂ d ∧ z.im ^ 2 = chordSq r₁ r₂ d := by
  have hstart : ‖z‖ = r₁ ↔ z.re * z.re + z.im * z.im = r₁ * r₁ := by
    rw [← sq_eq_sq₀ (norm_nonneg z) h₁, Complex.sq_norm, Complex.normSq_apply, pow_two]
  have hend : ‖z - d‖ = r₂ ↔ (z.re - d) * (z.re - d) + z.im * z.im = r₂ * r₂ := by
    rw [← sq_eq_sq₀ (norm_nonneg _) h₂, Complex.sq_norm, Complex.normSq_apply, pow_two,
      Complex.sub_re, Complex.sub_im, Complex.ofReal_re, Complex.ofReal_im, sub_zero]
  have hradical : z.re = radical r₁ r₂ d ↔ _ := eq_radical_iff hd z.re
  rw [hstart, hend, chordSq]
  constructor
  · rintro ⟨hs, he⟩
    have hre : z.re = radical r₁ r₂ d := hradical.2 (by linear_combination hs - he)
    refine ⟨hre, ?_⟩
    rw [← hre]
    linear_combination hs
  · rintro ⟨hre, him⟩
    rw [← hre] at him
    exact ⟨by linear_combination him, by linear_combination him - hradical.1 hre⟩

end Radii

theorem commonPoints_self (c : Point ℝ) (r₁ r₂ : ℝ) : commonPoints c r₁ c r₂ = [] := by
  have hd : c.distance c = 0 := by
    rw [distance_eq_norm, sub_self, norm_zero]
  simp only [commonPoints, hd, Exact.literal_eq]
  push_cast
  rw [beq_self_eq_true, Bool.true_or, Bool.true_or, if_pos rfl]

/-- The points that are listed, in the coordinates of the two centres. -/
theorem commonPoints_eq (h : c₁ ≠ c₂) (h₁ : 0 ≤ r₁) (h₂ : 0 ≤ r₂) :
    commonPoints c₁ r₁ c₂ r₂ =
      if chordSq r₁ r₂ (c₁.distance c₂) < 0 then []
      else if chordSq r₁ r₂ (c₁.distance c₂) = 0 then
        [along c₁ c₂ ⟨radical r₁ r₂ (c₁.distance c₂), 0⟩]
      else
        [along c₁ c₂ ⟨radical r₁ r₂ (c₁.distance c₂), √(chordSq r₁ r₂ (c₁.distance c₂))⟩,
          along c₁ c₂ ⟨radical r₁ r₂ (c₁.distance c₂), -√(chordSq r₁ r₂ (c₁.distance c₂))⟩] := by
  have hd := distance_pos_iff.2 h
  have hmisses := chordSq_neg_iff hd h₁ h₂
  have hradical : (r₁ * r₁ - r₂ * r₂ + c₁.distance c₂ * c₁.distance c₂) / (2 * c₁.distance c₂) =
      radical r₁ r₂ (c₁.distance c₂) := rfl
  have hchord : r₁ * r₁ - radical r₁ r₂ (c₁.distance c₂) * radical r₁ r₂ (c₁.distance c₂) =
      chordSq r₁ r₂ (c₁.distance c₂) := rfl
  simp only [commonPoints, Exact.literal_eq]
  push_cast
  rw [hradical, hchord]
  generalize radical r₁ r₂ (c₁.distance c₂) = a, chordSq r₁ r₂ (c₁.distance c₂) = m at *
  simp only [beq_iff_eq, Bool.or_eq_true, decide_eq_true_eq, hd.ne', false_or, Exact.abs_eq,
    ← hmisses, Exact.sqrt_eq, Exact.larger_eq]
  split
  case isTrue hm => rfl
  case isFalse hm =>
    simp only [max_eq_left (not_lt.1 hm), Real.sqrt_eq_zero (not_lt.1 hm)]
    split
    case isTrue hzero =>
      simp only [along_mk, zero_mul, sub_zero, add_zero]
    case isFalse hpos =>
      simp only [along_mk, neg_mul, sub_neg_eq_add, ← sub_eq_add_neg]

section Crossing

variable (h : c₁ ≠ c₂) (h₁ : 0 ≤ r₁) (h₂ : 0 ≤ r₂)

include h h₁ h₂

theorem nodup_commonPoints : (commonPoints c₁ r₁ c₂ r₂).Nodup := by
  rw [commonPoints_eq h h₁ h₂]
  split
  case isTrue => exact List.nodup_nil
  case isFalse hneg =>
    split
    case isTrue => exact List.nodup_singleton _
    case isFalse hzero =>
      have hroot := Real.sqrt_pos.2 ((not_lt.1 hneg).lt_of_ne' hzero)
      rw [List.nodup_cons, List.mem_singleton]
      refine ⟨fun heq => ?_, List.nodup_singleton _⟩
      have him := (Complex.ext_iff.1 (along_injective h heq)).2
      exact (self_eq_neg.1 him ▸ hroot).false

theorem mem_commonPoints_iff (p : Point ℝ) :
    p ∈ commonPoints c₁ r₁ c₂ r₂ ↔ p.distance c₁ = r₁ ∧ p.distance c₂ = r₂ := by
  obtain ⟨z, rfl⟩ := exists_along h p
  rw [distance_along_start h, distance_along_end h, norm_eq_iff (distance_pos_iff.2 h) h₁ h₂,
    commonPoints_eq h h₁ h₂]
  have hmem (s t : ℝ) : along c₁ c₂ z = along c₁ c₂ ⟨s, t⟩ ↔ z.re = s ∧ z.im = t := by
    rw [(along_injective h).eq_iff, Complex.ext_iff]
  generalize radical r₁ r₂ (c₁.distance c₂) = a, chordSq r₁ r₂ (c₁.distance c₂) = m
  split
  case isTrue hm =>
    refine iff_of_false List.not_mem_nil fun ⟨_, him⟩ => ?_
    exact hm.not_ge (him ▸ sq_nonneg z.im)
  case isFalse hm =>
    have hroot := Real.sq_sqrt (not_lt.1 hm)
    split
    case isTrue hzero =>
      rw [List.mem_singleton, hmem, hzero, sq_eq_zero_iff]
    case isFalse =>
      rw [List.mem_pair, hmem, hmem, ← and_or_left, ← sq_eq_sq_iff_eq_or_eq_neg, hroot]

theorem length_commonPoints_eq_one_iff :
    (commonPoints c₁ r₁ c₂ r₂).length = 1 ↔
      c₁.distance c₂ = r₁ + r₂ ∨ c₁.distance c₂ = |r₁ - r₂| := by
  rw [← chordSq_eq_zero_iff (distance_pos_iff.2 h) h₁ h₂, commonPoints_eq h h₁ h₂]
  split
  case isTrue hneg => exact iff_of_false Nat.zero_ne_one hneg.ne
  case isFalse =>
    split
    case isTrue hzero => exact iff_of_true rfl hzero
    case isFalse hzero => exact iff_of_false (by simp only [List.length_cons]; decide) hzero

end Crossing

end Circle

namespace LabelledCircle

/-- Labelled circles cross where the circles do, at points without labels. -/
theorem mem_intersect_iff {c d : LabelledCircle ℝ} (h : c.circle.center ≠ d.circle.center)
    (hc : 0 ≤ c.circle.radius) (hd : 0 ≤ d.circle.radius) (p : LabelledPoint ℝ) :
    p ∈ c.intersect d ↔ p.label = none ∧ p.point.distance c.circle.center = c.circle.radius ∧
      p.point.distance d.circle.center = d.circle.radius := by
  rw [← Circle.mem_commonPoints_iff h hc hd, intersect, List.mem_map]
  constructor
  · rintro ⟨q, hq, rfl⟩
    exact ⟨rfl, hq⟩
  · rintro ⟨hlabel, hp⟩
    refine ⟨p.point, hp, ?_⟩
    rw [← hlabel]

end LabelledCircle

namespace Circle

open Point

/-- **The common points of two circles are found, all of them and nothing else.** Which circle comes
first makes no difference to which points are listed, and there is one point exactly when the
circles touch, from outside or one inside the other. Labelled circles of these centres and radii
cross at the same points, which have no labels. -/
theorem commonPoints_exact (c₁ c₂ : Point ℝ) (r₁ r₂ : ℝ) (h₁ : 0 ≤ r₁) (h₂ : 0 ≤ r₂) :
    (c₁ = c₂ → commonPoints c₁ r₁ c₂ r₂ = []) ∧
    (c₁ ≠ c₂ → (commonPoints c₁ r₁ c₂ r₂).Nodup ∧
      (∀ p, p ∈ commonPoints c₁ r₁ c₂ r₂ ↔ p.distance c₁ = r₁ ∧ p.distance c₂ = r₂) ∧
      (commonPoints c₁ r₁ c₂ r₂).Perm (commonPoints c₂ r₂ c₁ r₁) ∧
      ((commonPoints c₁ r₁ c₂ r₂).length = 1 ↔
        c₁.distance c₂ = r₁ + r₂ ∨ c₁.distance c₂ = |r₁ - r₂|) ∧
      ∀ (k₁ k₂ : ℝ) (l₁ l₂ : Option String) (p : LabelledPoint ℝ),
        p ∈ LabelledCircle.intersect ⟨⟨c₁, r₁, k₁⟩, l₁⟩ ⟨⟨c₂, r₂, k₂⟩, l₂⟩ ↔
          p.label = none ∧ p.point.distance c₁ = r₁ ∧ p.point.distance c₂ = r₂) := by
  refine ⟨?_, fun h => ⟨nodup_commonPoints h h₁ h₂, mem_commonPoints_iff h h₁ h₂, ?_,
    length_commonPoints_eq_one_iff h h₁ h₂,
    fun _ _ _ _ => LabelledCircle.mem_intersect_iff h h₁ h₂⟩⟩
  · rintro rfl
    exact commonPoints_self c₁ r₁ r₂
  · refine (List.perm_ext_iff_of_nodup (nodup_commonPoints h h₁ h₂)
      (nodup_commonPoints h.symm h₂ h₁)).2 fun p => ?_
    rw [mem_commonPoints_iff h h₁ h₂, mem_commonPoints_iff h.symm h₂ h₁, and_comm]

/-- Two circles of radius five whose centres are six apart cross at two points. -/
theorem commonPoints_exact_five :
    (⟨0, 4⟩ : Point ℝ) ∈ commonPoints ⟨-3, 0⟩ 5 ⟨3, 0⟩ 5 ∧
      (⟨0, -4⟩ : Point ℝ) ∈ commonPoints ⟨3, 0⟩ 5 ⟨-3, 0⟩ 5 ∧
      (commonPoints (⟨-3, 0⟩ : Point ℝ) 5 ⟨3, 0⟩ 5).length ≠ 1 := by
  have hfive : (0 : ℝ) ≤ 5 := by norm_num
  have hcentres : (⟨-3, 0⟩ : Point ℝ) ≠ ⟨3, 0⟩ := by
    rw [Ne, Point.mk.injEq]
    norm_num
  obtain ⟨-, hmem, hperm, hone, -⟩ := (commonPoints_exact ⟨-3, 0⟩ ⟨3, 0⟩ 5 5 hfive hfive).2 hcentres
  have hlength {p q : Point ℝ} {r : ℝ} (hr : 0 ≤ r)
      (hsq : (q.x - p.x) * (q.x - p.x) + (q.y - p.y) * (q.y - p.y) = r ^ 2) : p.distance q = r :=
    (sq_eq_sq₀ (distance_nonneg p q) hr).1 ((distance_sq p q).trans hsq)
  have hsix : (⟨-3, 0⟩ : Point ℝ).distance ⟨3, 0⟩ = 6 := hlength (by norm_num) (by norm_num)
  refine ⟨(hmem _).2 ⟨hlength hfive ?_, hlength hfive ?_⟩,
    hperm.mem_iff.1 ((hmem _).2 ⟨hlength hfive ?_, hlength hfive ?_⟩), mt hone.1 ?_⟩
  · norm_num
  · norm_num
  · norm_num
  · norm_num
  · rw [hsix]
    norm_num

end Circle

end Easel
