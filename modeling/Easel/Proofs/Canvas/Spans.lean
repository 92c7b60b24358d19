import Mathlib
import Easel.Proofs.Canvas.Marks
import Easel.Proofs.Canvas.Opacity

/-!
# Spans of a row

A fill paints each row in spans, from the first crossing to the second, from the third to the
fourth, and so on. It lays its colour over a pixel as often as there are spans of the row that cover
the pixel: `Raster.countP_fillMarks` and `Raster.pixel?_fill`.

The rest is about crossings in order. Where there is no crossing, a span covers a place if and only
if the number of crossings before it is odd, and then it is the only one. Two spans cover a place
only if one ends and the next one begins there.
-/

namespace Easel

/-! ## One colour over a pixel -/

/-- Marks of one colour lay it over a pixel as often as they are on the pixel. -/
theorem Image.pixel?_mark_of_colour {c : Colour} {marks : List Mark}
    (h : ∀ m ∈ marks, m.colour = c) (i : Image) (x y : ℕ) :
    (i.mark marks).pixel? x y = (i.pixel? x y).map c.onto^[marks.countP fun m => m.On x y] := by
  induction marks generalizing i with
  | nil => simp
  | cons m marks ih =>
    obtain ⟨rfl, hmarks⟩ := List.forall_mem_cons.1 h
    have hblend : (i.blend m.x m.y m.colour).pixel? x y =
        if m.On x y then (i.pixel? x y).map m.colour.onto else i.pixel? x y :=
      pixel?_blend ..
    rw [mark_cons, ih hmarks, hblend, List.countP_cons]
    simp only [decide_eq_true_eq]
    split
    case isTrue => rw [Option.map_map, Function.iterate_succ]
    case isFalse => rfl

/-! ## Pairs -/

namespace Path

section Pairs

variable {β : Type}

theorem length_pairs (l : List β) : (pairs l).length = l.length / 2 := by
  induction l using List.twoStepInduction with
  | nil => simp [pairs]
  | singleton a => simp [pairs]
  | cons_cons a b rest ih => simp only [pairs, List.length_cons, ih]; omega

theorem mem_of_mem_pairs {l : List β} {s : β × β} (h : s ∈ pairs l) : s.1 ∈ l ∧ s.2 ∈ l := by
  induction l using List.twoStepInduction with
  | nil => cases h
  | singleton a => cases h
  | cons_cons a b rest ih =>
    rcases List.mem_cons.1 h with rfl | h
    · simp
    · exact (ih h).imp (by simp +contextual) (by simp +contextual)

variable {γ : Type} [LinearOrder γ] {f : β → γ} {c : γ}

/-- How many pairs of a list reach over the place `c`, where `f` places the members. -/
def coverage (f : β → γ) (c : γ) (l : List β) : ℕ :=
  (pairs l).countP fun s => f s.1 ≤ c ∧ c ≤ f s.2

theorem coverage_cons_cons (f : β → γ) (c : γ) (a b : β) (rest : List β) :
    coverage f c (a :: b :: rest) =
      coverage f c rest + if f a ≤ c ∧ c ≤ f b then 1 else 0 := by
  simp [coverage, pairs, List.countP_cons]

/-- Where there is no member, the parity of the number of members before it decides. -/
theorem coverage_eq_mod_two {l : List β} (hsorted : l.Pairwise fun a b => f a ≤ f b)
    (heven : Even l.length) (hc : ∀ a ∈ l, f a ≠ c) :
    coverage f c l = (l.countP fun a => f a < c) % 2 := by
  induction l using List.twoStepInduction with
  | nil => rfl
  | singleton a => exact absurd heven Nat.not_even_one
  | cons_cons a b rest ih =>
    obtain ⟨ha, hsorted⟩ := List.pairwise_cons.1 hsorted
    obtain ⟨hb, hsorted⟩ := List.pairwise_cons.1 hsorted
    have hrest : coverage f c rest = (rest.countP fun a => f a < c) % 2 := by
      refine ih hsorted ?_ fun x hx => hc x (by simp [hx])
      have htwo : Even (rest.length + 2) := heven
      exact (Nat.even_add.1 htwo).2 even_two
    have hab := ha b (by simp)
    -- The members behind the pair come after the place unless the whole pair comes before it.
    have hbehind : ¬f b < c → (rest.countP fun a => f a < c) = 0 := fun hlt =>
      List.countP_eq_zero.2 fun x hx => by
        simpa using (not_lt.1 hlt).trans (hb x hx)
    have hne := hc a (by simp)
    have hne' := hc b (by simp)
    rw [coverage_cons_cons, hrest, List.countP_cons, List.countP_cons]
    simp only [decide_eq_true_eq]
    rcases lt_or_gt_of_ne hne with hlt | hlt
    · rcases lt_or_gt_of_ne hne' with hlt' | hlt'
      · rw [if_neg (fun h => not_lt.2 h.2 hlt'), if_pos hlt', if_pos hlt]
        omega
      · rw [if_pos ⟨hlt.le, hlt'.le⟩, if_neg hlt'.not_gt, if_pos hlt, hbehind hlt'.not_gt]
    · have hlt' := hlt.trans_le hab
      rw [if_neg (fun h => not_lt.2 h.1 hlt), if_neg hlt'.not_gt, if_neg hlt.not_gt,
        hbehind hlt'.not_gt]

/-- If two pairs reach over a place, one ends there and the next begins there. -/
theorem exists_meeting {l : List β} (hsorted : l.Pairwise fun a b => f a ≤ f b)
    (h : 1 < coverage f c l) : ∃ s t, [s, t] <:+: pairs l ∧ f s.2 = c ∧ f t.1 = c := by
  induction l using List.twoStepInduction with
  | nil => simp [coverage, pairs] at h
  | singleton a => simp [coverage, pairs] at h
  | cons_cons a b rest ih =>
    obtain ⟨hb, hsorted⟩ := List.pairwise_cons.1 (List.pairwise_cons.1 hsorted).2
    rw [coverage_cons_cons] at h
    split at h
    case isFalse =>
      obtain ⟨s, t, hst, hmeet⟩ := ih hsorted h
      exact ⟨s, t, hst.trans (List.suffix_cons (a, b) _).isInfix, hmeet⟩
    case isTrue hover =>
      -- Another pair comes back to the place, so the next pair begins there.
      obtain ⟨u, hu, hback⟩ := List.countP_pos_iff.1 (Nat.lt_of_succ_lt_succ h)
      have hback : f u.1 ≤ c := (of_decide_eq_true hback).1
      match rest, hu with
      | a' :: b' :: rest, hu =>
        have hnext := hb a' (by simp)
        have hfirst : f a' ≤ f u.1 := by
          rcases List.mem_cons.1 (mem_of_mem_pairs hu).1 with h | h
          · rw [h]
          · exact (List.pairwise_cons.1 hsorted).1 _ h
        have hend : f b = c := le_antisymm (hnext.trans (hfirst.trans hback)) hover.2
        have hbegin : f a' = c := le_antisymm (hfirst.trans hback) (hend ▸ hnext)
        exact ⟨(a, b), (a', b'), (List.prefix_append _ (pairs rest)).isInfix, hend, hbegin⟩

/-- If one pair ends at a place and the next begins there, both reach over it. -/
theorem one_lt_coverage {l : List β} (hsorted : l.Pairwise fun a b => f a ≤ f b) {s t : β × β}
    (h : [s, t] <:+: pairs l) (hend : f s.2 = c) (hbegin : f t.1 = c) : 1 < coverage f c l := by
  induction l using List.twoStepInduction with
  | nil => simp [pairs] at h
  | singleton a => simp [pairs] at h
  | cons_cons a b rest ih =>
    obtain ⟨ha, hsorted⟩ := List.pairwise_cons.1 hsorted
    have hsorted := (List.pairwise_cons.1 hsorted).2
    rcases List.infix_cons_iff.1 (h : [s, t] <:+: (a, b) :: pairs rest) with hfirst | hlater
    · match rest, hfirst with
      | [], hfirst => simp [pairs] at hfirst
      | [_], hfirst => simp [pairs] at hfirst
      | a' :: b' :: rest, hfirst =>
        obtain ⟨rfl, rfl⟩ : s = (a, b) ∧ t = (a', b') := by
          simpa [pairs, List.cons_prefix_cons] using hfirst
        have hab := ha b (by simp)
        have hab' := (List.pairwise_cons.1 hsorted).1 b' (by simp)
        rw [coverage_cons_cons, coverage_cons_cons, if_pos ⟨hbegin.le, hbegin ▸ hab'⟩,
          if_pos ⟨hend ▸ hab, hend.ge⟩]
        omega
    · rw [coverage_cons_cons]
      exact (ih hsorted hlater).trans_le (Nat.le_add_right _ _)

end Pairs

section Covers

variable {α : Type} [Scalar α]

/-- Whether a span of a row of `width` pixels covers column `x`. -/
def Covers (width x : ℕ) (s : α × α) : Prop :=
  (columns width s).1 ≤ x ∧ x < (columns width s).1 + (columns width s).2

instance (width x : ℕ) (s : α × α) : Decidable (Covers width x s) :=
  inferInstanceAs (Decidable (_ ∧ _))

theorem covers_iff {width x : ℕ} (hx : x < width) (s : α × α) :
    Covers width x s ↔ Scalar.ceil (s.1 - 0.5) ≤ x ∧ x ≤ Scalar.floor (s.2 - 0.5) := by
  simp only [Covers, columns]
  omega

end Covers

end Path

/-! ## The spans of a fill -/

namespace Raster

section Counts

variable {α : Type} [Scalar α] {x y : ℕ}

theorem countP_flatMap_eq {β : Type} {l : List β} {f : β → List Mark} {p : Mark → Bool}
    {q : β → Bool} (h : ∀ b, (f b).countP p = if q b then 1 else 0) :
    (l.flatMap f).countP p = l.countP q := by
  induction l with
  | nil => rfl
  | cons b l ih => rw [List.flatMap_cons, List.countP_append, ih, h, List.countP_cons, add_comm]

/-- A span has one mark in each of its columns. -/
theorem countP_span (colour : Colour) (row first : ℤ) (n : ℕ) :
    ((List.range n).flatMap fun (k : ℕ) => [(⟨first + k, row, colour⟩ : Mark)]).countP
        (fun m => m.On x y) =
      if row = y ∧ first ≤ x ∧ x < first + n then 1 else 0 := by
  induction n with
  | zero => simp
  | succ n ih =>
    have hon : (⟨first + n, row, colour⟩ : Mark).On x y ↔ first + n = x ∧ row = y := .rfl
    rw [List.range_succ, List.flatMap_append, List.countP_append, ih, List.flatMap_cons,
      List.flatMap_nil, List.append_nil, List.countP_singleton]
    simp only [decide_eq_true_eq, hon]
    split_ifs <;> omega

theorem countP_rowMarks (edges : List (Position α × Position α)) (colour : Colour) (row : ℕ)
    (i : Image) :
    (rowMarks edges colour row i).countP (fun m => m.On x y) =
      if row = y then
        (Path.pairs (Path.crossings edges (Scalar.ofInt y + 0.5))).countP fun s =>
          Path.Covers i.width x s
      else 0 := by
  split
  case isTrue h =>
    subst h
    refine countP_flatMap_eq fun s => ?_
    rw [countP_span]
    simp only [true_and, decide_eq_true_eq]
    rfl
  case isFalse h =>
    refine List.countP_eq_zero.2 fun m hm => ?_
    simp only [rowMarks, List.mem_flatMap, List.mem_singleton] at hm
    obtain ⟨_, _, _, _, rfl⟩ := hm
    simp [Mark.On, h]

/-- The marks of a fill on a pixel are as many as the spans of its row that cover it. -/
theorem countP_fillMarks (edges : List (Position α × Position α)) (colour : Colour) {i : Image}
    (hy : y < i.height) :
    (fillMarks edges colour i).countP (fun m => m.On x y) =
      (Path.pairs (Path.crossings edges (Scalar.ofInt y + 0.5))).countP fun s =>
        Path.Covers i.width x s := by
  have hrows : ∀ n, ((List.range n).flatMap (rowMarks edges colour · i)).countP
      (fun m => m.On x y) = if y < n then
        (Path.pairs (Path.crossings edges (Scalar.ofInt y + 0.5))).countP fun s =>
          Path.Covers i.width x s else 0 := fun n => by
    induction n with
    | zero => rfl
    | succ n ih =>
      rw [List.range_succ, List.flatMap_append, List.countP_append, ih, List.flatMap_cons,
        List.flatMap_nil, List.append_nil, countP_rowMarks]
      split_ifs <;> omega
  rw [fillMarks, hrows, if_pos hy]

end Counts

/-- A fill lays its colour over a pixel as often as spans of the row cover the pixel. -/
theorem pixel?_fill {α : Type} [Analytic α] (r : Raster α) (colour : Colour) {x y n : ℕ}
    (h : (r.marks (.fill colour)).countP (fun m => m.On x y) = n) :
    (r.perform (.fill colour)).image.pixel? x y = (r.image.pixel? x y).map colour.onto^[n] := by
  rw [image_perform, ← h]
  exact Image.pixel?_mark_of_colour (fun m hm => colour_of_mem_fillMarks hm) _ _ _

end Raster

end Easel
