import Mathlib
import Easel.Proofs.Canvas.Spans
import Easel.Proofs.Number.Exact

/-!
# The even-odd rule

In exact numbers a fill paints the pixels whose middles have an odd number of edges to their left,
each once, and no others. Every part of a path is closed before it is filled, and an edge crosses a
height exactly if one of its ends is below the height and the other is not; so every height is
crossed an even number of times, and the crossings of a row come in pairs. The rest is about
crossings in order, which are counted in `Path.coverage_eq_mod_two`.
-/

namespace Easel

open scoped Exact

/-! ## Crossings of closed paths -/

/-- Along a list of points a property changes an odd number of times if and only if it differs
between the ends. -/
theorem odd_countP_zip {β : Type} (b : β → Bool) (first last : β) (rest : List β) :
    Odd (((first :: rest).zip (rest ++ [last])).countP fun e => b e.1 != b e.2) ↔
      b first ≠ b last := by
  induction rest generalizing first with
  | nil => cases h : b first <;> cases h' : b last <;> simp [h, h']
  | cons next rest ih =>
    have hzip : (first :: next :: rest).zip (next :: rest ++ [last]) =
        (first, next) :: (next :: rest).zip (rest ++ [last]) := rfl
    rw [hzip, List.countP_cons, Nat.odd_add, ih]
    cases b first <;> cases b next <;> cases b last <;> simp

namespace Path

/-- An edge crosses a height if and only if one end is not below the height and the other is. -/
theorem crosses_eq (y : ℝ) (e : Position ℝ × Position ℝ) :
    crosses y e = (decide (e.1.2 ≤ y) != decide (e.2.2 ≤ y)) := by
  rw [Bool.eq_iff_iff]
  simp only [crosses, Bool.or_eq_true, Bool.and_eq_true, decide_eq_true_eq, bne_iff_ne, ne_eq,
    decide_eq_decide, Exact.lt_iff]
  by_cases h : e.1.2 ≤ y <;> by_cases h' : e.2.2 ≤ y <;> simp [h, h', not_le.1]

end Path

theorem Subpath.even_countP_crosses (s : Subpath ℝ) (y : ℝ) :
    Even (s.edges.countP (Path.crosses y)) := by
  rw [Subpath.edges]
  split
  case h_1 first second rest _ =>
    have hcrosses : Path.crosses y = fun e => decide (e.1.2 ≤ y) != decide (e.2.2 ≤ y) :=
      funext (Path.crosses_eq y)
    rw [hcrosses, ← Nat.not_odd_iff_even]
    exact fun h => (odd_countP_zip (fun p => decide (p.2 ≤ y)) first first _).1 h rfl
  case h_2 => exact Even.zero

namespace Path

/-- Every height is crossed an even number of times. -/
theorem even_countP_crosses (path : Path ℝ) (y : ℝ) : Even (path.edges.countP (crosses y)) := by
  rw [edges]
  induction path.toList with
  | nil => exact Even.zero
  | cons s path ih =>
    rw [List.flatMap_cons, List.countP_append]
    exact (s.even_countP_crosses y).add ih

/-- Where an edge crosses a height is a point of it. -/
theorem crossing_mem_segment {y : ℝ} {e : Position ℝ × Position ℝ} (h : crosses y e = true) :
    (crossing y e, y) ∈ segment ℝ e.1 e.2 := by
  have hbetween : (e.1.2 ≤ y ∧ y < e.2.2) ∨ (e.2.2 ≤ y ∧ y < e.1.2) := by
    simpa [crosses] using h
  have hne : e.2.2 - e.1.2 ≠ 0 := by
    rcases hbetween with h | h
    · exact (sub_pos.2 (h.1.trans_lt h.2)).ne'
    · exact (sub_neg.2 (h.1.trans_lt h.2)).ne
  have hparameter : (y - e.1.2) / (e.2.2 - e.1.2) ∈ Set.Icc (0 : ℝ) 1 := by
    rcases hbetween with ⟨hlow, hhigh⟩ | ⟨hlow, hhigh⟩
    · have hpos : 0 < e.2.2 - e.1.2 := by linarith
      exact ⟨div_nonneg (by linarith) hpos.le, (div_le_one hpos).2 (by linarith)⟩
    · have hneg : e.2.2 - e.1.2 < 0 := by linarith
      exact ⟨div_nonneg_of_nonpos (by linarith) hneg.le, (div_le_one_of_neg hneg).2 (by linarith)⟩
  rw [segment_eq_image']
  refine ⟨_, hparameter, Prod.ext ?_ ?_⟩
  · change e.1.1 + (y - e.1.2) / (e.2.2 - e.1.2) * (e.2.1 - e.1.1) =
      e.1.1 + (y - e.1.2) * (e.2.1 - e.1.1) / (e.2.2 - e.1.2)
    rw [div_mul_eq_mul_div]
  · change e.1.2 + (y - e.1.2) / (e.2.2 - e.1.2) * (e.2.2 - e.1.2) = y
    rw [div_mul_cancel₀ _ hne]
    ring

/-! ## Crossings in order -/

theorem crossings_perm (edges : List (Position ℝ × Position ℝ)) (y : ℝ) :
    (crossings edges y).Perm ((edges.filter (crosses y)).map (crossing y)) := by
  have hfinite : ((edges.filter (crosses y)).map (crossing y)).filter Scalar.isFinite =
      (edges.filter (crosses y)).map (crossing y) := List.filter_eq_self.2 fun _ _ => rfl
  rw [crossings, hfinite]
  exact List.mergeSort_perm _ _

theorem length_crossings (edges : List (Position ℝ × Position ℝ)) (y : ℝ) :
    (crossings edges y).length = edges.countP (crosses y) := by
  rw [(crossings_perm edges y).length_eq, List.length_map, List.countP_eq_length_filter]

theorem pairwise_crossings (edges : List (Position ℝ × Position ℝ)) (y : ℝ) :
    (crossings edges y).Pairwise (· ≤ ·) := by
  refine (List.pairwise_mergeSort (fun a b c => ?_) (fun a b => ?_) _).imp of_decide_eq_true
  · simpa using le_trans
  · simpa using le_total a b

/-- How many edges cross the height of a position to the left of it. -/
def crossedLeft {α : Type} [Scalar α] (edges : List (Position α × Position α)) (p : Position α) :
    ℕ :=
  edges.countP fun e => crosses p.2 e && decide (crossing p.2 e < p.1)

theorem countP_crossings (edges : List (Position ℝ × Position ℝ)) (p : Position ℝ) :
    ((crossings edges p.2).countP fun a => a < p.1) = crossedLeft edges p := by
  rw [(crossings_perm edges p.2).countP_eq, List.countP_map, List.countP_filter, crossedLeft]
  refine List.countP_congr fun e _ => ?_
  simp [and_comm, Exact.lt_iff]

/-- In exact numbers a span covers the columns whose middles it reaches over. -/
theorem covers_iff_exact {width x : ℕ} (hx : x < width) (s : ℝ × ℝ) :
    Covers width x s ↔ s.1 ≤ x + 1 / 2 ∧ (x : ℝ) + 1 / 2 ≤ s.2 := by
  rw [covers_iff hx, Exact.half_eq, Exact.ceil_eq, Exact.floor_eq, Int.ceil_le, Int.le_floor,
    Int.cast_natCast, sub_le_iff_le_add, le_sub_iff_add_le]

end Path

namespace Raster

/-- The middle of a pixel. -/
noncomputable def middle (x y : ℕ) : Position ℝ := (x + 1 / 2, y + 1 / 2)

/-- No crossing is at the middle of a pixel that lies on no edge. -/
theorem ne_middle_of_mem_crossings {edges : List (Position ℝ × Position ℝ)} {x y : ℕ}
    (hoff : ∀ e ∈ edges, middle x y ∉ segment ℝ e.1 e.2) {a : ℝ}
    (ha : a ∈ Path.crossings edges (middle x y).2) : a ≠ (middle x y).1 := by
  rintro rfl
  obtain ⟨e, he, hcrossing⟩ := List.mem_map.1 ((Path.crossings_perm edges _).mem_iff.1 ha)
  obtain ⟨he, hcrosses⟩ := List.mem_filter.1 he
  have hon := Path.crossing_mem_segment hcrosses
  rw [hcrossing] at hon
  exact hoff e he hon

/-- Off the edges, the parity of the crossings to the left counts the marks. -/
theorem countP_fillMarks_exact (path : Path ℝ) (colour : Colour) {i : Image} {x y : ℕ}
    (hx : x < i.width) (hy : y < i.height)
    (hoff : ∀ e ∈ path.edges, middle x y ∉ segment ℝ e.1 e.2) :
    (fillMarks path.edges colour i).countP (fun m => m.On x y) =
      Path.crossedLeft path.edges (middle x y) % 2 := by
  have hrow : (Scalar.ofInt y + 0.5 : ℝ) = (middle x y).2 := by
    rw [Exact.half_eq, Exact.ofInt_eq, Int.cast_natCast, middle]
  have heven : Even (Path.crossings path.edges (middle x y).2).length := by
    rw [Path.length_crossings]
    exact path.even_countP_crosses _
  calc
    _ = (Path.pairs (Path.crossings path.edges (middle x y).2)).countP fun s =>
          Path.Covers i.width x s := by rw [countP_fillMarks path.edges colour hy, hrow]
    _ = Path.coverage id (middle x y).1 (Path.crossings path.edges (middle x y).2) := by
      refine List.countP_congr fun s _ => ?_
      simp only [decide_eq_true_eq]
      exact Path.covers_iff_exact hx s
    _ = ((Path.crossings path.edges (middle x y).2).countP fun a => a < (middle x y).1) % 2 :=
      Path.coverage_eq_mod_two (Path.pairwise_crossings _ _) heven fun a ha =>
        ne_middle_of_mem_crossings hoff ha
    _ = Path.crossedLeft path.edges (middle x y) % 2 := by rw [Path.countP_crossings]

/-- **Fills obey the even-odd rule.** In exact numbers every height is crossed by an even number of
edges, and pairing the crossings drops none of them. If the middle of a pixel lies on no edge, a
fill lays its colour over the pixel once if an odd number of edges crosses its row to the left of
the middle, and not at all otherwise. -/
theorem fill_evenOdd (r : Raster ℝ) (colour : Colour) :
    (∀ y : ℝ, Even (Path.crossings r.path.edges y).length ∧
      2 * (Path.pairs (Path.crossings r.path.edges y)).length =
        r.path.edges.countP (Path.crosses y)) ∧
    ∀ x y : ℕ, x < r.image.width → y < r.image.height →
      (∀ e ∈ r.path.edges, middle x y ∉ segment ℝ e.1 e.2) →
      (r.marks (.fill colour)).countP (fun m => m.On x y) =
        (if Odd (Path.crossedLeft r.path.edges (middle x y)) then 1 else 0) ∧
      (r.perform (.fill colour)).image.pixel? x y =
        if Odd (Path.crossedLeft r.path.edges (middle x y)) then
          (r.image.pixel? x y).map colour.onto
        else r.image.pixel? x y := by
  refine ⟨fun y => ?_, fun x y hx hy hoff => ?_⟩
  · have heven := r.path.even_countP_crosses y
    rw [Path.length_pairs, Path.length_crossings, Nat.mul_div_cancel' heven.two_dvd]
    exact ⟨heven, rfl⟩
  · have hcount : (r.marks (.fill colour)).countP (fun m => m.On x y) =
        if Odd (Path.crossedLeft r.path.edges (middle x y)) then 1 else 0 := by
      rw [marks, countP_fillMarks_exact r.path colour hx hy hoff]
      split
      case isTrue hodd => exact Nat.odd_iff.1 hodd
      case isFalse heven => exact Nat.even_iff.1 (Nat.not_odd_iff_even.1 heven)
    refine ⟨hcount, ?_⟩
    rw [pixel?_fill r colour hcount]
    split
    case isTrue => rfl
    case isFalse => simp

/-- The path of a triangle that was left open. -/
noncomputable def wedge : Raster ℝ where
  image := .filled 4 4 .white
  scale := 1
  offset := (0, 0)
  path := #[{ points := #[(0, 0), (4, 0), (0, 4)] }]

theorem fill_evenOdd_wedge :
    (∀ e ∈ wedge.path.edges, middle 0 0 ∉ segment ℝ e.1 e.2) ∧
      (wedge.perform (.fill .black)).image.pixel? 0 0 = some .black := by
  have hedges : wedge.path.edges = [((0, 0), (4, 0)), ((4, 0), (0, 4)), ((0, 4), (0, 0))] := rfl
  have hoff : ∀ e ∈ wedge.path.edges, middle 0 0 ∉ segment ℝ e.1 e.2 := by
    simp only [hedges, List.forall_mem_cons, List.not_mem_nil, false_implies, implies_true,
      and_true, middle]
    refine ⟨?_, ?_, ?_⟩
    · rintro ⟨a, b, -, -, -, h⟩
      have hy : a * 0 + b * 0 = (0 : ℕ) + 1 / 2 := congrArg Prod.snd h
      norm_num at hy
    · rintro ⟨a, b, -, -, hab, h⟩
      have hx : a * 4 + b * 0 = (0 : ℕ) + 1 / 2 := congrArg Prod.fst h
      have hy : a * 0 + b * 4 = (0 : ℕ) + 1 / 2 := congrArg Prod.snd h
      push_cast at hx hy
      linarith
    · rintro ⟨a, b, -, -, -, h⟩
      have hx : a * 0 + b * 0 = (0 : ℕ) + 1 / 2 := congrArg Prod.fst h
      norm_num at hx
  have hleft : Path.crossedLeft wedge.path.edges (middle 0 0) = 1 := by
    simp only [hedges, Path.crossedLeft, Path.crosses, Path.crossing, middle, Exact.lt_iff]
    norm_num
  obtain ⟨-, hpixel⟩ := (fill_evenOdd wedge .black).2 0 0 (by decide) (by decide) hoff
  rw [hleft, if_pos odd_one] at hpixel
  exact ⟨hoff, hpixel⟩

end Raster

end Easel
