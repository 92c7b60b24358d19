import Mathlib
import Easel.Proofs.Canvas.Spans
import Easel.Proofs.Number.Monotone

/-!
# Where spans overlap

Spans include the columns at both of their ends. So where one span of a row ends at the middle of a
pixel and the next one begins there, as at the common edge of two neighbouring parts, a fill lays
its colour over that pixel twice, and a translucent colour is seen twice. `Raster.fill_layers` says
that this is the only way. It is about rounded numbers: rounding may move two crossings to one
place, but it keeps their order.
-/

namespace Easel

open Binary64 (value)

namespace Path

variable {edges : List (Position Float × Position Float)} {y a b : Float}

/-- The column whose middle a crossing is at, between columns if it is at none. -/
noncomputable def place (a : Float) : ℝ := value (a - 0.5)

theorem isFinite_of_mem_crossings (h : a ∈ crossings edges y) : a.isFinite = true :=
  (List.mem_filter.1 (List.mem_mergeSort.1 h)).2

theorem pairwise_value_crossings (edges : List (Position Float × Position Float)) (y : Float) :
    (crossings edges y).Pairwise fun a b => value a ≤ value b := by
  rw [← List.pairwise_map (R := (· ≤ ·))]
  -- Among finite numbers the comparison is that of their values, so the values are sorted by it.
  have hle : ∀ a ∈ ((edges.filter (crosses y)).map (crossing y)).filter Scalar.isFinite,
      ∀ b ∈ ((edges.filter (crosses y)).map (crossing y)).filter Scalar.isFinite,
        decide (a ≤ b) = decide (value a ≤ value b) := fun a ha b hb =>
    decide_eq_decide.2 (Binary64.le_iff (List.mem_filter.1 ha).2 (List.mem_filter.1 hb).2)
  rw [crossings, List.map_mergeSort (s := fun a b : ℝ => decide (a ≤ b)) hle]
  exact List.pairwise_mergeSort' _ _

/-- Taking a half from the crossings keeps their order. -/
theorem pairwise_place_crossings (edges : List (Position Float × Position Float)) (y : Float) :
    (crossings edges y).Pairwise fun a b => place a ≤ place b :=
  (pairwise_value_crossings edges y).imp_of_mem fun ha hb h =>
    Binary64.value_sub_half_mono (isFinite_of_mem_crossings ha) (isFinite_of_mem_crossings hb) h

/-- A span covers the columns from the place of its first crossing to the place of its second. -/
theorem covers_iff_place {width x : ℕ} (hx : x < width) {s : Float × Float}
    (hs : s ∈ pairs (crossings edges y)) :
    Covers width x s ↔ place s.1 ≤ x ∧ x ≤ place s.2 := by
  obtain ⟨hfirst, hlast⟩ := mem_of_mem_pairs hs
  have hfirst := Binary64.isFinite_sub_half (isFinite_of_mem_crossings hfirst)
  have hlast := Binary64.isFinite_sub_half (isFinite_of_mem_crossings hlast)
  rw [covers_iff hx, Binary64.ceil_eq hfirst, Binary64.floor_eq hlast, Int.ceil_le, Int.le_floor,
    Int.cast_natCast]
  rfl

end Path

namespace Raster

/-- How often a fill lays its colour over a pixel. -/
def layers (r : Raster Float) (colour : Colour) (x y : ℕ) : ℕ :=
  (r.marks (.fill colour)).countP fun m => m.On x y

theorem layers_eq (r : Raster Float) (colour : Colour) {x y : ℕ} (hx : x < r.image.width)
    (hy : y < r.image.height) :
    r.layers colour x y =
      Path.coverage Path.place x (Path.crossings r.path.edges (Scalar.ofInt y + 0.5)) := by
  rw [layers, marks, countP_fillMarks r.path.edges colour hy, Path.coverage]
  exact List.countP_congr fun s hs => by
    simpa only [decide_eq_true_eq] using Path.covers_iff_place hx hs

/-- **A fill paints a pixel twice only where spans meet.** A fill lays its colour over a pixel as
often as spans of the row cover the pixel, and that is more than once if and only if one span ends
at the middle of the pixel and the next span begins there. -/
theorem fill_layers (r : Raster Float) (colour : Colour) {x y : ℕ} (hx : x < r.image.width)
    (hy : y < r.image.height) :
    (r.perform (.fill colour)).image.pixel? x y =
        (r.image.pixel? x y).map colour.onto^[r.layers colour x y] ∧
      (1 < r.layers colour x y ↔
        ∃ s t, [s, t] <:+: Path.pairs (Path.crossings r.path.edges (Scalar.ofInt y + 0.5)) ∧
          Path.place s.2 = x ∧ Path.place t.1 = x) := by
  refine ⟨pixel?_fill r colour rfl, ?_⟩
  have hsorted := Path.pairwise_place_crossings r.path.edges (Scalar.ofInt y + 0.5)
  rw [layers_eq r colour hx hy]
  constructor
  · exact Path.exists_meeting hsorted
  · rintro ⟨s, t, hst, hend, hbegin⟩
    exact Path.one_lt_coverage hsorted hst hend hbegin

/-- Two squares with a common edge along the middles of a column. -/
def neighbours : Raster Float where
  image := .filled 3 1 .white
  scale := 1
  offset := (0, 0)
  path := #[
    { points := #[(0.5, 0), (0.5, 1), (1.5, 1), (1.5, 0)], closed := true },
    { points := #[(1.5, 0), (1.5, 1), (2.5, 1), (2.5, 0)], closed := true }]

theorem crossings_neighbours :
    Path.crossings neighbours.path.edges (Scalar.ofInt (0 : ℕ) + 0.5) = [0.5, 1.5, 1.5, 2.5] := by
  have hcross : ((neighbours.path.edges.filter (Path.crosses (Scalar.ofInt (0 : ℕ) + 0.5))).map
      (Path.crossing (Scalar.ofInt (0 : ℕ) + 0.5))).filter Scalar.isFinite =
      [0.5, 1.5, 1.5, 2.5] := by decide
  rw [Path.crossings, hcross]
  exact List.mergeSort_of_pairwise (by decide)

theorem layers_neighbours (colour : Colour) : neighbours.layers colour 1 0 = 2 := by
  rw [layers, marks, countP_fillMarks neighbours.path.edges colour (by decide),
    crossings_neighbours]
  decide

/-- A translucent black on white, seen once and twice. -/
theorem onto_white : Colour.onto ⟨0, 0, 0, 128⟩ .white = ⟨127, 127, 127, 255⟩ := by decide

theorem onto_twice_white :
    (Colour.onto ⟨0, 0, 0, 128⟩)^[2] .white = ⟨63, 63, 63, 255⟩ := by
  have htwice : Colour.onto ⟨0, 0, 0, 128⟩ ⟨127, 127, 127, 255⟩ = ⟨63, 63, 63, 255⟩ := by decide
  rw [Function.iterate_succ_apply, Function.iterate_one, onto_white, htwice]

theorem pixel?_neighbours : neighbours.image.pixel? 1 0 = some .white := by decide

theorem fill_layers_neighbours :
    (1 < neighbours.image.width ∧ 0 < neighbours.image.height) ∧
      (neighbours.perform (.fill ⟨0, 0, 0, 128⟩)).image.pixel? 1 0 = some ⟨63, 63, 63, 255⟩ ∧
      ∃ s t, [s, t] <:+: Path.pairs [0.5, 1.5, 1.5, 2.5] ∧
        Path.place s.2 = (1 : ℕ) ∧ Path.place t.1 = (1 : ℕ) := by
  have hlayers := layers_neighbours ⟨0, 0, 0, 128⟩
  obtain ⟨hpixel, hmeet⟩ :=
    fill_layers neighbours ⟨0, 0, 0, 128⟩ (x := 1) (y := 0) (by decide) (by decide)
  rw [hlayers] at hpixel hmeet
  rw [crossings_neighbours] at hmeet
  refine ⟨by decide, ?_, hmeet.1 one_lt_two⟩
  rw [hpixel, pixel?_neighbours, Option.map_some, onto_twice_white]

/-- The common edge is seen twice through a translucent colour. -/
theorem fill_twice :
    ¬∀ (r : Raster Float) (colour : Colour),
      (∀ s ∈ r.path, ∀ p ∈ s.points, p.1.isFinite = true ∧ p.2.isFinite = true) →
      ∀ x y, (r.perform (.fill colour)).image.pixel? x y = r.image.pixel? x y ∨
        (r.perform (.fill colour)).image.pixel? x y = (r.image.pixel? x y).map colour.onto := by
  intro h
  have hfinite : ∀ s ∈ neighbours.path, ∀ p ∈ s.points,
      p.1.isFinite = true ∧ p.2.isFinite = true := by decide
  have honce := h neighbours ⟨0, 0, 0, 128⟩ hfinite 1 0
  rw [pixel?_fill neighbours ⟨0, 0, 0, 128⟩ (layers_neighbours _), pixel?_neighbours,
    Option.map_some, Option.map_some, onto_twice_white, onto_white] at honce
  revert honce
  decide

end Raster

end Easel
