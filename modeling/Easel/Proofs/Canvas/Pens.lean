import Mathlib
import Easel.Proofs.Canvas.Clipping
import Easel.Proofs.Canvas.Spans

/-!
# The way of the pen

A segment is drawn by setting down the pen at positions along the part of it that is near the image.
`Raster.penPath` lists these positions. In exact numbers they lead from the first point near the
image to the last one, no step passes over a pixel, and their number is bounded by the image
whatever the length of the segment. What lies farther away is out of reach of the pen, so nothing is
lost by leaving it out.
-/

namespace Easel

namespace Raster

/-! ## Positions of the pen -/

section Path

variable {α : Type} [Scalar α]

/-- The positions of the pen from one point to another. -/
def strides (first last : Position α) : List (Position α) :=
  (List.range (steps first last + 1)).map (penPosition first last (steps first last))

/-- Where the pen is set down along a segment, on an image of the size of `i`. -/
def penPath (scale : Nat) (i : Image) (segment : Position α × Position α) : List (Position α) :=
  let (start, stop) := segment
  if Scalar.isFinite start.1 && Scalar.isFinite start.2 && Scalar.isFinite stop.1 &&
      Scalar.isFinite stop.2 then
    match (reach i scale).clip start stop with
    | none => []
    | some (first, last) => strides first last
  else []

theorem fold_eq_foldl_range {β : Type} (n : Nat) (f : β → Nat → β) (b : β) :
    n.fold (fun k _ b => f b k) b = (List.range n).foldl f b := by
  induction n with
  | zero => rfl
  | succ n ih => rw [Nat.fold_succ, ih, List.range_succ, List.foldl_append]; rfl

/-- A segment is drawn by setting down the pen along its way. -/
theorem line_eq_foldl (scale : Nat) (colour : Colour) (i : Image)
    (segment : Position α × Position α) :
    line scale colour i segment = (penPath scale i segment).foldl (dab scale colour) i := by
  obtain ⟨start, stop⟩ := segment
  simp only [line, penPath]
  split
  case isFalse => rfl
  case isTrue =>
    cases (reach i scale).clip start stop with
    | none => rfl
    | some clipped =>
      dsimp only
      rw [strides, List.foldl_map]
      exact fold_eq_foldl_range _ (fun i k => dab scale colour i (penPosition _ _ _ k)) i

end Path

/-! ## Pixels under the pen -/

section Pen

variable {α : Type} [Analytic α]

/-- Whether the pixel at column `x` of row `y` is under the pen around `p`: one of the square of
`scale` by `scale` pixels from the column and the row where the pen starts. -/
def UnderPen (scale : ℕ) (p : Position α) (x y : ℕ) : Prop :=
  (penStart α scale p.1 ≤ x ∧ x < penStart α scale p.1 + scale) ∧
    penStart α scale p.2 ≤ y ∧ y < penStart α scale p.2 + scale

instance (scale : ℕ) (p : Position α) (x y : ℕ) : Decidable (UnderPen scale p x y) :=
  inferInstanceAs (Decidable (_ ∧ _))

/-- Marks that fill a rectangle row by row leave one on each of its pixels. -/
theorem countP_rectangle (colour : Colour) (column row : ℤ) (width height x y : ℕ) :
    ((List.range height).flatMap fun (dy : ℕ) => (List.range width).flatMap fun (dx : ℕ) =>
        [(⟨column + dx, row + dy, colour⟩ : Mark)]).countP (fun m => m.On x y) =
      if (column ≤ x ∧ x < column + width) ∧ row ≤ y ∧ y < row + height then 1 else 0 := by
  induction height with
  | zero => simp
  | succ n ih =>
    rw [List.range_succ, List.flatMap_append, List.countP_append, ih, List.flatMap_cons,
      List.flatMap_nil, List.append_nil, countP_span]
    split_ifs <;> omega

theorem countP_dabMarks (scale : ℕ) (colour : Colour) (p : Position α) (x y : ℕ) :
    (dabMarks scale colour p).countP (fun m => m.On x y) = if UnderPen scale p x y then 1 else 0 :=
  countP_rectangle colour _ _ scale scale x y

/-- The pen lays its colour once over each pixel under it, and leaves the others as they are. -/
theorem pixel?_dab (scale : ℕ) (colour : Colour) (i : Image) (p : Position α) (x y : ℕ) :
    (dab scale colour i p).pixel? x y =
      if UnderPen scale p x y then (i.pixel? x y).map colour.onto else i.pixel? x y := by
  rw [(leaves_dab scale colour p).image i,
    Image.pixel?_mark_of_colour (fun m hm => colour_of_mem_dabMarks hm), countP_dabMarks]
  split
  case isTrue => rfl
  case isFalse => rw [Function.iterate_zero, Option.map_id, id]

end Pen

open Set
open scoped Exact

/-! ## Steps of the pen -/

section Steps

variable {start stop : Position ℝ} {n : ℕ}

theorem penPosition_eq (start stop : Position ℝ) (n i : ℕ) :
    penPosition start stop n i = Box.along start stop ((i : ℝ) / n) := by
  simp only [penPosition, Exact.ofInt_eq, Int.cast_natCast, Box.along]
  rw [mul_comm, mul_comm (stop.2 - start.2)]

theorem penPosition_mem_segment {i : ℕ} (hi : i ≤ n) :
    penPosition start stop n i ∈ segment ℝ start stop := by
  rw [penPosition_eq, segment_eq_image_lineMap, ← Box.along_eq_lineMap]
  exact mem_image_of_mem _ ⟨by positivity, div_le_one_of_le₀ (by exact_mod_cast hi) (by positivity)⟩

theorem penPosition_zero : penPosition start stop n 0 = start := by
  rw [penPosition_eq, Nat.cast_zero, zero_div, Box.along_eq_lineMap, AffineMap.lineMap_apply_zero]

theorem penPosition_self (hn : 0 < n) : penPosition start stop n n = stop := by
  rw [penPosition_eq, div_self (Nat.cast_ne_zero.2 hn.ne'), Box.along_eq_lineMap,
    AffineMap.lineMap_apply_one]

theorem steps_eq (start stop : Position ℝ) :
    steps start stop = max 1 ⌈max |stop.1 - start.1| |stop.2 - start.2|⌉.toNat := rfl

theorem steps_pos : 0 < steps start stop := Nat.lt_of_lt_of_le Nat.one_pos (Nat.le_max_left _ _)

/-- There are as many steps as the segment is wide or high. -/
theorem abs_sub_le_steps (start stop : Position ℝ) :
    |stop.1 - start.1| ≤ steps start stop ∧ |stop.2 - start.2| ≤ steps start stop := by
  have hceil : max |stop.1 - start.1| |stop.2 - start.2| ≤ steps start stop := by
    refine (Int.le_ceil _).trans ?_
    have : ⌈max |stop.1 - start.1| |stop.2 - start.2|⌉ ≤ (steps start stop : ℤ) := by
      rw [steps_eq]
      omega
    exact_mod_cast this
  exact ⟨(le_max_left _ _).trans hceil, (le_max_right _ _).trans hceil⟩

theorem steps_le {k : ℕ} (hk : 1 ≤ k) (hx : |stop.1 - start.1| ≤ k) (hy : |stop.2 - start.2| ≤ k) :
    steps start stop ≤ k := by
  rw [steps_eq]
  refine max_le hk (Int.toNat_le.2 (Int.ceil_le.2 ?_))
  rw [Int.cast_natCast]
  exact max_le hx hy

theorem penStart_eq (scale : ℕ) (middle : ℝ) :
    penStart ℝ scale middle = ⌊middle - scale / 2 + 1 / 2⌋ := by
  rw [penStart, Exact.half_eq, Exact.literal_eq]
  rfl

/-- Moving the pen by a pixel at most moves its pixels by one at most. -/
theorem abs_penStart_sub_le (scale : ℕ) {x y : ℝ} (h : |x - y| ≤ 1) :
    |penStart ℝ scale x - penStart ℝ scale y| ≤ 1 := by
  have hfloor : ∀ {a b : ℝ}, a ≤ b + 1 → ⌊a⌋ ≤ ⌊b⌋ + 1 := fun {a b} hab => by
    rw [← Int.floor_add_one]
    exact Int.floor_mono hab
  obtain ⟨hlow, hhigh⟩ := abs_le.1 h
  rw [penStart_eq, penStart_eq, abs_le]
  constructor
  · have := hfloor (a := y - scale / 2 + 1 / 2) (b := x - scale / 2 + 1 / 2) (by linarith)
    omega
  · have := hfloor (a := x - scale / 2 + 1 / 2) (b := y - scale / 2 + 1 / 2) (by linarith)
    omega

/-- Whether the pixels of the pen move by one at most, in either direction. -/
def Adjacent (scale : ℕ) (p q : Position ℝ) : Prop :=
  |penStart ℝ scale p.1 - penStart ℝ scale q.1| ≤ 1 ∧
    |penStart ℝ scale p.2 - penStart ℝ scale q.2| ≤ 1

theorem adjacent_penPosition (scale i : ℕ) :
    Adjacent scale (penPosition start stop (steps start stop) i)
      (penPosition start stop (steps start stop) (i + 1)) := by
  have hn : (0 : ℝ) < steps start stop := by exact_mod_cast steps_pos
  obtain ⟨hx, hy⟩ := abs_sub_le_steps start stop
  have hstep : ∀ {a b : ℝ}, |b - a| ≤ steps start stop →
      |a + (i : ℝ) / steps start stop * (b - a) -
        (a + ((i + 1 : ℕ) : ℝ) / steps start stop * (b - a))| ≤ 1 := fun {a b} hab => by
    have hdiff : a + (i : ℝ) / steps start stop * (b - a) -
        (a + ((i + 1 : ℕ) : ℝ) / steps start stop * (b - a)) =
          -((b - a) / steps start stop) := by
      push_cast
      ring
    rw [hdiff, abs_neg, abs_div, abs_of_pos hn]
    exact div_le_one_of_le₀ hab hn.le
  rw [penPosition_eq, penPosition_eq]
  exact ⟨abs_penStart_sub_le scale (hstep hx), abs_penStart_sub_le scale (hstep hy)⟩

end Steps

/-! ## The image and its surroundings -/

/-- The positions within `scale` pixels of the image. -/
def surroundings (i : Image) (scale : ℕ) : Set (Position ℝ) :=
  Icc (-scale, -scale) (i.width + scale, i.height + scale)

variable {scale : ℕ} {i : Image} {start stop : Position ℝ}

theorem region_reach (i : Image) (scale : ℕ) :
    (reach i scale : Box ℝ).region = surroundings i scale := rfl

/-- Of a segment within the surroundings, both sides are shorter than theirs. -/
theorem steps_le_of_mem (hscale : 1 ≤ scale) (hstart : start ∈ surroundings i scale)
    (hstop : stop ∈ surroundings i scale) :
    steps start stop ≤ max i.width i.height + 2 * scale := by
  rw [← region_reach, Box.mem_region] at hstart hstop
  obtain ⟨hleft, hright, htop, hbottom⟩ := hstart
  obtain ⟨hleft', hright', htop', hbottom'⟩ := hstop
  simp only [reach, Exact.ofInt_eq, Int.cast_natCast, Exact.neg_eq] at *
  refine steps_le (by omega) ?_ ?_
  · have := le_max_left (i.width : ℝ) i.height
    push_cast
    rw [abs_le]
    constructor <;> linarith
  · have := le_max_right (i.width : ℝ) i.height
    push_cast
    rw [abs_le]
    constructor <;> linarith

/-- A pen in reach of a pixel of the image is near the image. -/
theorem near_of_penStart (hscale : 1 ≤ scale) {x : ℝ} {d u n : ℕ} (hd : d < scale) (hu : u < n)
    (h : penStart ℝ scale x + d = u) : -scale ≤ x ∧ x ≤ n + scale := by
  have hscale' : (1 : ℝ) ≤ scale := by exact_mod_cast hscale
  have hd' : (d : ℝ) + 1 ≤ scale := by exact_mod_cast hd
  have hu' : (u : ℝ) + 1 ≤ n := by exact_mod_cast hu
  have hu'' : (0 : ℝ) ≤ u := Nat.cast_nonneg u
  have hstart : ((penStart ℝ scale x : ℤ) : ℝ) + d = u := by exact_mod_cast h
  rw [penStart_eq] at hstart
  have hfloor := Int.floor_le (x - scale / 2 + 1 / 2)
  have hfloor' := Int.lt_floor_add_one (x - scale / 2 + 1 / 2)
  constructor <;> linarith

/-- A pen that touches a pixel of the image is near the image. -/
theorem mem_surroundings_of_on (hscale : 1 ≤ scale) {p : Position ℝ} {colour : Colour} {m : Mark}
    (hm : m ∈ dabMarks scale colour p) {x y : ℕ} (hx : x < i.width) (hy : y < i.height)
    (hon : m.On x y) : p ∈ surroundings i scale := by
  simp only [dabMarks, List.mem_flatMap, List.mem_range, List.mem_singleton] at hm
  obtain ⟨dy, hdy, dx, hdx, rfl⟩ := hm
  have hcolumn := near_of_penStart hscale hdx hx hon.1
  have hrow := near_of_penStart hscale hdy hy hon.2
  exact ⟨⟨hcolumn.1, hrow.1⟩, ⟨hcolumn.2, hrow.2⟩⟩

/-- Far from the image the pen leaves no trace. -/
theorem dab_eq_self (hscale : 1 ≤ scale) {p : Position ℝ} (hp : p ∉ surroundings i scale)
    (colour : Colour) : dab scale colour i p = i := by
  rw [(leaves_dab scale colour p).image i]
  exact Image.mark_eq_self fun m hm x y hx hy hon =>
    hp (mem_surroundings_of_on hscale hm hx hy hon)

/-! ## From the first position to the last -/

theorem length_strides (first last : Position ℝ) :
    (strides first last).length = steps first last + 1 := by
  rw [strides, List.length_map, List.length_range]

theorem mem_segment_of_mem_strides {first last p : Position ℝ} (hp : p ∈ strides first last) :
    p ∈ segment ℝ first last := by
  obtain ⟨k, hk, rfl⟩ := List.mem_map.1 hp
  exact penPosition_mem_segment (Nat.le_of_lt_succ (List.mem_range.1 hk))

theorem isChain_strides (scale : ℕ) (first last : Position ℝ) :
    (strides first last).IsChain (Adjacent scale) := by
  rw [strides, List.isChain_map, List.isChain_range]
  exact fun k _ => adjacent_penPosition scale k

theorem head?_strides (first last : Position ℝ) : (strides first last).head? = some first := by
  rw [strides, List.head?_map, List.head?_range, if_neg (Nat.succ_ne_zero _), Option.map_some,
    penPosition_zero]

theorem getLast?_strides (first last : Position ℝ) : (strides first last).getLast? = some last := by
  rw [strides, List.getLast?_map, List.getLast?_range, if_neg (Nat.succ_ne_zero _),
    Option.map_some, Nat.add_sub_cancel, penPosition_self steps_pos]

/-- The pen goes nowhere, or along the part of the segment near the image from end to end. -/
theorem penPath_cases (scale : ℕ) (i : Image) (start stop : Position ℝ) :
    (penPath scale i (start, stop) = [] ∧ (reach i scale).inside start stop = ∅) ∨
      ∃ low high, low ≤ high ∧ (reach i scale).inside start stop = Icc low high ∧
        penPath scale i (start, stop) =
          strides (Box.along start stop low) (Box.along start stop high) := by
  simp only [penPath, Exact.isFinite_eq, Bool.and_self, if_true]
  rcases (reach i scale).clip_cases start stop with ⟨hclip, hinside⟩ | ⟨low, high, hclip, h⟩
  · rw [hclip]
    exact .inl ⟨rfl, hinside⟩
  · rw [hclip]
    exact .inr ⟨low, high, h.1, h.2, rfl⟩

/-- **A line has no gaps, and clipping loses nothing.** Let the pen have an extent. Set down once,
it paints the square of pixels from where it starts, each of them once, and nothing else. In exact
numbers a segment is drawn by setting down the pen at the positions of its path. All of them are on
the segment, and their number is bounded by the size of the image. From one to the next the square
moves by one pixel at most in either direction. If the segment comes near the image, the first and
the last position are the ends of the part of it that does. A pen set down anywhere else on the
segment leaves no trace, and neither does a segment that stays away from the image. -/
theorem line_gapless (hscale : 1 ≤ scale) (i : Image) (start stop : Position ℝ) :
    (∀ colour (j : Image) (p : Position ℝ) x y, (dab scale colour j p).pixel? x y =
      if UnderPen scale p x y then (j.pixel? x y).map colour.onto else j.pixel? x y) ∧
    (∀ colour, line scale colour i (start, stop) =
      (penPath scale i (start, stop)).foldl (dab scale colour) i) ∧
    (penPath scale i (start, stop)).length ≤ max i.width i.height + 2 * scale + 1 ∧
    (∀ p ∈ penPath scale i (start, stop), p ∈ segment ℝ start stop) ∧
    (penPath scale i (start, stop)).IsChain (Adjacent scale) ∧
    ((segment ℝ start stop ∩ surroundings i scale).Nonempty → ∃ low high,
      IsLeast {t ∈ Icc (0 : ℝ) 1 | start + t • (stop - start) ∈ surroundings i scale} low ∧
      IsGreatest {t ∈ Icc (0 : ℝ) 1 | start + t • (stop - start) ∈ surroundings i scale} high ∧
      (penPath scale i (start, stop)).head? = some (start + low • (stop - start)) ∧
      (penPath scale i (start, stop)).getLast? = some (start + high • (stop - start))) ∧
    (∀ p ∈ segment ℝ start stop, p ∉ surroundings i scale →
      ∀ colour, dab scale colour i p = i) ∧
    (Disjoint (segment ℝ start stop) (surroundings i scale) →
      ∀ colour, line scale colour i (start, stop) = i) := by
  have hline := fun colour => line_eq_foldl scale colour i (start, stop)
  have hpart := Box.segment_inter_region (reach i scale) start stop
  rw [region_reach] at hpart
  refine ⟨fun colour j p x y => pixel?_dab scale colour j p x y, hline, ?_⟩
  rcases penPath_cases scale i start stop with ⟨hpath, hinside⟩ | ⟨low, high, hle, hinside, hpath⟩
  · rw [hinside, image_empty] at hpart
    rw [hpath]
    refine ⟨Nat.zero_le _, by simp, .nil, fun hmeet => ?_,
      fun p _ hp colour => dab_eq_self hscale hp colour, fun _ colour => ?_⟩
    · exact absurd hmeet (by simp [hpart])
    · rw [hline, hpath, List.foldl_nil]
  · have hends : Box.Ends (some (low, high)) ((reach i scale).inside start stop) := ⟨hle, hinside⟩
    have hlow := hends.isLeast.1
    have hhigh := hends.isGreatest.1
    have hsegment : segment ℝ (Box.along start stop low) (Box.along start stop high) ⊆
        segment ℝ start stop := by
      rw [Box.segment_along hle, ← hinside, ← hpart]
      exact inter_subset_left
    rw [hpath]
    refine ⟨?_, fun p hp => hsegment (mem_segment_of_mem_strides hp), isChain_strides scale _ _,
      fun _ => ⟨low, high, hends.isLeast, hends.isGreatest, head?_strides _ _,
        getLast?_strides _ _⟩,
      fun p _ hp colour => dab_eq_self hscale hp colour, fun hapart => ?_⟩
    · rw [length_strides]
      exact Nat.succ_le_succ (steps_le_of_mem hscale hlow.2 hhigh.2)
    · have hmeet : Box.along start stop low ∈ segment ℝ start stop ∩ surroundings i scale := by
        rw [hpart]
        exact mem_image_of_mem _ hlow
      exact absurd hmeet.2 (disjoint_left.1 hapart hmeet.1)

/-- A small image, and positions to the left, to the right and below it. -/
def sheet : Image := .filled 10 10 .white

noncomputable def west : Position ℝ := (-12, 5)

noncomputable def east : Position ℝ := (12, 5)

noncomputable def south : Position ℝ := (5, 12)

theorem line_gapless_across :
    (∃ low high : ℝ, (penPath 1 sheet (west, east)).head? = some (west + low • (east - west)) ∧
      (penPath 1 sheet (west, east)).getLast? = some (west + high • (east - west))) ∧
    (penPath 1 sheet (west, east)).length ≤ 13 ∧
    dab 1 .black sheet east = sheet ∧
    line 1 .black sheet (south, south) = sheet := by
  obtain ⟨-, -, hlength, -, -, hends, hfar, -⟩ := line_gapless le_rfl sheet west east
  obtain ⟨-, -, -, -, -, -, -, hbelow⟩ := line_gapless le_rfl sheet south south
  have hmeet : (segment ℝ west east ∩ surroundings sheet 1).Nonempty := by
    refine ⟨(0, 5), ⟨1 / 2, 1 / 2, by norm_num, by norm_num, by norm_num, ?_⟩, ?_⟩
    · norm_num [west, east]
    · norm_num [surroundings, sheet, Image.filled]
  have hout : east ∉ surroundings sheet 1 := by
    norm_num [surroundings, sheet, Image.filled, east]
  have hapart : Disjoint (segment ℝ south south) (surroundings sheet 1) := by
    rw [segment_same, disjoint_singleton_left]
    norm_num [surroundings, sheet, Image.filled, south]
  obtain ⟨low, high, -, -, hfirst, hlast⟩ := hends hmeet
  exact ⟨⟨low, high, hfirst, hlast⟩, hlength, hfar _ (right_mem_segment ℝ _ _) hout .black,
    hbelow hapart .black⟩

end Raster

end Easel
