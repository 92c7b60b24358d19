import Easel.Canvas.Raster

/-!
# What paints leave on an image

Every paint lays colours over single pixels, one after the other: it leaves a list of marks. Which
marks these are is decided by the path, the scale and the size of the image; the pixels are read
for one thing only, to be mixed with the colour that is laid over them.

`Leaves` says this of a change of an image, and is closed under the loops of strokes and fills.
`Raster.image_performAll` gives the image after any calls by their marks.
-/

namespace Easel

/-- A colour laid over one pixel. -/
structure Mark where
  x : Int
  y : Int
  colour : Colour
  deriving DecidableEq, Repr

/-- Whether the mark is on the pixel at column `x` of row `y`. -/
def Mark.On (m : Mark) (x y : Nat) : Prop := m.x = x ∧ m.y = y

instance (m : Mark) (x y : Nat) : Decidable (m.On x y) := inferInstanceAs (Decidable (_ ∧ _))

/-! ## Marks on images -/

namespace Image

/-- Whether two images have as many pixels in either direction. -/
structure SameSize (i j : Image) : Prop where
  width : i.width = j.width
  height : i.height = j.height

theorem SameSize.refl (i : Image) : i.SameSize i := ⟨rfl, rfl⟩

theorem SameSize.symm {i j : Image} (h : i.SameSize j) : j.SameSize i :=
  ⟨h.width.symm, h.height.symm⟩

theorem SameSize.trans {i j k : Image} (h : i.SameSize j) (h' : j.SameSize k) : i.SameSize k :=
  ⟨h.width.trans h'.width, h.height.trans h'.height⟩

/-- There is a pixel in each row and column. -/
theorem exists_pixel? {i : Image} {x y : Nat} :
    (∃ c, i.pixel? x y = some c) ↔ x < i.width ∧ y < i.height := by
  constructor
  · rintro ⟨c, hc⟩
    rw [pixel?] at hc
    split at hc
    case isTrue hin => exact hin
    case isFalse => cases hc
  · rintro ⟨hx, hy⟩
    have hplace : y * i.width + x < i.pixels.size := by
      have : y * i.width + i.width ≤ i.height * i.width := by
        rw [← Nat.succ_mul]
        exact Nat.mul_le_mul_right _ hy
      rw [i.size_pixels, Nat.mul_comm i.width]
      omega
    exact ⟨_, (if_pos ⟨hx, hy⟩).trans (Array.getElem?_eq_getElem hplace)⟩

theorem SameSize.exists_pixel? {i j : Image} (h : i.SameSize j) {x y : Nat} {c : Colour}
    (hc : i.pixel? x y = some c) : ∃ d, j.pixel? x y = some d := by
  have hin := Image.exists_pixel?.1 ⟨c, hc⟩
  rw [h.width, h.height] at hin
  exact Image.exists_pixel?.2 hin

/-- The image with marks laid over it, the first one first. -/
def mark (i : Image) (marks : List Mark) : Image :=
  marks.foldl (fun i m => i.blend m.x m.y m.colour) i

@[simp] theorem mark_nil (i : Image) : i.mark [] = i := rfl

@[simp] theorem mark_cons (i : Image) (m : Mark) (marks : List Mark) :
    i.mark (m :: marks) = (i.blend m.x m.y m.colour).mark marks := rfl

@[simp] theorem mark_append (i : Image) (marks marks' : List Mark) :
    i.mark (marks ++ marks') = (i.mark marks).mark marks' := List.foldl_append

theorem sameSize_mark (i : Image) (marks : List Mark) : (i.mark marks).SameSize i := by
  induction marks generalizing i with
  | nil => exact .refl i
  | cons m marks ih => exact (ih _).trans ⟨width_blend .., height_blend ..⟩

/-- A colour laid over a pixel changes this pixel and no other. -/
theorem pixel?_blend (i : Image) (x y : Int) (c : Colour) (u v : Nat) :
    (i.blend x y c).pixel? u v =
      if x = u ∧ y = v then (i.pixel? u v).map c.onto else i.pixel? u v := by
  unfold blend
  split
  case isFalse hout =>
    split
    case isTrue h =>
      obtain ⟨rfl, rfl⟩ := h
      have hnone : i.pixel? u v = none := if_neg (by omega)
      simp [hnone]
    case isFalse => rfl
  case isTrue hin =>
    simp only [pixel?]
    split
    case isFalse => simp
    case isTrue huv =>
      rw [Array.getElem?_modify]
      -- Rows do not overlap: a pixel's place in the array tells its row and its column.
      have hplace : y.toNat * i.width + x.toNat = v * i.width + u ↔ x = u ∧ y = v := by
        constructor
        · intro h
          have hrow : y.toNat = v := by
            have hx : x.toNat < i.width := by omega
            have hdiv := congrArg (· / i.width) h
            have hw : 0 < i.width := by omega
            simpa [Nat.mul_comm _ i.width, Nat.mul_add_div hw, Nat.div_eq_of_lt hx,
              Nat.div_eq_of_lt huv.1] using hdiv
          rw [hrow] at h
          omega
        · rintro ⟨rfl, rfl⟩
          rfl
      simp only [hplace]

/-- Marks beside the image leave it as it is. -/
theorem mark_eq_self {i : Image} {marks : List Mark}
    (h : ∀ m ∈ marks, ∀ x y : Nat, x < i.width → y < i.height → ¬m.On x y) : i.mark marks = i := by
  induction marks with
  | nil => rfl
  | cons m marks ih =>
    have hblend : i.blend m.x m.y m.colour = i := by
      refine if_neg fun hin => ?_
      refine h m List.mem_cons_self m.x.toNat m.y.toNat (by omega) (by omega) ⟨?_, ?_⟩ <;> omega
    rw [mark_cons, hblend]
    exact ih fun m' hm' => h m' (List.mem_cons_of_mem m hm')

/-- A mark leaves equal pixels equal. -/
theorem pixel?_mark_congr {i j : Image} {u v : Nat} (h : i.pixel? u v = j.pixel? u v)
    (marks : List Mark) : (i.mark marks).pixel? u v = (j.mark marks).pixel? u v := by
  induction marks generalizing i j with
  | nil => exact h
  | cons m marks ih => exact ih (by rw [pixel?_blend, pixel?_blend, h])

end Image

/-! ## Changes that only leave marks -/

/-- The change `f` of an image leaves the marks `g` and nothing else, and which marks these are
depends on the size of the image alone. -/
structure Leaves (f : Image → Image) (g : Image → List Mark) : Prop where
  image : ∀ i, f i = i.mark (g i)
  congr : ∀ {i j : Image}, i.SameSize j → g i = g j

namespace Leaves

variable {β : Type} {f : β → Image → Image} {g : β → Image → List Mark}

theorem blend (x y : Int) (c : Colour) : Leaves (fun i => i.blend x y c) fun _ => [⟨x, y, c⟩] :=
  ⟨fun _ => rfl, fun _ => rfl⟩

/-- A loop over a list leaves the marks of its rounds, one round after the other. -/
theorem foldl (h : ∀ b, Leaves (f b) (g b)) (l : List β) :
    Leaves (fun i => l.foldl (fun i b => f b i) i) fun i => l.flatMap (g · i) where
  image i := by
    induction l generalizing i with
    | nil => rfl
    | cons b l ih =>
      have hsize := Image.sameSize_mark i (g b i)
      have hrest : l.flatMap (g · (i.mark (g b i))) = l.flatMap (g · i) :=
        congrArg l.flatMap (funext fun b' => (h b').congr hsize)
      rw [List.foldl_cons, (h b).image, ih, hrest, List.flatMap_cons, Image.mark_append]
  congr hij := congrArg l.flatMap (funext fun b => (h b).congr hij)

/-- A counted loop leaves the marks of its rounds, one round after the other. -/
theorem fold {f : Nat → Image → Image} {g : Nat → Image → List Mark}
    (h : ∀ k, Leaves (f k) (g k)) (n : Nat) :
    Leaves (fun i => n.fold (fun k _ i => f k i) i) fun i => (List.range n).flatMap (g · i) where
  image i := by
    rw [← (foldl h (List.range n)).image]
    induction n with
    | zero => rfl
    | succ n ih => rw [Nat.fold_succ, ih, List.range_succ, List.foldl_append]; rfl
  congr := (foldl h (List.range n)).congr

end Leaves

/-! ## The marks of strokes and fills -/

namespace Raster

section Paints

variable {α : Type} [Scalar α]

/-- The marks of the pen set down around a position, row by row. -/
def dabMarks (scale : Nat) (colour : Colour) (p : Position α) : List Mark :=
  (List.range scale).flatMap fun (dy : Nat) => (List.range scale).flatMap fun (dx : Nat) =>
    [⟨penStart α scale p.1 + dx, penStart α scale p.2 + dy, colour⟩]

theorem leaves_dab (scale : Nat) (colour : Colour) (p : Position α) :
    Leaves (fun i => dab scale colour i p) fun _ => dabMarks scale colour p :=
  .fold (fun _ => .fold (fun _ => .blend _ _ _) scale) scale

/-- The marks of the pen drawn along a segment, on an image of the size of `i`. -/
def lineMarks (scale : Nat) (colour : Colour) (segment : Position α × Position α) (i : Image) :
    List Mark :=
  let (start, stop) := segment
  if Scalar.isFinite start.1 && Scalar.isFinite start.2 && Scalar.isFinite stop.1 &&
      Scalar.isFinite stop.2 then
    match (reach i scale).clip start stop with
    | none => []
    | some (start, stop) =>
      let n := steps start stop
      (List.range (n + 1)).flatMap fun k => dabMarks scale colour (penPosition start stop n k)
  else []

theorem reach_congr {i j : Image} (h : i.SameSize j) (scale : Nat) :
    (reach i scale : Box α) = reach j scale := by
  rw [reach, reach, h.width, h.height]

theorem leaves_line (scale : Nat) (colour : Colour) (segment : Position α × Position α) :
    Leaves (fun i => line scale colour i segment) (lineMarks scale colour segment) where
  image i := by
    obtain ⟨start, stop⟩ := segment
    simp only [line, lineMarks]
    split
    case isFalse => rfl
    case isTrue =>
      cases (reach i scale).clip start stop with
      | none => rfl
      | some clipped => exact (Leaves.fold (fun _ => leaves_dab scale colour _) _).image i
  congr h := by
    obtain ⟨start, stop⟩ := segment
    simp only [lineMarks, reach_congr h]

/-- The marks on one row of an image of the size of `i`, filled between the edges. -/
def rowMarks (edges : List (Position α × Position α)) (colour : Colour) (row : Nat) (i : Image) :
    List Mark :=
  (Path.pairs (Path.crossings edges (Scalar.ofInt row + 0.5))).flatMap fun between =>
    (List.range (Path.columns i.width between).2).flatMap fun (k : Nat) =>
      [⟨(Path.columns i.width between).1 + k, row, colour⟩]

/-- One stretch of a filled row. -/
theorem leaves_columns (colour : Colour) (row : Nat) (between : α × α) :
    Leaves
      (fun i => (Path.columns i.width between).2.fold
        (fun k _ i' => i'.blend ((Path.columns i.width between).1 + k) row colour) i)
      fun i => (List.range (Path.columns i.width between).2).flatMap fun (k : Nat) =>
        [⟨(Path.columns i.width between).1 + k, row, colour⟩] where
  image i := (Leaves.fold (fun _ => .blend _ _ _) _).image i
  congr h := by simp only [h.width]

theorem leaves_fillRow (edges : List (Position α × Position α)) (colour : Colour) (row : Nat) :
    Leaves (fun i => fillRow edges colour i row) (rowMarks edges colour row) :=
  .foldl (fun between => leaves_columns colour row between) _

/-- The marks of a fill on an image of the size of `i`, row by row from the top. -/
def fillMarks (edges : List (Position α × Position α)) (colour : Colour) (i : Image) : List Mark :=
  (List.range i.height).flatMap (rowMarks edges colour · i)

theorem leaves_fillPath (edges : List (Position α × Position α)) (colour : Colour) :
    Leaves (fillPath edges colour) (fillMarks edges colour) where
  image i := (Leaves.fold (fun row => leaves_fillRow edges colour row) _).image i
  congr {i j} h := by
    rw [fillMarks, fillMarks, h.height]
    exact congrArg (List.range j.height).flatMap
      (funext fun row => (leaves_fillRow edges colour row).congr h)

/-- The marks of a stroke along segments on an image of the size of `i`. -/
def strokeMarks (scale : Nat) (colour : Colour) (segments : List (Position α × Position α))
    (i : Image) : List Mark :=
  segments.flatMap (lineMarks scale colour · i)

theorem leaves_stroke (scale : Nat) (colour : Colour)
    (segments : List (Position α × Position α)) :
    Leaves (fun i => segments.foldl (line scale colour) i) (strokeMarks scale colour segments) :=
  .foldl (fun segment => leaves_line scale colour segment) segments

end Paints

/-! ## The marks of surface calls -/

variable {α : Type} [Analytic α]

/-- The marks that a call leaves. -/
def marks (r : Raster α) : SurfaceCall α → List Mark
  | .stroke colour => strokeMarks r.scale colour r.path.segments r.image
  | .fill colour => fillMarks r.path.edges colour r.image
  | _ => []

/-- The marks that calls leave, those of the first call first. -/
def marksAll (r : Raster α) : List (SurfaceCall α) → List Mark
  | [] => []
  | c :: calls => r.marks c ++ (r.perform c).marksAll calls

theorem image_perform (r : Raster α) (c : SurfaceCall α) :
    (r.perform c).image = r.image.mark (r.marks c) := by
  cases c with
  | stroke colour => exact (leaves_stroke r.scale colour r.path.segments).image r.image
  | fill colour => exact (leaves_fillPath r.path.edges colour).image r.image
  | restore =>
    rw [perform]
    split <;> rfl
  | _ => rfl

/-- The image after any calls is the image before them under the marks they leave. -/
theorem image_performAll (r : Raster α) (calls : List (SurfaceCall α)) :
    (r.performAll calls).image = r.image.mark (r.marksAll calls) := by
  induction calls generalizing r with
  | nil => rfl
  | cons c calls ih =>
    calc
      _ = (r.perform c).image.mark ((r.perform c).marksAll calls) := ih _
      _ = r.image.mark (r.marksAll (c :: calls)) := by
        rw [image_perform, ← Image.mark_append, marksAll]

/-- No call changes the size of the image. -/
theorem sameSize_performAll (r : Raster α) (calls : List (SurfaceCall α)) :
    (r.performAll calls).image.SameSize r.image := by
  rw [image_performAll]
  exact Image.sameSize_mark _ _

/-! ## Rasters that differ in their pixels -/

/-- The rasters agree on everything but the contents of their pixels. -/
structure Alike (r s : Raster α) : Prop where
  size : r.image.SameSize s.image
  scale : r.scale = s.scale
  offset : r.offset = s.offset
  saved : r.saved = s.saved
  path : r.path = s.path

namespace Alike

variable {r s : Raster α}

theorem marks (h : r.Alike s) (c : SurfaceCall α) : r.marks c = s.marks c := by
  cases c with
  | stroke colour =>
    rw [Raster.marks, Raster.marks, h.scale, h.path]
    exact (leaves_stroke s.scale colour s.path.segments).congr h.size
  | fill colour =>
    rw [Raster.marks, Raster.marks, h.path]
    exact (leaves_fillPath s.path.edges colour).congr h.size
  | _ => rfl

theorem perform (h : r.Alike s) (c : SurfaceCall α) : (r.perform c).Alike (s.perform c) := by
  have hsize : (r.perform c).image.SameSize (s.perform c).image := by
    rw [image_perform, image_perform]
    exact (Image.sameSize_mark _ _).trans (h.size.trans (Image.sameSize_mark _ _).symm)
  obtain ⟨-, hscale, hoffset, hsaved, hpath⟩ := h
  refine ⟨hsize, ?_, ?_, ?_, ?_⟩
  all_goals
    cases c <;> simp only [Raster.perform, arcPoints, Raster.device, hscale, hoffset, hsaved, hpath]
  all_goals cases s.saved <;> simp [hscale, hoffset, hsaved, hpath]

theorem performAll (h : r.Alike s) (calls : List (SurfaceCall α)) :
    (r.performAll calls).Alike (s.performAll calls) ∧ r.marksAll calls = s.marksAll calls := by
  induction calls generalizing r s with
  | nil => exact ⟨h, rfl⟩
  | cons c calls ih =>
    obtain ⟨halike, hmarks⟩ := ih (h.perform c)
    exact ⟨halike, by rw [marksAll, marksAll, h.marks c, hmarks]⟩

end Alike

/-- **A surface is written and never read.** Let two rasters agree on everything but the contents of
their pixels. After any calls they still do, and every pixel that was equal before is equal after.
Both images come about by the same marks, in the same order, and both keep their size: what is
painted never depends on the image. -/
theorem performAll_unread {r s : Raster α} (h : r.Alike s) (calls : List (SurfaceCall α)) :
    (r.performAll calls).Alike (s.performAll calls) ∧
      (∀ x y, r.image.pixel? x y = s.image.pixel? x y →
        (r.performAll calls).image.pixel? x y = (s.performAll calls).image.pixel? x y) ∧
      (∃ marks, (r.performAll calls).image = r.image.mark marks ∧
        (s.performAll calls).image = s.image.mark marks) ∧
      (r.performAll calls).image.SameSize r.image ∧
      (s.performAll calls).image.SameSize s.image := by
  obtain ⟨halike, hmarks⟩ := h.performAll calls
  have hr := image_performAll r calls
  have hs := image_performAll s calls
  rw [← hmarks] at hs
  refine ⟨halike, fun x y hxy => ?_, ⟨r.marksAll calls, hr, hs⟩, ?_, ?_⟩
  · rw [hr, hs]
    exact Image.pixel?_mark_congr hxy _
  · rw [hr]
    exact Image.sameSize_mark _ _
  · rw [hs]
    exact Image.sameSize_mark _ _

/-- Two pixels side by side, a white one and one of a given colour. -/
def spotted (c : Colour) : Raster Float where
  image := ⟨2, 1, #[.white, c], rfl⟩
  scale := 1
  offset := (0, 0)

/-- A translucent line that goes astray. -/
def scrawl : List (SurfaceCall Float) :=
  [.beginPath, .moveTo 0 0, .lineTo 2 0, .arc 0 0 (0 / 0) 0 1, .stroke ⟨255, 0, 0, 128⟩]

theorem performAll_unread_scrawl :
    (spotted .black).Alike (spotted .transparent) ∧
      (spotted .black).image.pixel? 1 0 ≠ (spotted .transparent).image.pixel? 1 0 ∧
      ((spotted .black).performAll scrawl).Alike ((spotted .transparent).performAll scrawl) ∧
      ((spotted .black).performAll scrawl).image.pixel? 0 0 =
        ((spotted .transparent).performAll scrawl).image.pixel? 0 0 := by
  have halike : (spotted .black).Alike (spotted .transparent) :=
    ⟨⟨rfl, rfl⟩, rfl, rfl, rfl, rfl⟩
  obtain ⟨hafter, hpixels, -⟩ := performAll_unread halike scrawl
  exact ⟨halike, by decide, hafter, hpixels 0 0 rfl⟩

end Raster

end Easel
