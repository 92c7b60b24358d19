import Easel.Canvas.Image
import Easel.Canvas.Path
import Easel.Canvas.Surface
import Easel.Error
import Easel.Number.Word

/-!
# Rasters

A raster carries out surface calls on an image. Strokes are one canvas unit wide: a square pen is
set down along every segment, in steps of at most a pixel. Fills follow the even-odd rule, pixel by
pixel at the middles. Arcs become segments before they are painted.
-/

namespace Easel

/-- A surface that paints pixels. -/
structure Raster (α : Type) where
  image : Image
  /-- Pixels to a canvas unit, a whole number. -/
  scale : Nat
  offset : Position α
  /-- The translations saved, the last one first. -/
  saved : List (Position α) := []
  path : Path α := #[]

namespace Raster

/-- The most pixels on a side of an image. -/
def maxSide : Nat := 16384

/-- How many pixels a side of `units` has at `scale` pixels to a unit, unless they are too many.
Pixels are counted in words of 32 bits, and a count that does not fit in one is too many. -/
def side? (scale units : Nat) : Option Nat :=
  (Word.product? 32 units scale).filter fun n => n ≤ maxSide

/-- Every count up to the limit fits in a word. -/
theorem side?_eq_some {scale units n : Nat} :
    side? scale units = some n ↔ n = units * scale ∧ n ≤ maxSide := by
  have hword : ∀ {m : Nat}, m ≤ maxSide → m < Word.values 32 :=
    fun h => Nat.lt_of_le_of_lt h (by decide)
  simp only [side?, Option.filter_eq_some_iff, Word.product?_eq_some, decide_eq_true_eq]
  exact ⟨fun h => ⟨h.1.1, h.2⟩, fun h => ⟨⟨h.1, hword h.2⟩, h.2⟩⟩

variable {α : Type} [Scalar α]

/-- A canvas of `width` by `height` units, at `scale` pixels to a unit and at least one. -/
def create (width height scale : Nat) (background : Colour) : Except Error (Raster α) :=
  let scale := max scale 1
  match side? scale width, side? scale height with
  | some columns, some rows =>
    .ok { image := .filled columns rows background, scale, offset := (0, 0) }
  | _, _ => .error (.build (.oversizeCanvas width height scale maxSide))

/-- A canvas is created if and only if both its sides stay within the limit. -/
theorem create_eq_ok {width height scale : Nat} {background : Colour} {r : Raster α} :
    create width height scale background = .ok r ↔
      width * max scale 1 ≤ maxSide ∧ height * max scale 1 ≤ maxSide ∧
      r = { image := .filled (width * max scale 1) (height * max scale 1) background
            scale := max scale 1
            offset := (0, 0) } := by
  rw [create]
  split
  case h_1 columns rows hcolumns hrows =>
    obtain ⟨rfl, hwidth⟩ := side?_eq_some.1 hcolumns
    obtain ⟨rfl, hheight⟩ := side?_eq_some.1 hrows
    rw [Except.ok.injEq]
    exact ⟨fun h => ⟨hwidth, hheight, h.symm⟩, fun h => h.2.2.symm⟩
  case h_2 hnone =>
    constructor
    · intro h
      cases h
    · rintro ⟨hwidth, hheight, -⟩
      exact (hnone _ _ (side?_eq_some.2 ⟨rfl, hwidth⟩) (side?_eq_some.2 ⟨rfl, hheight⟩)).elim

/-- The pixel position of a point of the canvas under the translation in force. -/
@[inline] def device (r : Raster α) (x y : α) : Position α :=
  let scale : α := Scalar.ofInt r.scale
  ((x + r.offset.1) * scale, (y + r.offset.2) * scale)

section Strokes

variable (α) in
/-- The pixels from the first column (or row) of a pen that is `scale` pixels wide. -/
@[inline] def penStart (scale : Nat) (middle : α) : Int :=
  Scalar.floor (middle - Scalar.ofInt scale / 2 + 0.5)

/-- Sets down the square pen around a position. -/
@[specialize] def dab (scale : Nat) (colour : Colour) (image : Image) (p : Position α) : Image :=
  let x := penStart α scale p.1
  let y := penStart α scale p.2
  scale.fold (fun dy _ image =>
    scale.fold (fun dx _ image => image.blend (x + dx) (y + dy) colour) image) image

/-- The box within which a pen may touch the image. -/
@[inline] def reach (image : Image) (scale : Nat) : Box α :=
  let margin : α := Scalar.ofInt scale
  ⟨-margin, -margin, Scalar.ofInt image.width + margin, Scalar.ofInt image.height + margin⟩

/-- In how many steps the pen goes along a segment: none is longer than a pixel. -/
@[inline] def steps (start stop : Position α) : Nat :=
  max 1 (Scalar.ceil
    (Scalar.larger (Scalar.abs (stop.1 - start.1)) (Scalar.abs (stop.2 - start.2)))).toNat

/-- The position of the pen after `i` of `n` steps. -/
@[inline] def penPosition (start stop : Position α) (n i : Nat) : Position α :=
  let t : α := Scalar.ofInt i / Scalar.ofInt n
  (start.1 + (stop.1 - start.1) * t, start.2 + (stop.2 - start.2) * t)

/-- Draws along a segment, if its ends are finite. -/
@[specialize] def line (scale : Nat) (colour : Colour) (image : Image)
    (segment : Position α × Position α) : Image :=
  let (start, stop) := segment
  if Scalar.isFinite start.1 && Scalar.isFinite start.2 && Scalar.isFinite stop.1 &&
      Scalar.isFinite stop.2 then
    match (reach image scale).clip start stop with
    | none => image
    | some (start, stop) =>
      let n := steps start stop
      (n + 1).fold (fun i _ image => dab scale colour image (penPosition start stop n i)) image
  else image

end Strokes

section Fills

/-- Paints the inside of the path on one row. -/
@[specialize] def fillRow (edges : List (Position α × Position α)) (colour : Colour)
    (image : Image) (row : Nat) : Image :=
  let y : α := Scalar.ofInt row + 0.5
  (Path.pairs (Path.crossings edges y)).foldl (fun image between =>
    let (first, count) := Path.columns image.width between
    count.fold (fun i _ image => image.blend (first + i) row colour) image) image

/-- Paints the inside of the path. -/
@[specialize] def fillPath (edges : List (Position α × Position α)) (colour : Colour)
    (image : Image) : Image :=
  image.height.fold (fun row _ image => fillRow edges colour image row) image

end Fills

end Raster

namespace Raster

variable {α : Type} [Analytic α]

/-- Into how many segments an arc is divided: about one for two pixels, within limits. -/
@[inline] def arcSegments (scale : Nat) (radius sweep : α) : Nat :=
  let pixels := Scalar.abs
    (Scalar.smaller (Scalar.abs sweep) Analytic.tau * radius * Scalar.ofInt scale)
  if Scalar.isFinite pixels then
    let wanted := pixels / 2
    if wanted ≤ 8 then 8 else if 720 ≤ wanted then 720 else (Scalar.ceil wanted).toNat
  else 8

/-- The points of an arc, its two ends among them. -/
@[specialize] def arcPoints (r : Raster α) (cx cy radius start stop : α) : Array (Position α) :=
  let sweep := stop - start
  let n := arcSegments r.scale radius sweep
  (Array.range (n + 1)).map fun (i : Nat) =>
    let t := start + sweep * Scalar.ofInt i / Scalar.ofInt n
    r.device (cx + radius * Analytic.cos t) (cy + radius * Analytic.sin t)

/-- Carries out a call. -/
@[specialize] def perform (r : Raster α) : SurfaceCall α → Raster α
  | .beginPath => { r with path := #[] }
  | .moveTo x y => let p := r.device x y; { r with path := r.path.moveTo p }
  | .lineTo x y => let p := r.device x y; { r with path := r.path.extend #[p] }
  | .arc cx cy radius start stop =>
    let points := r.arcPoints cx cy radius start stop
    { r with path := r.path.extend points }
  | .closePath => { r with path := r.path.close }
  | .stroke colour =>
    let segments := r.path.segments
    { r with image := segments.foldl (line r.scale colour) r.image }
  | .fill colour =>
    let edges := r.path.edges
    { r with image := fillPath edges colour r.image }
  | .save => { r with saved := r.offset :: r.saved }
  | .translate dx dy => { r with offset := (r.offset.1 + dx, r.offset.2 + dy) }
  | .restore => match r.saved with
    | offset :: saved => { r with offset, saved }
    | [] => r

/-- Carries out the calls in order. -/
@[specialize] def performAll (r : Raster α) (calls : List (SurfaceCall α)) : Raster α :=
  calls.foldl perform r

end Raster

end Easel
