import Easel.Proofs.Canvas.Marks
import Easel.Proofs.Sketch.Progress
import Easel.Sketch.Check
import Easel.Sketch.Rasterise

/-!
# Which canvases can be rasterised

Whether a canvas can be rasterised depends on its size, on the scale and on its background, and on
nothing that is displayed: once there is an image of the right size, painting neither fails nor
changes the size. The check of a sketch looks at the size in units, which is the size in pixels at
scale 1, and at scale 0 too because a unit takes at least one pixel.
-/

namespace Easel

namespace Canvas

variable {c : Canvas} {scale : Nat} {shown : List (Object × Colour)} {image : Image}

theorem exists_colour_iff :
    (∃ colour, c.colour = .ok colour) ↔ ∃ colour, Colour.ofHex c.background = .ok colour := by
  rw [colour]
  cases Colour.ofHex c.background <;> simp

theorem rasterise_eq_ok :
    c.rasterise scale shown = .ok image ↔ ∃ colour, c.colour = .ok colour ∧
      ∃ raster : Raster Float, Raster.create c.width c.height scale colour = .ok raster ∧
        (raster.performAll (Picture.ofShown shown)).image = image := by
  simp only [rasterise, bind_eq_ok, pure, Except.pure, Except.ok.injEq]

/-- What is displayed does not matter for whether there is an image. -/
theorem exists_rasterise_iff (c : Canvas) (scale : Nat) (shown : List (Object × Colour)) :
    (∃ image, c.rasterise scale shown = .ok image) ↔
      (∃ colour, c.colour = .ok colour) ∧
        c.width * max scale 1 ≤ Raster.maxSide ∧ c.height * max scale 1 ≤ Raster.maxSide := by
  simp only [rasterise_eq_ok, Raster.create_eq_ok]
  constructor
  · rintro ⟨_, colour, hcolour, _, ⟨hwidth, hheight, -⟩, -⟩
    exact ⟨⟨colour, hcolour⟩, hwidth, hheight⟩
  · rintro ⟨⟨colour, hcolour⟩, hwidth, hheight⟩
    exact ⟨_, colour, hcolour, _, ⟨hwidth, hheight, rfl⟩, rfl⟩

theorem size_of_rasterise (h : c.rasterise scale shown = .ok image) :
    image.width = c.width * max scale 1 ∧ image.height = c.height * max scale 1 := by
  obtain ⟨colour, -, raster, hcreate, rfl⟩ := rasterise_eq_ok.1 h
  obtain ⟨-, -, rfl⟩ := Raster.create_eq_ok.1 hcreate
  obtain ⟨hwidth, hheight⟩ := Raster.sameSize_performAll _ (Picture.ofShown shown)
  exact ⟨hwidth, hheight⟩

/-- Where the check finds no error, a canvas has a background and is within the limit. -/
theorem sound_of_checkCanvas {s : Sketch} (h : ∀ d ∈ s.checkCanvas, d.severity ≠ .error) :
    (∃ colour, s.canvas.colour = .ok colour) ∧
      s.canvas.width ≤ Raster.maxSide ∧ s.canvas.height ≤ Raster.maxSide := by
  have hbackground : ∃ colour, s.canvas.colour = .ok colour := by
    cases hcolour : s.canvas.colour with
    | ok colour => exact ⟨colour, rfl⟩
    | error e =>
      have hfound : ⟨.badBackground s.canvas.background, none⟩ ∈ s.checkCanvas := by
        simp [Sketch.checkCanvas, hcolour]
      exact absurd rfl (h _ hfound)
  have hsize : ¬(Raster.maxSide < s.canvas.width ∨ Raster.maxSide < s.canvas.height) := by
    intro hlarge
    have hfound : ⟨.oversizeCanvas s.canvas.width s.canvas.height, none⟩ ∈ s.checkCanvas := by
      simp [Sketch.checkCanvas, hlarge]
    exact h _ hfound rfl
  exact ⟨hbackground, by omega⟩

/-- **Checked canvases can be rasterised.** There is an image of a canvas if and only if its
background is a colour and neither side is longer than 16384 pixels, at one pixel to a unit for
scale 0; the image then has exactly these sides, whatever is displayed. If the check of a sketch
finds no error, there is an image of its canvas at the scales 0 and 1. -/
theorem rasterise_by_size :
    (∀ (c : Canvas) (scale : Nat) (shown : List (Object × Colour)),
      ((∃ image, c.rasterise scale shown = .ok image) ↔
        (∃ colour, Colour.ofHex c.background = .ok colour) ∧
          c.width * max scale 1 ≤ 16384 ∧ c.height * max scale 1 ≤ 16384) ∧
      ∀ image, c.rasterise scale shown = .ok image →
        image.width = c.width * max scale 1 ∧ image.height = c.height * max scale 1) ∧
    ∀ s : Sketch, (∀ d ∈ s.check, d.severity ≠ .error) →
      ∀ scale ≤ 1, ∀ shown, ∃ image, s.canvas.rasterise scale shown = .ok image := by
  refine ⟨fun c scale shown => ⟨?_, fun image h => size_of_rasterise h⟩,
    fun s hs scale hscale shown => ?_⟩
  · rw [exists_rasterise_iff, exists_colour_iff]
    rfl
  · have hcanvas : ∀ d ∈ s.checkCanvas, d.severity ≠ .error := fun d hd =>
      hs d (by simp only [Sketch.check, List.mem_append, hd, true_or])
    obtain ⟨hbackground, hwidth, hheight⟩ := sound_of_checkCanvas hcanvas
    have hunit : max scale 1 = 1 := Nat.max_eq_right hscale
    rw [exists_rasterise_iff, hunit, Nat.mul_one, Nat.mul_one]
    exact ⟨hbackground, hwidth, hheight⟩

/-- A canvas that is as wide as can be, of no background. -/
def ribbon : Sketch where
  name := "ribbon"
  canvas := { width := 16384, height := 1, background := "#00000000" }

/-- A patch of hexagons that lies partly outside the canvas. -/
def patch : List (Object × Colour) := [(.hexagons ⟨⟨0, 0⟩, 5, 1⟩, .black)]

theorem rasterise_by_size_ribbon :
    (∀ d ∈ ribbon.check, d.severity ≠ .error) ∧ ∃ image,
      ribbon.canvas.rasterise 0 patch = .ok image ∧ image.width = 16384 ∧ image.height = 1 := by
  have hs : ∀ d ∈ ribbon.check, d.severity ≠ .error := by decide
  obtain ⟨image, himage⟩ := rasterise_by_size.2 ribbon hs 0 (by decide) patch
  exact ⟨hs, image, himage, (rasterise_by_size.1 _ _ _).2 image himage⟩

end Canvas

end Easel
