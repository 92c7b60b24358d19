import Easel.Colour.Blend

/-!
# Images

A rectangle of pixels, row by row from the top.
-/

namespace Easel

/-- A picture of `width` by `height` pixels. -/
structure Image where
  width : Nat
  height : Nat
  pixels : Array Colour
  size_pixels : pixels.size = width * height

namespace Image

/-- An image of one colour. -/
def filled (width height : Nat) (c : Colour) : Image :=
  ⟨width, height, Array.replicate (width * height) c, by simp⟩

/-- The pixel at column `x` of row `y`. -/
def pixel? (i : Image) (x y : Nat) : Option Colour :=
  if x < i.width ∧ y < i.height then i.pixels[y * i.width + x]? else none

/-- The image with `c` laid over the pixel at column `x` of row `y`; nothing happens outside. -/
def blend (i : Image) (x y : Int) (c : Colour) : Image :=
  if 0 ≤ x ∧ 0 ≤ y ∧ x < i.width ∧ y < i.height then
    { i with
      pixels := i.pixels.modify (y.toNat * i.width + x.toNat) c.onto
      size_pixels := by simp [i.size_pixels] }
  else i

@[simp] theorem width_blend (i : Image) (x y : Int) (c : Colour) :
    (i.blend x y c).width = i.width := by
  unfold blend; split <;> rfl

@[simp] theorem height_blend (i : Image) (x y : Int) (c : Colour) :
    (i.blend x y c).height = i.height := by
  unfold blend; split <;> rfl

end Image

end Easel
