import Easel.Canvas.Picture
import Easel.Canvas.Raster
import Easel.Sketch.Basic

/-!
# Images of sketches

What is on display is painted on a fresh image of the sketch's canvas.
-/

namespace Easel

namespace Canvas

/-- The image of what is shown on the canvas, at `scale` pixels to a unit. -/
def rasterise (c : Canvas) (scale : Nat) (shown : List (Object × Colour)) :
    Except Error Image := do
  let background ← c.colour
  let raster : Raster Float ← Raster.create c.width c.height scale background
  return (raster.performAll (Picture.ofShown shown)).image

end Canvas

end Easel
