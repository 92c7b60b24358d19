import Easel.Canvas.Surface
import Easel.Colour.Lighten
import Easel.Script.Object

/-!
# Pictures of objects

How each object is drawn: the surface calls that make its picture in a stroke colour.
-/

namespace Easel

namespace Picture

/-- The radius of the dot that stands for a point. -/
def pointRadius : Float := 2

/-- How far towards white the fills of a fractal are lightened, in percent. -/
def fillLightening : Float32 := 60

variable {α : Type} [Analytic α]

/-- The path of a whole circle. -/
def circlePath (center : Point α) (radius : α) : List (SurfaceCall α) :=
  [.beginPath, .arc center.x center.y radius 0 Analytic.tau, .closePath]

/-- The outline of a circle. -/
def circle (colour : Colour) (c : Circle α) : List (SurfaceCall α) :=
  circlePath c.center c.radius ++ [.stroke colour]

/-- The outlines of all circles of a gasket. -/
def gasket (colour : Colour) (g : Gasket α) : List (SurfaceCall α) :=
  g.circles.flatMap (circle colour)

/-- The path around a triangle. -/
def trianglePath (t : Triangle α) : List (SurfaceCall α) :=
  [.beginPath, .moveTo t.a.x t.a.y, .lineTo t.b.x t.b.y, .lineTo t.c.x t.c.y, .closePath]

/-- The outline of the seed, and every other triangle filled in a lighter colour and outlined. -/
def fractal (colour : Colour) (s : Sierpinski α) : List (SurfaceCall α) :=
  let light := colour.lighten fillLightening
  trianglePath s.seed ++ [.stroke colour] ++
    s.triangles.tail.flatMap fun t => trianglePath t ++ [.fill light, .stroke colour]

/-- A hexagon around the origin. -/
def cell (colour : Colour) (corners : List (Point α)) : List (SurfaceCall α) :=
  [.beginPath] ++ (corners.head?.map fun p => .moveTo p.x p.y).toList ++
    corners.tail.map (fun p => .lineTo p.x p.y) ++ [.closePath, .stroke colour]

/-- The outlines of all cells of a tiling, each drawn around its own middle. -/
def tiling (colour : Colour) (h : Hexagons α) : List (SurfaceCall α) :=
  let outline := cell colour h.cellCorners
  h.cellCenters.flatMap fun p => [.save, .translate p.x p.y] ++ outline ++ [.restore]

end Picture

/-- The picture of an object in a stroke colour. -/
def Object.picture (colour : Colour) : Object → List (SurfaceCall Float)
  | apollonian g => Picture.gasket colour g
  | sierpinski s => Picture.fractal colour s
  | hexagons h => Picture.tiling colour h
  | point p => Picture.circlePath p.point Picture.pointRadius ++ [.fill colour]
  | circle c => Picture.circle colour c.circle

/-- The picture of objects on display, in order. -/
def Picture.ofShown (shown : List (Object × Colour)) : List (SurfaceCall Float) :=
  shown.flatMap fun s => s.1.picture s.2

end Easel
