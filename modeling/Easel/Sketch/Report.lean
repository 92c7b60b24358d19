import Easel.Json.Basic
import Easel.Sketch.Run

/-!
# Reports

What a finished run has put on its canvas, as JSON.
-/

namespace Easel

namespace Report

def point (p : Point Float) : Json := .object [("x", .float p.x), ("y", .float p.y)]

def circle (c : Circle Float) : Json :=
  .object [("center", point c.center), ("radius", .float c.radius),
    ("curvature", .float c.curvature)]

def triangle (t : Triangle Float) : Json :=
  .object [("a", point t.a), ("b", point t.b), ("c", point t.c)]

def label (l : Option String) : Json := (l.map Json.string).getD .null

def labelledPoint (p : LabelledPoint Float) : List (String × Json) :=
  [("point", point p.point), ("label", label p.label)]

def labelledCircle (c : LabelledCircle Float) : List (String × Json) :=
  [("circle", circle c.circle), ("label", label c.label)]

/-- An object with its class. What generators have still to do is left out. -/
def object : Object → Json
  | .apollonian g => .object [("class", .string "apollonian"), ("origin", point g.origin),
      ("enclosing", (g.enclosing.map circle).getD .null),
      ("circles", .array (g.circles.map circle)), ("generation", .int g.generation)]
  | .sierpinski s => .object [("class", .string "sierpinski"), ("seed", triangle s.seed),
      ("triangles", .array (s.triangles.map triangle)), ("generation", .int s.generation)]
  | .hexagons h => .object [("class", .string "hexagons"), ("center", point h.center),
      ("size", .float h.size), ("rings", .int h.rings)]
  | .point p => .object (("class", .string "point") :: labelledPoint p)
  | .circle c => .object (("class", .string "circle") :: labelledCircle c)

/-- An object on display with its colour. -/
def shown (s : Object × Colour) : Json :=
  .object [("colour", .string (toString s.2)), ("object", object s.1)]

end Report

namespace Sketch

/-- Runs the sketch and reports its name, its frames and what is on display at the end. -/
def report (s : Sketch) : Except Error Json := do
  let run ← s.run .skip
  return .object [("name", .string s.name), ("frames", .int run.frames),
    ("shown", .array (run.shown.map Report.shown))]

end Sketch

end Easel
