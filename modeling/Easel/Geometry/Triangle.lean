import Easel.Geometry.Point

/-!
# Triangles

Side lengths, area, and the feet of the altitudes.
-/

namespace Easel

structure Triangle (α : Type) where
  a : Point α
  b : Point α
  c : Point α
  deriving DecidableEq, Repr

namespace Triangle

variable {α : Type} [Analytic α]

/-- The lengths of the sides opposite `a`, `b` and `c`. -/
def sides (t : Triangle α) : α × α × α :=
  (t.b.distance t.c, t.a.distance t.c, t.a.distance t.b)

/-- The area from the side lengths, by Heron's formula. -/
def area (t : Triangle α) : α :=
  let (a, b, c) := t.sides
  let s := (a + b + c) / 2
  Analytic.sqrt (Scalar.larger (s * (s - a) * (s - b) * (s - c)) 0)

/-- Whether the triangle is too thin to divide: its area is no more than a billionth of the square
of its longest side, or it cannot be computed. -/
def isDegenerate (t : Triangle α) : Bool :=
  let (a, b, c) := t.sides
  let longest := Scalar.larger (Scalar.larger a b) c
  let cross := (t.b.x - t.a.x) * (t.c.y - t.a.y) - (t.b.y - t.a.y) * (t.c.x - t.a.x)
  !Scalar.isFinite cross || longest == 0 ||
    decide (Scalar.abs cross / 2 ≤ 1e-9 * longest * longest)

/-- The other leg of a right triangle with this hypotenuse and leg. -/
def leg (hypotenuse side : α) : α :=
  Analytic.sqrt (Scalar.larger (hypotenuse * hypotenuse - side * side) 0)

/-- The feet of the altitudes from `a`, `b` and `c`, each measured along its side from a vertex. -/
def altitudeFeet (t : Triangle α) : Point α × Point α × Point α :=
  let (a, b, c) := t.sides
  let area := t.area
  let heightA := 2 * area / a
  let heightB := 2 * area / b
  let heightC := 2 * area / c
  let d := t.b.lerp t.c (leg c heightA / a)
  let e := t.a.lerp t.c (leg c heightB / b)
  let f := t.a.lerp t.b (leg b heightC / c)
  (d, e, f)

end Triangle

end Easel
