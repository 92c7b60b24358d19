import Easel.Geometry.Point

/-!
# Circles

A circle keeps its radius and its signed curvature. Negative curvature marks a circle that encloses
its neighbours. Two circles touch when the distance of their centres is the sum or the difference of
their radii.
-/

namespace Easel

structure Circle (α : Type) where
  center : Point α
  radius : α
  curvature : α
  deriving DecidableEq, Repr

namespace Circle

variable {α : Type}

section Scalar

variable [Scalar α]

/-- The circle of a radius; its curvature is the inverse. -/
def ofRadius (x y radius : α) : Circle α := ⟨⟨x, y⟩, radius, 1 / radius⟩

/-- The circle of a signed curvature; its radius is the magnitude of the inverse. -/
def ofCurvature (x y curvature : α) : Circle α := ⟨⟨x, y⟩, Scalar.abs (1 / curvature), curvature⟩

/-- Whether the circle encloses its neighbours. -/
def isEnclosing (c : Circle α) : Bool := decide (c.curvature < 0)

end Scalar

variable [Analytic α]

/-- How far the centres may be from a touching distance for circles to count as touching. -/
def tangencyTolerance : α := 1e-7

/-- Whether the circles touch, from outside or one inside the other, to within `tolerance`. -/
def isTangentTo (c d : Circle α) (tolerance : α) : Bool :=
  let distance := c.center.distance d.center
  decide (Scalar.abs (distance - (c.radius + d.radius)) < tolerance) ||
    decide (Scalar.abs (distance - Scalar.abs (d.radius - c.radius)) < tolerance)

/-- The common points of two circles given by centre and radius: none if the circles are apart,
nested or concentric, one if they touch, and two otherwise. -/
def commonPoints (c₁ : Point α) (r₁ : α) (c₂ : Point α) (r₂ : α) : List (Point α) :=
  let d := c₁.distance c₂
  if d == 0 || decide (r₁ + r₂ < d) || decide (d < Scalar.abs (r₁ - r₂)) then []
  else
    -- `a` is how far along the line of centres the chord lies, `h` half its length
    let a := (r₁ * r₁ - r₂ * r₂ + d * d) / (2 * d)
    let h := Analytic.sqrt (Scalar.larger (r₁ * r₁ - a * a) 0)
    let ux := (c₂.x - c₁.x) / d
    let uy := (c₂.y - c₁.y) / d
    let base : Point α := ⟨c₁.x + a * ux, c₁.y + a * uy⟩
    if h == 0 then [base]
    else [⟨base.x - h * uy, base.y + h * ux⟩, ⟨base.x + h * uy, base.y - h * ux⟩]

/-- The common points of two circles. -/
def intersections (c d : Circle α) : List (Point α) :=
  commonPoints c.center c.radius d.center d.radius

end Circle

end Easel
