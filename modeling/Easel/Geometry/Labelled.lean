import Easel.Geometry.Circle

/-!
# Points and circles of construction diagrams

Scripts may label these shapes and read their coordinates by name.
-/

namespace Easel

/-- A point with an optional label. -/
structure LabelledPoint (α : Type) where
  point : Point α
  label : Option String := none
  deriving DecidableEq, Repr

/-- A circle with an optional label. -/
structure LabelledCircle (α : Type) where
  circle : Circle α
  label : Option String := none
  deriving DecidableEq, Repr

variable {α : Type}

namespace LabelledPoint

/-- The names that `field?` knows. -/
def fields : List String := ["x", "y"]

/-- The coordinate of a name. -/
def field? (p : LabelledPoint α) : String → Option α
  | "x" => some p.point.x
  | "y" => some p.point.y
  | _ => none

end LabelledPoint

namespace LabelledCircle

/-- The names that `field?` knows. -/
def fields : List String := ["x", "y", "r"]

/-- The measure of a name. -/
def field? (c : LabelledCircle α) : String → Option α
  | "x" => some c.circle.center.x
  | "y" => some c.circle.center.y
  | "r" => some c.circle.radius
  | _ => none

/-- The points where two circles cross or touch, without labels. -/
def intersect [Analytic α] (c d : LabelledCircle α) : List (LabelledPoint α) :=
  (c.circle.intersections d.circle).map fun p => { point := p }

end LabelledCircle

end Easel
