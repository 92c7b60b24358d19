import Easel.Number.Binary

/-!
# Points

Points of the drawing plane; the second coordinate grows downward.
-/

namespace Easel

structure Point (α : Type) where
  x : α
  y : α
  deriving DecidableEq, Repr

namespace Point

variable {α : Type}

section Scalar

variable [Scalar α]

/-- The point where both coordinates are zero. -/
def origin : Point α := ⟨0, 0⟩

/-- The point the share `t` of the way from `p` to `q`. -/
def lerp (p q : Point α) (t : α) : Point α :=
  ⟨p.x + (q.x - p.x) * t, p.y + (q.y - p.y) * t⟩

def midpoint (p q : Point α) : Point α := p.lerp q 0.5

def offset (p : Point α) (dx dy : α) : Point α := ⟨p.x + dx, p.y + dy⟩

def isFinite (p : Point α) : Bool := Scalar.isFinite p.x && Scalar.isFinite p.y

end Scalar

/-- The distance between two points. -/
def distance [Analytic α] (p q : Point α) : α := Analytic.hypot (q.x - p.x) (q.y - p.y)

end Point

end Easel
