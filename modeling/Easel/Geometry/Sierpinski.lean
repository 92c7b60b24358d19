import Easel.Geometry.Triangle

/-!
# Sierpinski triangles

Each generation draws, in every triangle of the frontier, the triangle of the feet of its altitudes,
and puts the three corners left around it in its place. In an equilateral triangle the feet are the
midpoints of the sides.
-/

namespace Easel

/-- A Sierpinski fractal under construction. -/
structure Sierpinski (α : Type) where
  seed : Triangle α
  /-- The seed and every triangle drawn, in drawing order. -/
  triangles : List (Triangle α)
  /-- The triangles that the next generation divides. -/
  frontier : List (Triangle α)
  generation : Nat
  deriving DecidableEq, Repr

namespace Sierpinski

variable {α : Type}

def ofSeed (seed : Triangle α) : Sierpinski α := ⟨seed, [seed], [seed], 0⟩

variable [Analytic α]

/-- The triangle of the altitude feet. -/
def inner (t : Triangle α) : Triangle α :=
  let (d, e, f) := t.altitudeFeet
  ⟨d, e, f⟩

/-- The corners of `t` around its inner triangle `i`. -/
def corners (t i : Triangle α) : List (Triangle α) :=
  [⟨i.a, i.b, t.c⟩, ⟨i.a, t.b, i.c⟩, ⟨t.a, i.b, i.c⟩]

/-- How many triangles the next generation draws. -/
def added (s : Sierpinski α) : Nat := s.frontier.length

/-- One generation: every triangle of the frontier is divided. -/
def next (s : Sierpinski α) : Sierpinski α :=
  let divided := s.frontier.map fun t => (t, inner t)
  { s with
    triangles := s.triangles ++ divided.map (·.2)
    frontier := divided.flatMap fun d => corners d.1 d.2
    generation := s.generation + 1 }

end Sierpinski

end Easel
