import Easel.Geometry.Circle
import Easel.Geometry.Complex

/-!
# Apollonian gaskets

A gasket starts from a circle and two equal circles side by side inside it, all touching. Each
generation fills every gap, a triple of touching circles, with the circle that Descartes' theorem
predicts; every filled gap leaves three smaller ones.

`Gap.inscribed` finds the filling circles and `Gasket.next` makes a generation.
-/

namespace Easel

/-- Three touching circles around a gap of the packing. -/
structure Gap (α : Type) where
  first : Circle α
  second : Circle α
  third : Circle α
  deriving DecidableEq, Repr

namespace Gap

variable {α : Type}

/-- The circles around the gap. -/
def circles (g : Gap α) : List (Circle α) := [g.first, g.second, g.third]

/-- The gaps left around a circle that fills this one. -/
def around (g : Gap α) (c : Circle α) : List (Gap α) :=
  [⟨c, g.first, g.second⟩, ⟨c, g.second, g.third⟩, ⟨c, g.first, g.third⟩]

variable [Analytic α]

/-- Both curvatures of circles touching three touching circles, the larger first. Rounding may
leave a radicand that should be zero below it; it is then taken as zero. -/
def descartes (k₁ k₂ k₃ : α) : α × α :=
  let sum := k₁ + k₂ + k₃
  let root := 2 * Analytic.sqrt (Scalar.larger (k₁ * k₂ + k₂ * k₃ + k₁ * k₃) 0)
  (sum + root, sum - root)

/-- The two candidates for a circle of curvature `k` in the gap: their centres solve the theorem's
equation over the complex numbers. Centres are taken relative to the first circle's, which keeps
the products small. -/
def candidates (g : Gap α) (k : α) : List (Circle α) :=
  let (k₁, k₂, k₃) := (g.first.curvature, g.second.curvature, g.third.curvature)
  let frame : Complex α := ⟨g.first.center.x, g.first.center.y⟩
  let z₁ : Complex α := ⟨0, 0⟩
  let z₂ := ⟨g.second.center.x, g.second.center.y⟩ - frame
  let z₃ := ⟨g.third.center.x, g.third.center.y⟩ - frame
  let sum := z₁.scale k₁ + z₂.scale k₂ + z₃.scale k₃
  let product :=
    (z₁ * z₂).scale (k₁ * k₂) + (z₂ * z₃).scale (k₂ * k₃) + (z₁ * z₃).scale (k₁ * k₃)
  let root := product.sqrt.scale 2
  [(sum + root).shrink k, (sum - root).shrink k].map fun z =>
    let center := z + frame
    Circle.ofCurvature center.re center.im k

/-- The circles that fill the gap: the candidates of the larger curvature that touch all three
circles around it. -/
def inscribed (g : Gap α) : List (Circle α) :=
  let k := (descartes g.first.curvature g.second.curvature g.third.curvature).1
  (g.candidates k).filter fun c =>
    g.circles.all fun parent => c.isTangentTo parent Circle.tangencyTolerance

end Gap

/-- A gasket under construction. -/
structure Gasket (α : Type) where
  origin : Point α
  /-- The outermost circle, once there is one. -/
  enclosing : Option (Circle α)
  /-- All circles, in the order they were found. -/
  circles : List (Circle α)
  /-- The gaps that the next generation fills. -/
  frontier : List (Gap α)
  generation : Nat
  deriving DecidableEq, Repr

namespace Gasket

variable {α : Type}

/-- A gasket without circles. -/
def empty (origin : Point α) : Gasket α := ⟨origin, none, [], [], 0⟩

/-- The three circles of a new gasket: one of radius `radius` around the origin, and two of half
that radius inside it. -/
def seed [Scalar α] (origin : Point α) (radius : α) : Gap α where
  first := .ofCurvature origin.x origin.y (-1 / radius)
  second := .ofCurvature (origin.x - radius / 2) origin.y (2 / radius)
  third := .ofCurvature (origin.x + radius / 2) origin.y (2 / radius)

/-- A gasket of three circles with one gap between them. -/
def seeded [Scalar α] (origin : Point α) (radius : α) : Gasket α :=
  let gap := seed origin radius
  ⟨origin, some gap.first, gap.circles, [gap], 0⟩

/-- Starts the gasket afresh inside a circle of radius `radius`. -/
def enclose [Scalar α] (g : Gasket α) (radius : α) : Gasket α := seeded g.origin radius

variable [Analytic α]

/-- Each gap of the frontier with the circles that fill it. -/
def fillings (g : Gasket α) : List (Gap α × List (Circle α)) :=
  g.frontier.map fun gap => (gap, gap.inscribed)

/-- How many circles the next generation adds. -/
def added (g : Gasket α) : Nat := (g.fillings.flatMap (·.2)).length

/-- One generation: every gap is filled, and the gaps around the new circles take its place. -/
def next (g : Gasket α) : Gasket α :=
  let fillings := g.fillings
  { g with
    circles := g.circles ++ fillings.flatMap (·.2)
    frontier := fillings.flatMap fun f => f.2.flatMap f.1.around
    generation := g.generation + 1 }

end Gasket

end Easel
