import Easel.Geometry.Point

/-!
# Hexagonal tilings

A patch of hexagons with a corner at the top, in rings around a cell in the middle. Cells are
counted along two axes: `q` to the right and `r` down and half to the right.
-/

namespace Easel

/-- A patch of hexagons. -/
structure Hexagons (α : Type) where
  center : Point α
  /-- From the middle of a cell to its corners. -/
  size : α
  /-- Rings around the cell in the middle. -/
  rings : Nat
  deriving DecidableEq, Repr

namespace Hexagons

/-- The whole numbers from `low` to `high`. -/
def interval (low high : Int) : List Int :=
  (List.range (high + 1 - low).toNat).map fun (i : Nat) => low + i

/-- The most rings a patch has. -/
def maxRings : Nat := 64

/-- The axial positions of the cells of a patch of `n` rings, by `q` and then by `r`. -/
def cells (n : Nat) : List (Int × Int) :=
  (interval (-n) n).flatMap fun q =>
    (interval (max (-n) (-q - n)) (min n (-q + n))).map fun r => (q, r)

/-- The number of cells of a patch of `n` rings. -/
def cellCount (n : Nat) : Nat := 1 + 3 * n * (n + 1)

variable {α : Type}

/-- A patch of the rings asked for, but no more than `maxRings`. -/
def ofRings (center : Point α) (size : α) (rings : Nat) : Hexagons α :=
  ⟨center, size, min rings maxRings⟩

variable [Analytic α]

/-- The middle of the cell at an axial position. -/
def cellCenter (h : Hexagons α) (cell : Int × Int) : Point α :=
  let width := h.size * Analytic.sqrt 3
  let x := width * (Scalar.ofInt cell.1 + Scalar.ofInt cell.2 / 2)
  let y := h.size * 1.5 * Scalar.ofInt cell.2
  h.center.offset x y

/-- The middles of all cells. -/
def cellCenters (h : Hexagons α) : List (Point α) := (cells h.rings).map h.cellCenter

/-- The corners of a cell, relative to its middle. -/
def cellCorners (h : Hexagons α) : List (Point α) :=
  (List.range 6).map fun (i : Nat) =>
    let degrees : α := 60 * Scalar.ofInt i - 30
    let angle := degrees * (Analytic.pi / 180)
    ⟨h.size * Analytic.cos angle, h.size * Analytic.sin angle⟩

end Hexagons

end Easel
