import Easel.Canvas.Clip

/-!
# Paths

A path is a list of parts, each a list of points that may be joined back to its start. It is filled
by the even-odd rule: a row of pixels crosses the edges of the path, and the inside lies between the
first and second crossing, the third and fourth, and so on.
-/

namespace Easel

/-- A connected part of a path. -/
structure Subpath (α : Type) where
  points : Array (Position α) := #[]
  closed : Bool := false

namespace Subpath

variable {α : Type}

/-- The segments that a stroke follows. -/
def segments (s : Subpath α) : List (Position α × Position α) :=
  let points := s.points.toList
  let open' := points.zip points.tail
  if s.closed && decide (2 < points.length) then
    match points.head?, points.getLast? with
    | some first, some last => open' ++ [(last, first)]
    | _, _ => open'
  else open'

/-- The edges of the part with its last point joined to its first; none below two points. -/
def edges (s : Subpath α) : List (Position α × Position α) :=
  match s.points.toList with
  | first :: second :: rest =>
    let points := first :: second :: rest
    points.zip (points.tail ++ [first])
  | _ => []

end Subpath

/-- A path under construction, its parts in order. -/
abbrev Path (α : Type) := Array (Subpath α)

namespace Path

variable {α : Type}

/-- Starts a new part. -/
def moveTo (path : Path α) (p : Position α) : Path α := path.push { points := #[p] }

/-- Adds points to the last part; a closed one is left and a new part is started. -/
def extend (path : Path α) (points : Array (Position α)) : Path α :=
  match path.back? with
  | some last =>
    if last.closed then path.push { points }
    else path.modify (path.size - 1) fun s => { s with points := s.points ++ points }
  | none => path.push { points }

/-- Joins the last part back to its start. -/
def close (path : Path α) : Path α :=
  path.modify (path.size - 1) fun s => { s with closed := true }

def segments (path : Path α) : List (Position α × Position α) :=
  path.toList.flatMap Subpath.segments

def edges (path : Path α) : List (Position α × Position α) := path.toList.flatMap Subpath.edges

variable [Scalar α]

/-- Whether an edge crosses the height `y`; of its two ends the upper one counts, the lower not. -/
@[inline] def crosses (y : α) (e : Position α × Position α) : Bool :=
  (decide (e.1.2 ≤ y) && decide (y < e.2.2)) || (decide (e.2.2 ≤ y) && decide (y < e.1.2))

/-- Where an edge crosses the height `y`. -/
@[inline] def crossing (y : α) (e : Position α × Position α) : α :=
  e.1.1 + (y - e.1.2) * (e.2.1 - e.1.1) / (e.2.2 - e.1.2)

/-- Where the edges cross the height `y`, from left to right. -/
@[specialize] def crossings (edges : List (Position α × Position α)) (y : α) : List α :=
  ((edges.filter (crosses y)).map (crossing y) |>.filter Scalar.isFinite).mergeSort
    fun a b => decide (a ≤ b)

/-- The elements in twos; a last single one is left out. -/
def pairs {β : Type} : List β → List (β × β)
  | a :: b :: rest => (a, b) :: pairs rest
  | _ => []

/-- The columns of a row of `width` pixels whose middles lie between two crossings, both included:
the first one and how many follow from there. -/
@[inline] def columns (width : Nat) (between : α × α) : Int × Nat :=
  let first := max (Scalar.ceil (between.1 - 0.5)) 0
  let last := min (Scalar.floor (between.2 - 0.5)) (width - 1)
  (first, (last + 1 - first).toNat)

end Path

end Easel
