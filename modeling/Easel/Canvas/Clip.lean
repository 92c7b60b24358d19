import Easel.Number.Scalar

/-!
# Clipping

The part of a segment inside a box. Each side of the box is a half plane, which leaves of the
parameters from 0 to 1 those of one side of a bound; clipping intersects the four sides.
-/

namespace Easel

/-- A position in pixels. -/
abbrev Position (α : Type) := α × α

/-- A box by its least and greatest coordinates. -/
structure Box (α : Type) where
  left : α
  top : α
  right : α
  bottom : α

namespace Box

variable {α : Type} [Scalar α]

/-- The parameters `t` of `low … high` with `p * t ≤ q`, if there are any. -/
@[inline] def cut (p q : α) (range : α × α) : Option (α × α) :=
  let (low, high) := range
  if p == 0 then if q < 0 then none else some range
  else
    let r := q / p
    if p < 0 then if high < r then none else some (Scalar.larger low r, high)
    else if r < low then none else some (low, Scalar.smaller high r)

/-- The least and greatest parameter for which the segment is in the box. -/
@[inline] def parameters (b : Box α) (start stop : Position α) : Option (α × α) :=
  let dx := stop.1 - start.1
  let dy := stop.2 - start.2
  (cut (-dx) (start.1 - b.left) (0, 1)).bind fun range =>
  (cut dx (b.right - start.1) range).bind fun range =>
  (cut (-dy) (start.2 - b.top) range).bind fun range =>
  cut dy (b.bottom - start.2) range

/-- The point of a segment at a parameter. -/
@[inline] def along (start stop : Position α) (t : α) : Position α :=
  (start.1 + t * (stop.1 - start.1), start.2 + t * (stop.2 - start.2))

/-- The part of the segment inside the box. -/
@[inline] def clip (b : Box α) (start stop : Position α) : Option (Position α × Position α) :=
  (b.parameters start stop).map fun range => (along start stop range.1, along start stop range.2)

end Box

end Easel
