import Easel.Decimal.Notation
import Easel.Error
import Easel.Text.Quoted

/-!
# Sketches

A sketch names a canvas and lists calls of natives to make in order. A call's arguments are
literals; one that starts with `$` names what an earlier call was bound to.
-/

namespace Easel

/-- A literal argument. -/
inductive Arg where
  | number (x : Float)
  | colour (c : Colour)
  /-- The value bound to a name by an earlier step. -/
  | binding (name : String)
  | text (s : String)

namespace Arg

/-- The argument that a text stands for: a binding after `$`, a colour after `#` if it is one, and
otherwise the text itself. -/
def ofText (s : String) : Arg :=
  match s.toList with
  | '$' :: name => .binding (String.ofList name)
  | '#' :: _ => match Colour.ofHex s with
    | .ok c => .colour c
    | .error _ => .text s
  | _ => .text s

/-- The argument as it would be written. -/
def print : Arg → String
  | number x => Notation.plain.write x
  | colour c => toString c
  | binding name => "$" ++ name
  | text s => Text.quoted s

end Arg

/-- The size of a canvas in units, and its background as it is written. -/
structure Canvas where
  width : Nat := 400
  height : Nat := 400
  background : String := "#FFFFFF"
  deriving DecidableEq, Repr

namespace Canvas

/-- The background colour. -/
def colour (c : Canvas) : Except Error Colour :=
  match Colour.ofHex c.background with
  | .ok colour => .ok colour
  | .error _ => .error (.parse (.background c.background))

end Canvas

/-- A call of a native. -/
structure Step where
  call : String
  args : List Arg := []
  /-- The name that the last result is bound to. -/
  bind : Option String := none
  /-- How often the call is made. -/
  times : Nat := 1

/-- A sketch. -/
structure Sketch where
  name : String
  canvas : Canvas := {}
  steps : List Step := []

namespace Sketch

/-- How many calls the sketch makes. -/
def callCount (s : Sketch) : Nat := s.steps.foldr (fun step n => step.times + n) 0

end Sketch

end Easel
