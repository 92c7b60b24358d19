import Easel.Script.Native

/-!
# What natives share

Reading arguments as objects of one class, and the `draw` method that every class has.
-/

namespace Easel.Natives

/-- The stroke colour of a `draw` that names none. -/
def defaultStroke : Colour := Colour.black

variable (args : Args)

/-- The number at a position. -/
def number (i : Nat) : Action Float := do args.number (← Action.heap) i

/-- The text at a position. -/
def text (i : Nat) : Action String := do args.text (← Action.heap) i

/-- The colour at a position. -/
def colour (i : Nat) : Action Colour := do args.colour (← Action.heap) i

/-- The object reference at a position. -/
def object (i : Nat) : Action ObjectRef := do args.object (← Action.heap) i

/-- The part of an object that `view` finds in objects of class `wanted`. -/
def viewed {α : Type} (wanted : ObjectClass) (view : Object → Option α) (r : ObjectRef) :
    Action α := do
  let o ← Action.object r
  match view o with
  | some a => return a
  | none => Action.fault (.wrongReceiver wanted o.kind)

/-- The gasket that a reference stands for. -/
def gasket (r : ObjectRef) : Action (Gasket Float) :=
  viewed .apollonian (fun | .apollonian g => some g | _ => none) r

/-- The fractal that a reference stands for. -/
def fractal (r : ObjectRef) : Action (Sierpinski Float) :=
  viewed .sierpinski (fun | .sierpinski s => some s | _ => none) r

/-- The point that a reference stands for. -/
def labelledPoint (r : ObjectRef) : Action (LabelledPoint Float) :=
  viewed .point (fun | .point p => some p | _ => none) r

/-- The circle that a reference stands for. -/
def labelledCircle (r : ObjectRef) : Action (LabelledCircle Float) :=
  viewed .circle (fun | .circle c => some c | _ => none) r

/-- Puts the receiver on the canvas and asks for a redraw. -/
def draw : Action Value := do
  let r ← object args 0
  let stroke ← if args.overload = 0 then pure defaultStroke else colour args 1
  Action.modifySession fun s => (s.display r stroke).requestRender
  return .nothing

/-- Changes the receiver and asks for a redraw. -/
def grow (r : ObjectRef) (o : Object) : Action Value := do
  Action.modifyHeap fun h => h.set r o
  Action.modifySession Session.requestRender
  return .nothing

/-- The value of a named field of an object. -/
def field (owner : ObjectClass) (known : List String) (name : String) (value : Option Float) :
    Action Value :=
  match value with
  | some x => return .number x
  | none => throw (.unknownField owner name known)

/-- The overloads of a native; that they differ is decided on the spot. -/
def overloads (signatures : List Signature) (nonempty : signatures ≠ [] := by decide)
    (distinct : (signatures.map Signature.types).Nodup := by decide) : Overloads :=
  ⟨signatures, nonempty, distinct⟩

end Easel.Natives
