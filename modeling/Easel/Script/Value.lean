import Easel.Decimal.Notation
import Easel.Script.Object
import Easel.Text.Quoted
import Easel.Colour.Basic

/-!
# Script values

What a script computes with, and what lies on the evaluation stack.
-/

namespace Easel

/-- Which native a placeholder stands for. Natives of one name are told apart by a number. -/
structure NativeRef where
  name : String
  serial : Nat := 0
  deriving DecidableEq, Inhabited

/-- A name alone stands for the first native of this name. -/
instance : Coe String NativeRef := ⟨fun name => ⟨name, 0⟩⟩

/-- A script value. -/
inductive Value where
  | nothing
  | number (x : Float)
  | text (s : String)
  | colour (c : Colour)
  | list (items : List Value)
  | object (ref : ObjectRef)
  /-- The placeholder of a native, which a call puts under its arguments. -/
  | native (ref : NativeRef)
  deriving Inhabited

namespace Value

/-- The type of a value; a reference to no object has type `nothing`. -/
def type (h : Heap) : Value → ValueType
  | nothing => .nothing
  | number _ => .number
  | text _ => .text
  | colour _ => .colour
  | list _ => .list
  | object r => match h.get? r with
    | some o => .object o.kind
    | none => .nothing
  | native _ => .native

mutual

/-- The value as error messages show it. -/
def render (h : Heap) : Value → String
  | nothing => "Nothing"
  | number x => "Number(" ++ Notation.plain.write x ++ ")"
  | text s => "Text(" ++ Text.quoted s ++ ")"
  | colour c => "Colour(" ++ toString c ++ ")"
  | list items => "[" ++ ", ".intercalate (renderAll h items) ++ "]"
  | object r => "Object(" ++ (match h.get? r with
    | some o => o.kind.name
    | none => "") ++ ")"
  | native ref => "Native(" ++ ref.name ++ ")"

def renderAll (h : Heap) : List Value → List String
  | [] => []
  | v :: vs => render h v :: renderAll h vs

end

end Value

end Easel
