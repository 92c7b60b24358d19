import Easel.Natives.Diagram
import Easel.Natives.Generators
import Easel.Text.Case

/-!
# The registry of natives

A registry lists classes, each with its constructor and its methods; all names in it differ. Natives
are found by their full name, through an index of the slots where they stand, or within a class by
the name without the class. A name that is not registered may be close to one that is: `suggest?`
finds it.
-/

namespace Easel

/-- A class of objects as scripts see it. -/
structure NativeClass where
  kind : ObjectClass
  constructor : Native
  methods : List Native

namespace NativeClass

/-- The constructor and then the methods. -/
def natives (c : NativeClass) : List Native := c.constructor :: c.methods

/-- What follows the name of the class and a point in the name of a native. -/
def shortName? (c : NativeClass) (f : Native) : Option (List Char) := do
  let rest ← c.kind.scriptName.toList.isPrefixOf? f.name.toList
  ['.'].isPrefixOf? rest

/-- The method of a short name, such as `next` for `Apol.next`. -/
def method? (c : NativeClass) (short : String) : Option Native :=
  c.methods.find? fun m => c.shortName? m == some short.toList

end NativeClass

/-- Where a native stands in a table of classes: the position of its class and, if it is a method,
its own position among the methods of the class. -/
structure NativeSlot where
  owner : Nat
  method : Option Nat := none
  deriving DecidableEq, Repr

namespace NativeSlot

/-- The native that stands in the slot. -/
def native? (slot : NativeSlot) (classes : List NativeClass) : Option Native := do
  let c ← classes[slot.owner]?
  match slot.method with
  | none => some c.constructor
  | some i => c.methods[i]?

end NativeSlot

/-- The slots of natives by their names. The newest entry of a name is the one that counts. -/
abbrev NativeIndex := List (String × NativeSlot)

namespace NativeIndex

/-- Enters the methods of the class at a position, the first of which has this position. -/
def enterMethods (owner : Nat) : Nat → List Native → NativeIndex → NativeIndex
  | _, [], index => index
  | i, m :: methods, index =>
    enterMethods owner (i + 1) methods ((m.name, ⟨owner, some i⟩) :: index)

/-- Enters classes, the first of which has this position: each constructor, then its methods. -/
def enterClasses : Nat → List NativeClass → NativeIndex → NativeIndex
  | _, [], index => index
  | owner, c :: classes, index =>
    enterClasses (owner + 1) classes
      (enterMethods owner 0 c.methods ((c.constructor.name, ⟨owner, none⟩) :: index))

/-- The index of a table of classes. -/
def ofClasses (classes : List NativeClass) : NativeIndex := enterClasses 0 classes []

end NativeIndex

/-- A table of classes with its index. -/
structure Registry where
  classes : List NativeClass
  distinct : ((classes.flatMap NativeClass.natives).map Native.name).Nodup
  index : NativeIndex := .ofClasses classes
  index_eq : index = .ofClasses classes := by rfl

namespace Registry

/-- Every native, class by class. -/
def natives (r : Registry) : List Native := r.classes.flatMap NativeClass.natives

/-- The native of a full name. -/
def get? (r : Registry) (name : String) : Option Native := do
  let slot ← r.index.lookup name
  slot.native? r.classes

/-- The class of a kind of object. -/
def class? (r : Registry) (kind : ObjectClass) : Option NativeClass :=
  r.classes.find? fun c => c.kind == kind

/-- Every full name, sorted. -/
def names (r : Registry) : List String :=
  (r.index.map Prod.fst).mergeSort fun a b => decide (a ≤ b)

/-- The text before the first point, if there is one. -/
def stem? (name : String) : Option String :=
  let cs := name.toList
  if cs.contains '.' then some (String.ofList (cs.takeWhile (· ≠ '.'))) else none

/-- A registered name close to `name`: the least that differs from it in case only, or else the
least that differs in case only from what stands before the first point. -/
def suggest? (r : Registry) (name : String) : Option String :=
  let lower := Text.lower name.toList
  match r.names.find? fun candidate => Text.lower candidate.toList == lower with
  | some candidate => some candidate
  | none => do
    let stem ← stem? name
    r.names.find? fun candidate => Text.alike candidate.toList stem.toList

/-- The native of a full name, or an error with a name close to it. -/
def lookup (r : Registry) (name : String) : Except Error Native :=
  match r.get? name with
  | some f => .ok f
  | none => .error (.unknownCallable name (r.suggest? name))

/-- The signatures of all natives whose names start with `start`, under the names of their
classes. -/
def listing (r : Registry) (start : String) : String :=
  String.join <| r.classes.map fun c =>
    match c.natives.filter fun f => start.toList.isPrefixOf f.name.toList with
    | [] => ""
    | shown =>
      c.kind.name ++ " (" ++ c.kind.scriptName ++ ")\n" ++
        String.join (shown.map fun f =>
          String.join (f.overloads.signatures.map fun s => "  " ++ f.name ++ s.text ++ "\n"))

end Registry

namespace Natives

/-- The classes of the native library. -/
def classes : List NativeClass := [
  ⟨.apollonian, Apol.construct, [Apol.enclosing, Apol.next, Apol.count, Apol.draw]⟩,
  ⟨.sierpinski, Sierp.construct, [Sierp.next, Sierp.count, Sierp.draw]⟩,
  ⟨.hexagons, Hexa.construct, [Hexa.draw]⟩,
  ⟨.point, Point.construct, [Point.get, Point.draw]⟩,
  ⟨.circle, Circle.construct, [Circle.get, Circle.intersect, Circle.draw]⟩]

/-- The native library. -/
def registry : Registry where
  classes := classes
  distinct := by decide

end Natives

end Easel
