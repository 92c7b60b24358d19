/-!
# Types of script values

The types are a closed set: a few primitives, and one type for each class of object.
-/

namespace Easel

/-- The classes of objects that scripts make. -/
inductive ObjectClass where
  | apollonian
  | sierpinski
  | hexagons
  | point
  | circle
  deriving DecidableEq, Repr

namespace ObjectClass

/-- The class as it is written in types. -/
def name : ObjectClass → String
  | apollonian => "Apollonian"
  | sierpinski => "Sierpinski"
  | hexagons => "Hexagons"
  | point => "Point"
  | circle => "Circle"

/-- The name of the constructor, which also starts the name of every method. -/
def scriptName : ObjectClass → String
  | apollonian => "Apol"
  | sierpinski => "Sierp"
  | hexagons => "Hexa"
  | point => "Point"
  | circle => "Circle"

instance : ToString ObjectClass := ⟨name⟩

end ObjectClass

/-- The type of a value, a parameter or a result. -/
inductive ValueType where
  | number
  | text
  | colour
  | list
  /-- The type of calls made for their effect alone. -/
  | nothing
  /-- The type of the placeholder that a call puts under its arguments. -/
  | native
  | object (c : ObjectClass)
  deriving DecidableEq, Repr

namespace ValueType

def name : ValueType → String
  | number => "Number"
  | text => "Text"
  | colour => "Colour"
  | list => "List"
  | nothing => "Nothing"
  | native => "Native"
  | object c => c.name

instance : ToString ValueType := ⟨name⟩

/-- The types of an argument list, as call sites show them. -/
def listing (types : List ValueType) : String := ", ".intercalate (types.map name)

end ValueType

end Easel
