import Easel.Decimal.Notation
import Easel.Decimal.Read
import Easel.Number.Word
import Easel.Text.Quoted
import Easel.Yaml.Token.Scalar

/-!
# Plain scalars

What a plain scalar means. Nothing, truth values, whole numbers and floating-point numbers have
fixed spellings, and every other plain scalar is text.

Whole numbers are kept apart from floating-point numbers. A whole number that 64 bits cannot hold
and 128 bits can is no value at all; one that is larger still is read as a floating-point number.
-/

namespace Easel.Yaml

/-- The value of a scalar. -/
inductive Atom where
  | null
  | bool (b : Bool)
  | int (n : Int)
  | float (x : Float)
  | text (s : String)
  deriving Inhabited

namespace Atom

/-! ## Spellings -/

def isNull (s : String) : Bool := ["null", "Null", "NULL", "~"].contains s

def bool? (s : String) : Option Bool :=
  if ["true", "True", "TRUE"].contains s then some true
  else if ["false", "False", "FALSE"].contains s then some false
  else none

/-- The text after one sign. -/
def afterSign : List Char → List Char
  | '+' :: cs => cs
  | '-' :: cs => cs
  | cs => cs

/-- Whether a text is a zero followed by more digits; such a text spells no number. -/
def isPadded (cs : List Char) : Bool :=
  match afterSign cs with
  | '0' :: c :: cs => (c :: cs).all Char.isDigit
  | _ => false

/-- The number that a text without sign spells: digits after `0x`, `0o` or `0b`, or decimal
digits. -/
def magnitude? (cs : List Char) : Option Nat :=
  match cs with
  | '0' :: 'x' :: digits => Text.natural? 16 digits
  | '0' :: 'o' :: digits => Text.natural? 8 digits
  | '0' :: 'b' :: digits => Text.natural? 2 digits
  | digits => if isPadded digits then none else Text.natural? 10 digits

/-- The whole number that a text spells, however large. -/
def int? (cs : List Char) : Option Int :=
  match cs with
  | '+' :: cs => (magnitude? cs).map Int.ofNat
  | '-' :: cs => (magnitude? cs).map fun n => -(Int.ofNat n)
  | cs => (magnitude? cs).map Int.ofNat

/-- The finite number that a text without plus sign spells. -/
def finite? (cs : List Char) : Option Float := do
  let x ← match cs with
    | '-' :: cs => (Decimal.ofText? cs).map fun d => -d.toFloat
    | cs => (Decimal.ofText? cs).map Decimal.toFloat
  if x.isFinite then some x else none

def infinite : Float := 1.0 / 0.0

def undefined : Float := 0.0 / 0.0

/-- The floating-point number that a text spells. -/
def float? (s : String) : Option Float :=
  if [".inf", ".Inf", ".INF", "+.inf", "+.Inf", "+.INF"].contains s then some infinite
  else if ["-.inf", "-.Inf", "-.INF"].contains s then some (-infinite)
  else if [".nan", ".NaN", ".NAN"].contains s then some undefined
  else match s.toList with
    | '+' :: '-' :: _ => none
    | '+' :: cs => finite? cs
    | cs => finite? cs

/-! ## Values -/

/-- The meaning of a text as a whole number: none if it has another meaning. The inner option is
empty for numbers that are no value. -/
def wholeNumber? (s : String) : Option (Option Atom) :=
  match int? s.toList with
  | some n =>
    if Word.holds 64 n then some (some (.int n)) else if Word.holds 128 n then some none else none
  | none => none

/-- The meaning of a plain scalar, unless it is no value. -/
def ofPlain? (s : String) : Option Atom :=
  if s.isEmpty || isNull s then some .null
  else match bool? s with
    | some b => some (.bool b)
    | none => match wholeNumber? s with
      | some meaning => meaning
      | none => match if isPadded s.toList then none else float? s with
        | some x => some (.float x)
        | none => some (.text s)

/-- The tags of the standard types. -/
def standardTag (name : String) : String := "tag:yaml.org,2002:" ++ name

/-- The meaning of a scalar. A tag of a standard type asks for that type; any other tag makes the
scalar a text, if it is not a local one. -/
def ofScalar? (tag : Option String) (style : ScalarStyle) (s : String) : Option Atom :=
  match tag with
  | none => if style = .plain then ofPlain? s else some (.text s)
  | some tag =>
    if tag = standardTag "bool" then (bool? s).map .bool
    else if tag = standardTag "int" then (wholeNumber? s).join
    else if tag = standardTag "float" then (float? s).map .float
    else if tag = standardTag "null" then if isNull s then some .null else none
    else if tag.startsWith "!" && style = .plain then ofPlain? s
    else some (.text s)

/-- Whether two values are the same. Undefined numbers are, and so are the two zeros. -/
def same : Atom → Atom → Bool
  | null, null => true
  | bool a, bool b => a == b
  | int m, int n => m == n
  | float x, float y => (x.isNaN && y.isNaN) || x == y
  | text s, text t => s == t
  | _, _ => false

/-- The value with its type. -/
def print : Atom → String
  | null => "Null"
  | bool b => s!"Bool({b})"
  | int n => s!"Number({n})"
  | float x => "Number(" ++ Notation.document.write x ++ ")"
  | text s => "String(" ++ Text.quoted s ++ ")"

/-- The value as a key, without its type. -/
def printKey : Atom → String
  | null => "Null"
  | bool b => s!"{b}"
  | int n => s!"{n}"
  | float x => Notation.document.write x
  | text s => Text.quoted s

end Atom

end Easel.Yaml
