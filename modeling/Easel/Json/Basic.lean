import Easel.Decimal.Notation

/-!
# JSON

Values and their text, on one line or indented. Whole numbers and floating-point numbers are kept
apart, because a floating-point number is always written with a point or an exponent.
-/

namespace Easel

inductive Json where
  | null
  | bool (b : Bool)
  | int (n : Int)
  | float (x : Float)
  | string (s : String)
  | array (items : List Json)
  /-- Members in the order they are written. -/
  | object (members : List (String × Json))
  deriving Inhabited

namespace Json

/-- A character as it stands in a string. -/
def escape (c : Char) : List Char :=
  match c with
  | '"' => ['\\', '"']
  | '\\' => ['\\', '\\']
  | '\n' => ['\\', 'n']
  | '\r' => ['\\', 'r']
  | '\t' => ['\\', 't']
  | '\x08' => ['\\', 'b']
  | '\x0c' => ['\\', 'f']
  | c =>
    if c.toNat < 32 then
      let digits := Nat.toDigits 16 c.toNat
      '\\' :: 'u' :: (List.replicate (4 - digits.length) '0' ++ digits)
    else [c]

/-- A string with its quotes. -/
def quote (s : String) : String :=
  String.ofList ('"' :: (s.toList.flatMap escape ++ ['"']))

/-- Items between brackets; each starts on a line of its own, `indent` deep, if there is one. -/
def bracket (opening closing : String) (indent : Option Nat) (items : List String) : String :=
  match items with
  | [] => opening ++ closing
  | items => match indent with
    | none => opening ++ ",".intercalate items ++ closing
    | some n =>
      let line (k : Nat) := "\n" ++ String.ofList (List.replicate (2 * k) ' ')
      opening ++ line (n + 1) ++ ("," ++ line (n + 1)).intercalate items ++ line n ++ closing

mutual

/-- The text of a value that starts `indent` deep, or of one on a single line. -/
def write (indent : Option Nat) : Json → String
  | null => "null"
  | bool b => if b then "true" else "false"
  | int n => toString n
  | float x => Notation.interchange.write x
  | string s => quote s
  | array items => bracket "[" "]" indent (writeItems (indent.map (· + 1)) items)
  | object members => bracket "\x7b" "\x7d" indent (writeMembers (indent.map (· + 1)) members)

def writeItems (indent : Option Nat) : List Json → List String
  | [] => []
  | v :: vs => write indent v :: writeItems indent vs

def writeMembers (indent : Option Nat) : List (String × Json) → List String
  | [] => []
  | (k, v) :: ms =>
    (quote k ++ (if indent.isSome then ": " else ":") ++ write indent v) :: writeMembers indent ms

end

/-- The text on one line, without blanks. -/
def compact (j : Json) : String := j.write none

/-- The text with every item and member on a line of its own. -/
def pretty (j : Json) : String := j.write (some 0)

end Json

end Easel
