import Easel.Decimal.Read
import Easel.Json.Basic
import Easel.Number.Word

/-!
# Reading JSON

A number is whole if it has neither point nor exponent, and unless it is `-0` or does not fit into
64 bits. A character beyond 16 bits may be escaped as two surrogates.
-/

namespace Easel.Json

open Text (natural?)

/-- The text without the blanks at its start. -/
def skipBlanks (cs : List Char) : List Char :=
  cs.dropWhile fun c => c = ' ' || c = '\t' || c = '\n' || c = '\r'

/-! ## Strings -/

/-- The character of an escape that is named by one character. -/
def namedEscape? : Char → Option Char
  | '"' => some '"'
  | '\\' => some '\\'
  | '/' => some '/'
  | 'b' => some '\x08'
  | 'f' => some '\x0c'
  | 'n' => some '\n'
  | 'r' => some '\r'
  | 't' => some '\t'
  | _ => none

/-- The number of four hexadecimal digits. -/
def unit? (cs : List Char) : Option Nat :=
  if cs.length < 4 then none else natural? 16 (cs.take 4)

/-- The character of a code point. -/
def char? (n : Nat) : Option Char :=
  if h : n.isValidChar then some (Char.ofNatAux n h) else none

/-- Reads an escape by code point after its `u`. -/
def readCodePoint (cs : List Char) : Option (Char × List Char) := do
  let first ← unit? cs
  let cs := cs.drop 4
  if 0xD800 ≤ first && first < 0xDC00 then
    match cs with
    | '\\' :: 'u' :: cs =>
      let second ← unit? cs
      if 0xDC00 ≤ second && second < 0xE000 then
        return (← char? (0x10000 + (first - 0xD800) * 0x400 + (second - 0xDC00)), cs.drop 4)
      else none
    | _ => none
  else return (← char? first, cs)

/-- Reads a string after its first quote; `out` holds its characters so far, the last one first. -/
def readString : Nat → List Char → List Char → Option (String × List Char)
  | 0, _, _ => none
  | fuel + 1, out, cs =>
    match cs with
    | '"' :: cs => some (String.ofList out.reverse, cs)
    | '\\' :: 'u' :: cs => do
      let (c, cs) ← readCodePoint cs
      readString fuel (c :: out) cs
    | '\\' :: x :: cs => do readString fuel ((← namedEscape? x) :: out) cs
    | c :: cs => if c.toNat < 32 then none else readString fuel (c :: out) cs
    | [] => none

/-! ## Numbers -/

/-- The number that a text without sign spells, taken negative if `negative`. -/
def number? (negative : Bool) (cs : List Char) : Option Json :=
  let float : Option Json := (Decimal.ofText? cs).map fun d =>
    .float (if negative then -d.toFloat else d.toFloat)
  match natural? 10 cs with
  | none => float
  | some n =>
    let n : Int := if negative then -n else n
    if (negative && n = 0) || !Word.holds 64 n then float else some (.int n)

/-- Reads a number. -/
def readNumber (cs : List Char) : Option (Json × List Char) := do
  let isPart (c : Char) : Bool := c.isDigit || ['+', '-', '.', 'e', 'E'].contains c
  let j ← match cs.takeWhile isPart with
    | '-' :: digits => number? true digits
    | digits => number? false digits
  return (j, cs.dropWhile isPart)

/-! ## Values -/

mutual

/-- Reads a value. -/
def readValue : Nat → List Char → Option (Json × List Char)
  | 0, _ => none
  | fuel + 1, cs =>
    match skipBlanks cs with
    | '"' :: cs => do
      let (s, cs) ← readString (cs.length + 1) [] cs
      return (.string s, cs)
    | '[' :: cs => match skipBlanks cs with
      | ']' :: cs => some (.array [], cs)
      | cs => readItems fuel [] cs
    | '\x7b' :: cs => match skipBlanks cs with
      | '\x7d' :: cs => some (.object [], cs)
      | cs => readMembers fuel [] cs
    | 't' :: 'r' :: 'u' :: 'e' :: cs => some (.bool true, cs)
    | 'f' :: 'a' :: 'l' :: 's' :: 'e' :: cs => some (.bool false, cs)
    | 'n' :: 'u' :: 'l' :: 'l' :: cs => some (.null, cs)
    | cs => readNumber cs

/-- Reads the items of an array from one on; `out` holds those before, the last one first. -/
def readItems : Nat → List Json → List Char → Option (Json × List Char)
  | 0, _, _ => none
  | fuel + 1, out, cs => do
    let (v, cs) ← readValue fuel cs
    match skipBlanks cs with
    | ',' :: cs => readItems fuel (v :: out) cs
    | ']' :: cs => some (.array (v :: out).reverse, cs)
    | _ => none

/-- Reads the members of an object from one on; `out` holds those before, the last one first. -/
def readMembers : Nat → List (String × Json) → List Char → Option (Json × List Char)
  | 0, _, _ => none
  | fuel + 1, out, cs =>
    match skipBlanks cs with
    | '"' :: cs => do
      let (k, cs) ← readString (cs.length + 1) [] cs
      match skipBlanks cs with
      | ':' :: cs =>
        let (v, cs) ← readValue fuel cs
        match skipBlanks cs with
        | ',' :: cs => readMembers fuel ((k, v) :: out) cs
        | '\x7d' :: cs => some (.object ((k, v) :: out).reverse, cs)
        | _ => none
      | _ => none
    | _ => none

end

/-- The value that a text spells. -/
def ofText? (text : String) : Option Json := do
  let cs := text.toList
  let (j, rest) ← readValue (cs.length + 1) cs
  if (skipBlanks rest).isEmpty then some j else none

end Easel.Json
