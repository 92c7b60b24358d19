import Easel.Colour.Basic
import Easel.Text.Blank
import Easel.Text.Bytes
import Easel.Text.Digit

/-!
# Reading hexadecimal colours

`Colour.ofHex` reads `RGB`, `RRGGBB` and `RRGGBBAA`, with blanks around them and a leading `#`
allowed. The form is chosen by the length in bytes. In the short form each character is a digit; in
the others two bytes at a time are read as a number in base sixteen, which may carry a plus sign.
-/

namespace Easel

/-- Why a text is not a colour. -/
inductive HexFault where
  /-- The text, without the blanks around it, has the wrong length or a character beyond ASCII. -/
  | shape (text : String)
  | digit (c : Char)
  | byte (pair : String)
  /-- A pair of digits would begin or end inside a character. -/
  | insideCharacter
  deriving DecidableEq, Repr

namespace Colour

/-- A digit that stands for a whole byte: it is doubled. -/
def readDoubled (c : Char) : Except HexFault UInt8 :=
  match Text.digit? 16 c with
  | some d => .ok (UInt8.ofNat (16 * d + d))
  | none => .error (.digit c)

/-- The byte of the digit at a position, zero if there is none. -/
def readDigit (digits : List Char) (i : Nat) : Except HexFault UInt8 :=
  match digits[i]? with
  | some c => readDoubled c
  | none => .ok 0

/-- The byte that a number in base sixteen spells; a larger number is none. -/
def byte? (pair : List Char) : Option UInt8 :=
  match Text.unsigned? 16 pair with
  | some n => if n < UInt8.size then some (UInt8.ofNat n) else none
  | none => none

/-- The byte that is spelled from an offset on. -/
def readPair (digits : List Char) (start : Nat) : Except HexFault UInt8 :=
  match Text.slice? digits start (start + 2) with
  | some pair => match byte? pair with
    | some b => .ok b
    | none => .error (.byte (String.ofList pair))
  | none => .error .insideCharacter

/-- The colour of the digits after the optional `#`; `text` is what a wrong shape is blamed on. -/
def ofDigits (text : List Char) (digits : List Char) : Except HexFault Colour :=
  if digits.all Text.isAscii then
    match Text.byteLength digits with
    | 3 => return ⟨← readDigit digits 0, ← readDigit digits 1, ← readDigit digits 2, 255⟩
    | 6 => return ⟨← readPair digits 0, ← readPair digits 2, ← readPair digits 4, 255⟩
    | 8 =>
      return ⟨← readPair digits 0, ← readPair digits 2, ← readPair digits 4, ← readPair digits 6⟩
    | _ => .error (.shape (String.ofList text))
  else .error (.shape (String.ofList text))

/-- The text without one leading `#`. -/
def dropHash : List Char → List Char
  | '#' :: s => s
  | s => s

/-- Reads a colour. -/
def ofHex (s : String) : Except HexFault Colour :=
  let text := Text.trim s.toList
  ofDigits text (dropHash text)

end Colour

end Easel
