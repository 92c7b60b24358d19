import Easel.Decimal.Shortest

/-!
# Written forms of numbers

`Notation` says how a number is written once its digits are chosen: where positional notation
ends, whether a whole number keeps a fraction part, and the words for numbers that have no digits.
The three notations in use differ only in such decisions.
-/

namespace Easel

/-- The decisions that turn the digits of a number into text. -/
structure Notation where
  /-- Which way a number exactly between two shortest decimals goes. -/
  tie : Tie
  /-- The leading digit's exponents for which no exponent is written; all of them if absent. -/
  positional : Option (Int × Int)
  /-- Whole numbers end in `.0` where no exponent is written. -/
  keepsPoint : Bool
  /-- A positive exponent has a sign. -/
  signsExponent : Bool
  undefined : String
  infinite : String
  negativeInfinite : String

namespace Notation

/-- The plainest notation: all digits, no exponent, no empty fraction part. -/
def plain : Notation where
  tie := .up
  positional := none
  keepsPoint := false
  signsExponent := false
  undefined := "NaN"
  infinite := "inf"
  negativeInfinite := "-inf"

/-- All digits, no exponent, and a fraction part that tells the number from a whole one. -/
def pointed : Notation := { plain with keepsPoint := true }

/-- Numbers in data interchange: a number without digits is `null`. -/
def interchange : Notation where
  tie := .toEven
  positional := some (-5, 15)
  keepsPoint := true
  signsExponent := true
  undefined := "null"
  infinite := "null"
  negativeInfinite := "null"

/-- Numbers in documents. -/
def document : Notation where
  tie := .toEven
  positional := some (-5, 15)
  keepsPoint := true
  signsExponent := false
  undefined := ".nan"
  infinite := ".inf"
  negativeInfinite := "-.inf"

/-- Digits without an exponent: the point stands `k` places from their right end. -/
def writePositional (n : Notation) (digits : List Char) (k : Int) : List Char :=
  if k ≥ 0 then
    digits ++ List.replicate k.toNat '0' ++ (if n.keepsPoint then ['.', '0'] else [])
  else
    let places := (-k).toNat
    let padded := List.replicate (places + 1 - digits.length) '0' ++ digits
    padded.take (padded.length - places) ++ '.' :: padded.drop (padded.length - places)

/-- One digit before the point, and the exponent of that digit. -/
def writeExponent (n : Notation) (digits : List Char) (exponent : Int) : List Char :=
  let mantissa := match digits with
    | [] => []
    | [d] => [d]
    | d :: ds => d :: '.' :: ds
  let sign := if exponent < 0 then ['-'] else if n.signsExponent then ['+'] else []
  mantissa ++ 'e' :: sign ++ Nat.toDigits 10 exponent.natAbs

/-- The text of a positive decimal or zero. -/
def writeDecimal (n : Notation) (d : Decimal) : List Char :=
  let digits := Nat.toDigits 10 d.digits
  let leading := d.exponent + digits.length - 1
  match n.positional with
  | none => n.writePositional digits d.exponent
  | some (least, most) =>
    if d.digits = 0 ∨ (least ≤ leading ∧ leading ≤ most) then n.writePositional digits d.exponent
    else n.writeExponent digits leading

/-- The text of a number: its shortest digits in this notation. -/
def write (n : Notation) (x : Float) : String :=
  match Binary64.parts x with
  | .undefined => n.undefined
  | .infinite negative => if negative then n.negativeInfinite else n.infinite
  | .finite negative m q =>
    let text := n.writeDecimal (Decimal.shortest n.tie m q)
    String.ofList (if negative then '-' :: text else text)

end Notation

end Easel
