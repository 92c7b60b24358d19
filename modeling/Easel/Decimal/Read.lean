import Easel.Decimal.Shortest
import Easel.Text.Digit

/-!
# Reading decimals

Decimal numbers as text: digits with a point among them maybe, and an exponent maybe.
-/

namespace Easel.Decimal

open Text (natural?)

/-- Reads an exponent after its letter. -/
def exponent? : List Char → Option Int
  | '-' :: cs => (natural? 10 cs).map fun n => -Int.ofNat n
  | '+' :: cs => (natural? 10 cs).map Int.ofNat
  | cs => (natural? 10 cs).map Int.ofNat

/-- Reads a decimal without sign. There must be a digit before or after the point, and one in the
exponent. -/
def ofText? (cs : List Char) : Option Decimal := do
  let whole := cs.takeWhile Char.isDigit
  let cs := cs.dropWhile Char.isDigit
  let (places, cs) := match cs with
    | '.' :: cs => (cs.takeWhile Char.isDigit, cs.dropWhile Char.isDigit)
    | cs => ([], cs)
  let digits ← natural? 10 (whole ++ places)
  let exponent ← match cs with
    | [] => some 0
    | e :: cs => if e = 'e' || e = 'E' then exponent? cs else none
  return ⟨digits, exponent - places.length⟩

end Easel.Decimal
