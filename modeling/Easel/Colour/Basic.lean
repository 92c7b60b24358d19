/-!
# Colours

A colour has three channels and an opacity, one byte each. It is written `#RRGGBB`, or `#RRGGBBAA`
unless it is opaque.
-/

namespace Easel

/-- A colour with straight (not premultiplied) opacity. -/
structure Colour where
  red : UInt8
  green : UInt8
  blue : UInt8
  alpha : UInt8 := 255
  deriving DecidableEq, Repr, Inhabited

namespace Colour

def black : Colour := ⟨0, 0, 0, 255⟩
def white : Colour := ⟨255, 255, 255, 255⟩
def transparent : Colour := ⟨0, 0, 0, 0⟩

/-- The four bytes in the order red, green, blue, alpha. -/
def bytes (c : Colour) : List UInt8 := [c.red, c.green, c.blue, c.alpha]

/-- The upper-case hexadecimal digit of a number below 16. -/
def hexDigit (n : Nat) : Char :=
  if n < 10 then Char.ofNat ('0'.toNat + n) else Char.ofNat ('A'.toNat + (n - 10))

/-- A byte as two hexadecimal digits. -/
def hexByte (b : UInt8) : List Char := [hexDigit (b.toNat / 16), hexDigit (b.toNat % 16)]

/-- The characters of the written form. -/
def print (c : Colour) : List Char :=
  '#' :: (hexByte c.red ++ hexByte c.green ++ hexByte c.blue ++
    if c.alpha = 255 then [] else hexByte c.alpha)

instance : ToString Colour := ⟨fun c => String.ofList c.print⟩

end Colour

end Easel
