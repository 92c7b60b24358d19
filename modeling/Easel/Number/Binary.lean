import Easel.Number.Scalar

/-!
# Binary floating point

A floating-point number taken apart into sign, significand and exponent, rounding of such a number
to a whole one, and the scalar operations of the two standard widths.

Arithmetic, comparison and square root are the hardware's, rounded to nearest. Rounding to whole
numbers is done here in exact integer arithmetic. `Binary64.hypot` squares its legs in double the
precision, so that neither the squares nor their sum lose digits, overflow or underflow.
-/

namespace Easel

/-- What a floating-point number stands for. A finite one is `± significand · 2 ^ exponent`. -/
inductive Binary where
  | undefined
  | infinite (negative : Bool)
  | finite (negative : Bool) (significand : Nat) (exponent : Int)
  deriving DecidableEq, Repr

namespace Binary

/-- Reads the bit pattern of a format with `e` exponent bits above `f` fraction bits. -/
def ofBits (e f bits : Nat) : Binary :=
  let negative := bits.testBit (e + f)
  let exponent := (bits >>> f) % Nat.pow 2 e
  let fraction := bits % Nat.pow 2 f
  let least : Int := 2 - (Nat.pow 2 (e - 1) : Nat) - f
  if exponent = Nat.pow 2 e - 1 then
    if fraction = 0 then infinite negative else undefined
  else if exponent = 0 then finite negative fraction least
  else finite negative (Nat.pow 2 f + fraction) (least + (exponent - 1))

/-- The significand with its sign. -/
def signed (negative : Bool) (significand : Nat) : Int :=
  if negative then -significand else significand

/-- The greatest whole number not above. -/
def floor : Binary → Int
  | finite s m (.ofNat e) => signed s (m * Nat.pow 2 e)
  | finite s m (.negSucc e) => (signed s m).fdiv (Nat.pow 2 (e + 1) : Nat)
  | _ => 0

/-- The least whole number not below. -/
def ceil : Binary → Int
  | finite s m (.ofNat e) => signed s (m * Nat.pow 2 e)
  | finite s m (.negSucc e) => -(-(signed s m)).fdiv (Nat.pow 2 (e + 1) : Nat)
  | _ => 0

/-- The nearest whole number, a half going away from zero. -/
def round : Binary → Int
  | finite s m (.ofNat e) => signed s (m * Nat.pow 2 e)
  | finite s m (.negSucc e) => signed s ((m + Nat.pow 2 e) / Nat.pow 2 (e + 1))
  | _ => 0

end Binary

/-! ## Double width -/

namespace Binary64

/-- The parts of a double-width number: 11 exponent bits, 52 fraction bits. -/
def parts (x : Float) : Binary := Binary.ofBits 11 52 x.toBits.toNat

/-- The larger operand, passing over an undefined one. -/
@[inline] def larger (a b : Float) : Float :=
  if a.isNaN then b else if b.isNaN then a else if a < b then b else a

/-- The smaller operand, passing over an undefined one. -/
@[inline] def smaller (a b : Float) : Float :=
  if a.isNaN then b else if b.isNaN then a else if b < a then b else a

instance : Scalar Float where
  decidableLT := inferInstance
  decidableLE := inferInstance
  ofInt := Float.ofInt
  abs := Float.abs
  larger := larger
  smaller := smaller
  isFinite := Float.isFinite
  isUndefined := Float.isNaN
  hasMinus x := x.toBits.toNat.testBit 63
  floor x := (parts x).floor
  ceil x := (parts x).ceil
  round x := (parts x).round

/-- A square as the sum of a leading part and the rounding error of that part. -/
def square (x : Float) : Float × Float :=
  let shifted := x * 134217729.0
  let upper := x - shifted + shifted
  let lower := x - upper
  let leading := x * x
  (leading, upper * upper - leading + 2.0 * upper * lower + lower * lower)

/-- The root of the sum of two squares, for legs whose squares stay in range. -/
def hypotInRange (x y : Float) : Float :=
  let (hx, lx) := square x
  let (hy, ly) := square y
  (ly + lx + hy + hx).sqrt

/-- The hypotenuse over the legs `x` and `y`; infinite as soon as one leg is. -/
def hypot (x y : Float) : Float :=
  let (x, y) := (x.abs, y.abs)
  let (x, y) := if x.toBits < y.toBits then (y, x) else (x, y)
  let biased (v : Float) : Nat := (v.toBits >>> 52).toNat
  if biased y = 2047 then y
  else if biased x = 2047 || y == 0.0 then x
  else if biased x > biased y + 64 then x + y
  else
    let up := Float.ofBits 0x6BB0000000000000
    let down := Float.ofBits 0x1430000000000000
    if biased x > 1023 + 510 then up * hypotInRange (x * down) (y * down)
    else if biased y < 1023 - 450 then down * hypotInRange (x * up) (y * up)
    else hypotInRange x y

instance : Analytic Float where
  sqrt := Float.sqrt
  hypot := hypot
  sin := Float.sin
  cos := Float.cos
  atan2 := Float.atan2
  pi := 3.14159265358979323846264338327950288

end Binary64

/-! ## Single width -/

namespace Binary32

/-- The parts of a single-width number: 8 exponent bits, 23 fraction bits. -/
def parts (x : Float32) : Binary := Binary.ofBits 8 23 x.toBits.toNat

instance : Scalar Float32 where
  decidableLT := inferInstance
  decidableLE := inferInstance
  ofInt := Float32.ofInt
  abs := Float32.abs
  larger a b := if a.isNaN then b else if b.isNaN then a else if a < b then b else a
  smaller a b := if a.isNaN then b else if b.isNaN then a else if b < a then b else a
  isFinite := Float32.isFinite
  isUndefined := Float32.isNaN
  hasMinus x := x.toBits.toNat.testBit 31
  floor x := (parts x).floor
  ceil x := (parts x).ceil
  round x := (parts x).round

end Binary32

end Easel
