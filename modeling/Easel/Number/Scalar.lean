/-!
# Scalars

Coordinates, radii and colour channels are computed over an abstract scalar. Drawing runs the
definitions on binary floating point; reasoning may run the same definitions on exact numbers.

`Scalar` has the rational operations and rounding to integers. `Analytic` adds the elementary
functions, which only circles, triangles and arcs need.
-/

namespace Easel

/-- Numbers with the four operations, comparison, and rounding to whole numbers. -/
class Scalar (α : Type) extends Add α, Sub α, Mul α, Div α, Neg α, LT α, LE α, BEq α,
    OfScientific α where
  decidableLT : DecidableLT α
  decidableLE : DecidableLE α
  /-- The scalar nearest to a whole number. -/
  ofInt : Int → α
  /-- Magnitude. -/
  abs : α → α
  /-- The larger operand; one that is not a number is passed over. -/
  larger : α → α → α
  /-- The smaller operand; one that is not a number is passed over. -/
  smaller : α → α → α
  /-- Neither infinite nor undefined. -/
  isFinite : α → Bool
  /-- The result of an undefined operation, such as `0 / 0`. -/
  isUndefined : α → Bool
  /-- Written with a minus sign, which a zero may have too. -/
  hasMinus : α → Bool
  /-- The greatest whole number not above; zero if there is none. -/
  floor : α → Int
  /-- The least whole number not below; zero if there is none. -/
  ceil : α → Int
  /-- The nearest whole number, a half going away from zero; zero if there is none. -/
  round : α → Int

namespace Scalar

variable {α : Type} [Scalar α]

instance : DecidableLT α := Scalar.decidableLT
instance : DecidableLE α := Scalar.decidableLE

instance (priority := low) (n : Nat) : OfNat α n := ⟨Scalar.ofInt (Int.ofNat n)⟩

/-- Moves `x` into the range from `lo` to `hi`; an undefined `x` stays. -/
@[inline] def clamp (lo hi x : α) : α :=
  if x < lo then lo else if hi < x then hi else x

end Scalar

/-- Scalars with square roots and the trigonometric functions, angles in radians. -/
class Analytic (α : Type) extends Scalar α where
  sqrt : α → α
  /-- The length of the hypotenuse over two legs. -/
  hypot : α → α → α
  sin : α → α
  cos : α → α
  /-- The angle of the direction `(x, y)`, given as `atan2 y x`. -/
  atan2 : α → α → α
  /-- Half a turn. -/
  pi : α

namespace Analytic

variable {α : Type} [Analytic α]

/-- A full turn. -/
@[inline] def tau : α := 2 * (pi : α)

end Analytic

end Easel
