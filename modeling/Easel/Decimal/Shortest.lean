import Easel.Number.Binary

/-!
# The shortest decimal that reads back

A binary floating-point number is the reading of every decimal in an interval around it.
`Decimal.shortest` gives the decimal of fewest digits in that interval, and of those the one
nearest to the number. It tries the grids of 1, 2, … 17 digits in turn, and on each grid the two
neighbours of the number: a grid that meets the interval meets it at one of them.

`Decimal.rounded` gives the decimal with a fixed number of digits instead.
-/

namespace Easel

/-- The decimal number `digits · 10 ^ exponent`. -/
structure Decimal where
  digits : Nat
  exponent : Int
  deriving DecidableEq, Repr

/-- Which way a number exactly between two decimals goes. -/
inductive Tie where
  | toEven
  | up
  deriving DecidableEq, Repr

namespace Decimal

/-- The number of decimal digits of a natural number; zero has none. -/
def width (n : Nat) : Nat := if n = 0 then 0 else (Nat.toDigits 10 n).length

/-- Drops trailing zeros from the digits, at most `fuel` of them. -/
def trimZeros : Nat → Decimal → Decimal
  | 0, d => d
  | fuel + 1, d =>
    if d.digits ≠ 0 ∧ d.digits % 10 = 0 then trimZeros fuel ⟨d.digits / 10, d.exponent + 1⟩ else d

/-- A positive rational number `num / den`. -/
structure Ratio where
  num : Nat
  den : Nat

/-- `m · 2 ^ q` as a ratio of whole numbers. -/
def Ratio.ofBinary (m : Nat) (q : Int) : Ratio :=
  if q ≥ 0 then ⟨m * Nat.pow 2 q.toNat, 1⟩ else ⟨m, Nat.pow 2 (-q).toNat⟩

/-- The ratio divided by `10 ^ k`. -/
def Ratio.scaled (r : Ratio) (k : Int) : Ratio :=
  if k ≥ 0 then ⟨r.num, r.den * Nat.pow 10 k.toNat⟩
  else ⟨r.num * Nat.pow 10 (-k).toNat, r.den⟩

/-- The exponent `k` with `10 ^ k ≤ r < 10 ^ (k + 1)`. -/
def Ratio.magnitude (r : Ratio) : Int :=
  let k : Int := (width r.num : Int) - width r.den
  let s := r.scaled k
  if s.num < s.den then k - 1 else k

/-- The neighbour of `r` on the grid of whole numbers, a half going as `tie` says. -/
def Ratio.nearest (r : Ratio) (tie : Tie) : Nat :=
  let low := r.num / r.den
  let excess := 2 * (r.num % r.den)
  if excess < r.den then low
  else if r.den < excess then low + 1
  else match tie with
    | .up => low + 1
    | .toEven => if low % 2 = 0 then low else low + 1

/-- The decimals that read back as one binary number: an interval given in quarters of the unit
of the last place, with or without its ends. -/
structure Interval where
  value : Ratio
  below : Ratio
  above : Ratio
  closed : Bool

/-- The interval of `m · 2 ^ q`. Below a power of two the spacing halves, unless `q` is `least`,
the exponent of the smallest numbers of the format. -/
def Interval.ofBinary (f : Nat) (least : Int) (m : Nat) (q : Int) : Interval where
  value := .ofBinary (4 * m) (q - 2)
  below := .ofBinary (if m = Nat.pow 2 f ∧ least < q then 4 * m - 1 else 4 * m - 2) (q - 2)
  above := .ofBinary (4 * m + 2) (q - 2)
  closed := m % 2 = 0

/-- Whether `d · 10 ^ k` lies in the interval. -/
def Interval.holds (i : Interval) (d : Nat) (k : Int) : Bool :=
  let low := i.below.scaled k
  let high := i.above.scaled k
  if i.closed then decide (low.num ≤ d * low.den) && decide (d * high.den ≤ high.num)
  else decide (low.num < d * low.den) && decide (d * high.den < high.num)

/-- The decimal in the interval on the grid of multiples of `10 ^ k`, of two the nearer. -/
def Interval.onGrid (i : Interval) (tie : Tie) (k : Int) : Option Decimal :=
  let s := i.value.scaled k
  let low := s.num / s.den
  match i.holds low k, i.holds (low + 1) k with
  | true, true => some ⟨s.nearest tie, k⟩
  | true, false => some ⟨low, k⟩
  | false, true => some ⟨low + 1, k⟩
  | false, false => none

/-- The first grid with a decimal in the interval, from `k` down to finer ones. -/
def Interval.search (i : Interval) (tie : Tie) : Nat → Int → Option Decimal
  | 0, _ => none
  | n + 1, k => (i.onGrid tie k).or (i.search tie n (k - 1))

/-- The shortest decimal that reads back as the double-width number `m · 2 ^ q`. -/
def shortest (tie : Tie) (m : Nat) (q : Int) : Decimal :=
  if m = 0 then ⟨0, 0⟩
  else
    let i := Interval.ofBinary 52 (-1074) m q
    trimZeros 20 ((i.search tie 17 i.value.magnitude).getD ⟨0, 0⟩)

/-- `m · 2 ^ q` rounded to `n` significant digits, an exact half going to the even digit. -/
def rounded (n : Nat) (m : Nat) (q : Int) : Decimal :=
  if m = 0 then ⟨0, 0⟩
  else
    let r := Ratio.ofBinary m q
    let k := r.magnitude - (n : Int) + 1
    ⟨(r.scaled k).nearest .toEven, k⟩

/-- The nearest double-width number. Beyond 400 places on either side it is infinite or zero. -/
def toFloat (d : Decimal) : Float :=
  let leading := d.exponent + width d.digits
  if d.digits = 0 ∨ leading < -400 then 0.0
  else if 400 < leading then 1.0 / 0.0
  else if d.exponent ≥ 0 then Float.ofScientific d.digits false d.exponent.toNat
  else Float.ofScientific d.digits true (-d.exponent).toNat

end Decimal

end Easel
