import Easel.Colour.Blend

/-!
# Lightening

A colour is taken to hue, saturation and lightness, its lightness is moved part of the way to white,
and it is taken back.
-/

namespace Easel.Colour

/-- Red, green and blue as fractions of full scale. -/
structure Rgb (α : Type) where
  red : α
  green : α
  blue : α

/-- Hue in degrees, saturation and lightness as fractions. -/
structure Hsl (α : Type) where
  hue : α
  saturation : α
  lightness : α

variable {α : Type} [Scalar α]

/-- The largest and smallest channel, and where the hue lies between the neighbours of the
largest: `separation` is signed, `sector` counts sixths of a turn from red. -/
structure Extremes (α : Type) where
  largest : α
  smallest : α
  separation : α
  sector : α

/-- Red and green are compared first, then blue against both. -/
def Rgb.extremes (c : Rgb α) : Extremes α :=
  let e : Extremes α :=
    if c.green < c.red then ⟨c.red, c.green, c.green - c.blue, 0⟩
    else ⟨c.green, c.red, c.blue - c.red, 2⟩
  if e.largest < c.blue then ⟨c.blue, e.smallest, c.red - c.green, 4⟩
  else if c.blue < e.smallest then { e with smallest := c.blue }
  else e

/-- The hue, saturation and lightness of a colour; a grey has hue and saturation zero. -/
def Rgb.toHsl (c : Rgb α) : Hsl α :=
  let e := c.extremes
  let sum := e.largest + e.smallest
  let lightness := Scalar.clamp 0 1 (sum / 2)
  if e.largest == e.smallest then ⟨0, 0, lightness⟩
  else
    let chroma := e.largest - e.smallest
    let saturation := if 1 < sum then chroma / (2 - sum) else chroma / sum
    ⟨(e.separation / chroma + e.sector) * 60, Scalar.clamp 0 1 saturation, lightness⟩

/-- The colour of a hue, saturation and lightness. -/
def Hsl.toRgb (c : Hsl α) : Rgb α :=
  let chroma := (1 - Scalar.abs (2 * c.lightness - 1)) * c.saturation
  let sixth := (c.hue - Scalar.ofInt (Scalar.floor (c.hue / 360)) * 360) / 60
  let phase := sixth - Scalar.ofInt (Scalar.floor (sixth * 0.5)) * 2
  let second := chroma * (1 - Scalar.abs (phase - 1))
  let base := c.lightness - chroma * 0.5
  let (r, g, b) :=
    if sixth < 0 then (chroma, 0, second)
    else if sixth < 1 then (chroma, second, 0)
    else if sixth < 2 then (second, chroma, 0)
    else if sixth < 3 then (0, chroma, second)
    else if sixth < 4 then (0, second, chroma)
    else if sixth < 5 then (second, 0, chroma)
    else (chroma, 0, second)
  ⟨Scalar.clamp 0 1 (r + base), Scalar.clamp 0 1 (g + base), Scalar.clamp 0 1 (b + base)⟩

/-- Lightness moved `percent` of the way to one, at least not at all and at most all the way. -/
def Hsl.lighten (percent : α) (c : Hsl α) : Hsl α :=
  let share := Scalar.clamp 0 1 (percent / 100)
  { c with lightness := Scalar.clamp 0 1 (c.lightness + (1 - c.lightness) * share) }

/-- The colour lightened by `percent`, computed in the scalars of `percent`; opacity stays. -/
@[specialize] def lightenAt (percent : α) (c : Colour) : Colour :=
  let light := ((Rgb.mk (fraction α c.red) (fraction α c.green) (fraction α c.blue)).toHsl.lighten
    percent).toRgb
  { red := toByte (light.red * 255)
    green := toByte (light.green * 255)
    blue := toByte (light.blue * 255)
    alpha := c.alpha }

/-- The colour lightened by `percent`. -/
def lighten (percent : Float32) (c : Colour) : Colour := lightenAt percent c

end Easel.Colour
