import Easel.Colour.Basic
import Easel.Number.Binary

/-!
# Compositing

`Colour.onto` lays one colour over another. The weights are computed in a scalar type of choice;
the canvas uses single-width floating point.
-/

namespace Easel.Colour

section Weights

variable (α : Type) [Scalar α]

/-- A byte as a scalar. -/
@[inline] def ofByte (b : UInt8) : α := Scalar.ofInt b.toNat

/-- A byte as a fraction of full scale. -/
@[inline] def fraction (b : UInt8) : α := ofByte α b / 255

variable {α}

/-- The nearest byte, values beyond either end going to that end. -/
@[inline] def toByte (x : α) : UInt8 := UInt8.ofNat (min (Scalar.round x).toNat 255)

/-- The opacity of a layer of opacity `s` over one of opacity `d`. -/
@[inline] def layeredAlpha (s d : α) : α := s + d * (1 - s)

/-- The mean of two channels, each weighted by how much of its layer shows. -/
@[inline] def layeredChannel (s d : UInt8) (sa da : α) : α :=
  (ofByte α s * sa + ofByte α d * da * (1 - sa)) / layeredAlpha sa da

variable (α) in
/-- The general rule, for any opacity of `source`. -/
@[inline] def composite (source dest : Colour) : Colour :=
  let sa := fraction α source.alpha
  let da := fraction α dest.alpha
  { red := toByte (layeredChannel source.red dest.red sa da)
    green := toByte (layeredChannel source.green dest.green sa da)
    blue := toByte (layeredChannel source.blue dest.blue sa da)
    alpha := toByte (layeredAlpha sa da * 255) }

variable (α) in
/-- `source` laid over `dest`: an opaque one hides `dest`, a transparent one leaves it. -/
@[inline] def ontoAt (source dest : Colour) : Colour :=
  if source.alpha = 255 then source
  else if source.alpha = 0 then dest
  else composite α source dest

end Weights

/-- `source` laid over `dest`. -/
def onto (source dest : Colour) : Colour := ontoAt Float32 source dest

end Easel.Colour
