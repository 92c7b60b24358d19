import Easel.Number.Binary

/-!
# Complex numbers

Complex numbers over a scalar, with the principal square root.
-/

namespace Easel

structure Complex (α : Type) where
  re : α
  im : α

namespace Complex

variable {α : Type}

section Scalar

variable [Scalar α]

instance : Add (Complex α) := ⟨fun z w => ⟨z.re + w.re, z.im + w.im⟩⟩
instance : Sub (Complex α) := ⟨fun z w => ⟨z.re - w.re, z.im - w.im⟩⟩
instance : Mul (Complex α) :=
  ⟨fun z w => ⟨z.re * w.re - z.im * w.im, z.re * w.im + z.im * w.re⟩⟩

/-- The product with a real number. -/
def scale (z : Complex α) (r : α) : Complex α := ⟨z.re * r, z.im * r⟩

/-- The quotient by a real number. -/
def shrink (z : Complex α) (r : α) : Complex α := ⟨z.re / r, z.im / r⟩

end Scalar

variable [Analytic α]

/-- The square root in the right half plane; on the negative axis the sign of the imaginary zero
chooses the half axis. -/
def sqrt (z : Complex α) : Complex α :=
  if z.im == 0 then
    if Scalar.hasMinus z.re then
      let root := Analytic.sqrt (-z.re)
      ⟨0, if Scalar.hasMinus z.im then -root else root⟩
    else ⟨Analytic.sqrt z.re, z.im⟩
  else if z.re == 0 then
    let root := Analytic.sqrt (Scalar.abs z.im / 2)
    ⟨root, if Scalar.hasMinus z.im then -root else root⟩
  else
    let root := Analytic.sqrt (Analytic.hypot z.re z.im)
    let angle := Analytic.atan2 z.im z.re / 2
    ⟨root * Analytic.cos angle, root * Analytic.sin angle⟩

end Complex

end Easel
