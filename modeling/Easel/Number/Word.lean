/-!
# Words

The ranges of whole numbers that words of some bits hold, and products that stay in range.
-/

namespace Easel.Word

/-- How many values a word of this many bits has. -/
def values (bits : Nat) : Nat := Nat.pow 2 bits

/-- Whether a word of this many bits, with or without a sign, holds the number. -/
def holds (bits : Nat) (n : Int) : Bool := -(values (bits - 1) : Int) ≤ n && n < values bits

/-- The product of two numbers, if a word of this many bits without a sign holds it. -/
def product? (bits a b : Nat) : Option Nat := if a * b < values bits then some (a * b) else none

theorem product?_eq_some {bits a b n : Nat} :
    product? bits a b = some n ↔ n = a * b ∧ n < values bits := by
  rw [product?, Option.ite_none_right_eq_some, Option.some.injEq]
  exact ⟨fun ⟨h, hn⟩ => ⟨hn.symm, hn ▸ h⟩, fun ⟨hn, h⟩ => ⟨hn ▸ h, hn.symm⟩⟩

end Easel.Word
