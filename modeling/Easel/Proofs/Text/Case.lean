import Mathlib.Data.List.Forall2
import Easel.Text.Case

/-!
# Equality but for case

Two texts are equal but for the case of ASCII letters if their characters are, one by one. Comparing
them in lower case and comparing them letter by letter both decide this.
-/

namespace Easel.Text

/-- Two characters are equal, or they are the two forms of one letter of ASCII. -/
def SameLetter (a b : Char) : Prop :=
  a = b ∨ (a.isUpper = true ∧ b.toNat = a.toNat + 32) ∨ (b.isUpper = true ∧ a.toNat = b.toNat + 32)

instance (a b : Char) : Decidable (SameLetter a b) :=
  inferInstanceAs (Decidable (_ ∨ _))

/-- Two texts are equal but for the case of ASCII letters. -/
def EqualButCase (s t : List Char) : Prop := List.Forall₂ SameLetter s t

instance (s t : List Char) : Decidable (EqualButCase s t) :=
  inferInstanceAs (Decidable (List.Forall₂ _ _ _))

variable {a b c : Char} {s t : List Char}

/-- The range of the capital letters, in code points. -/
theorem capital_iff : (c.val ≥ 'A'.val ∧ c.val ≤ 'Z'.val) ↔ 65 ≤ c.toNat ∧ c.toNat ≤ 90 := by
  simp [UInt32.le_iff_toNat_le, Char.toNat_val]

theorem isUpper_iff : c.isUpper = true ↔ 65 ≤ c.toNat ∧ c.toNat ≤ 90 := by
  have hupper : c.isUpper = decide (c.val ≥ 'A'.val ∧ c.val ≤ 'Z'.val) := rfl
  rw [hupper, decide_eq_true_iff, capital_iff]

/-- Capital letters are 32 places before the small ones. -/
theorem toNat_toLower (c : Char) :
    c.toLower.toNat = if 65 ≤ c.toNat ∧ c.toNat ≤ 90 then c.toNat + 32 else c.toNat := by
  by_cases h : c.val ≥ 'A'.val ∧ c.val ≤ 'Z'.val
  · have hrange := capital_iff.1 h
    have hlower : c.toLower = ⟨c.val + 32, _⟩ := dif_pos h
    have hdistance : (32 : UInt32).toNat = 32 := rfl
    rw [if_pos hrange, ← Char.toNat_val, hlower, UInt32.toNat_add, Char.toNat_val, hdistance]
    exact Nat.mod_eq_of_lt (by omega)
  · have hlower : c.toLower = c := dif_neg h
    rw [if_neg (mt capital_iff.2 h), hlower]

theorem toLower_eq_iff : a.toLower = b.toLower ↔ SameLetter a b := by
  simp only [SameLetter, ← Char.toNat_inj, toNat_toLower, isUpper_iff]
  split <;> split <;> omega

theorem lower_eq_iff : lower s = lower t ↔ EqualButCase s t := by
  rw [lower, lower, ← List.forall₂_eq_eq_eq, List.forall₂_map_left_iff,
    List.forall₂_map_right_iff, EqualButCase]
  simp only [toLower_eq_iff]

theorem alike_iff : alike s t = true ↔ EqualButCase s t := by
  simp [alike, EqualButCase, List.forall₂_iff_zip, toLower_eq_iff]

end Easel.Text
