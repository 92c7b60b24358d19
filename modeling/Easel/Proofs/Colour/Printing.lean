import Easel.Proofs.Colour.Hexadecimal
import Easel.Text.Case

/-!
# Reading what is printed

A colour is printed in one of the two longer forms, and both are read back. So are the printed form
in lower case, without its `#` and between blanks, and the arguments printed after `#` and `$`.
-/

namespace Easel.Colour

/-- The ways of writing a colour: as it is printed, in lower case, and both without the `#`. -/
def spellings (c : Colour) : List (List Char) :=
  [c.print, Text.lower c.print, c.print.drop 1, Text.lower (c.print.drop 1)]

theorem isDigit_hexDigit : ∀ n < 16, IsDigit (hexDigit n) n := by decide

theorem isDigit_toLower_hexDigit : ∀ n < 16, IsDigit (hexDigit n).toLower n := by decide

section
-- `f` leaves the letters as they are or puts them in lower case.
variable {f : Char → Char} (hf : ∀ n < 16, IsDigit (f (hexDigit n)) n)
include hf

theorem digitPair_hexByte (x : UInt8) :
    DigitPair (f (hexDigit (x.toNat / 16))) (f (hexDigit (x.toNat % 16))) x := by
  have hx : x.toNat < 256 := x.toNat_lt_size
  exact ⟨_, _, hf _ (by omega), hf _ (by omega), (Nat.div_add_mod x.toNat 16).symm⟩

theorem spelled_print (c : Colour) : Spelled DigitPair ((c.print.drop 1).map f) c := by
  have hr := digitPair_hexByte hf c.red
  have hg := digitPair_hexByte hf c.green
  have hb := digitPair_hexByte hf c.blue
  by_cases hopaque : c.alpha = 255
  · have hc : c = ⟨c.red, c.green, c.blue, 255⟩ := by rw [← hopaque]
    have hprint : c.print.drop 1 = hexByte c.red ++ hexByte c.green ++ hexByte c.blue := by
      simp [print, hopaque]
    rw [hprint, hc]
    exact .long hr hg hb
  · have hprint : c.print.drop 1 =
        hexByte c.red ++ hexByte c.green ++ hexByte c.blue ++ hexByte c.alpha := by
      simp [print, hopaque]
    rw [hprint]
    exact .full hr hg hb (digitPair_hexByte hf c.alpha)

end

/-- Each way of writing a colour is at most one `#` and digits that spell it. -/
theorem exists_of_mem_spellings {c : Colour} {t : List Char} (ht : t ∈ c.spellings) :
    ∃ hash digits, t = hash ++ digits ∧ (hash = [] ∨ hash = ['#']) ∧
      Spelled DigitPair digits c := by
  have hcapital : Spelled DigitPair (c.print.drop 1) c := by
    simpa using spelled_print (f := id) isDigit_hexDigit c
  have hsmall : Spelled DigitPair (Text.lower (c.print.drop 1)) c :=
    spelled_print isDigit_toLower_hexDigit c
  simp only [spellings, List.mem_cons, List.not_mem_nil, or_false] at ht
  rcases ht with rfl | rfl | rfl | rfl
  · exact ⟨['#'], _, rfl, .inr rfl, hcapital⟩
  · exact ⟨['#'], _, rfl, .inr rfl, hsmall⟩
  · exact ⟨[], _, rfl, .inl rfl, hcapital⟩
  · exact ⟨[], _, rfl, .inl rfl, hsmall⟩

/-- Each way of writing a colour is read as this colour, with any blanks around it. -/
theorem ofHex_of_mem_spellings {c : Colour} {before t after : List Char}
    (hbefore : ∀ a ∈ before, Text.isBlank a = true) (ht : t ∈ c.spellings)
    (hafter : ∀ a ∈ after, Text.isBlank a = true) :
    ofHex (String.ofList (before ++ t ++ after)) = .ok c := by
  obtain ⟨hash, digits, rfl, hhash, h⟩ := exists_of_mem_spellings ht
  have hwritten : Written DigitPair (String.ofList (before ++ (hash ++ digits) ++ after)) c :=
    ⟨before, hash, digits, after, String.toList_ofList, hbefore, hafter, hhash, h⟩
  exact (written_digitPair.1 hwritten).1

theorem ofHex_toString (c : Colour) : ofHex (toString c) = .ok c := by
  have hblank : ∀ a ∈ ([] : List Char), Text.isBlank a = true := by simp
  have hprint : c.print ∈ c.spellings := List.mem_cons_self
  have hread := ofHex_of_mem_spellings hblank hprint hblank
  rwa [List.nil_append, List.append_nil] at hread

/-! ## Arguments -/

theorem toList_toString (c : Colour) : (toString c).toList = c.print := String.toList_ofList

theorem ofText_print_colour (c : Colour) : Arg.ofText (Arg.print (.colour c)) = .colour c := by
  have hprint : toString c = "#" ++ String.ofList (c.print.drop 1) := by
    rw [← String.toList_inj, String.toList_append, toList_toString, String.toList_ofList,
      String.toList_ofList]
    rfl
  have h := ofHex_toString c
  rw [hprint] at h
  rw [Arg.print, hprint]
  exact ofText_hash_eq_colour.2 h

/-- A name comes back whole, whatever characters it has. -/
theorem ofText_print_binding (x : String) :
    Arg.ofText (Arg.print (.binding x)) = .binding x := by
  have hprint : ("$" ++ x).toList = '$' :: x.toList := String.toList_append
  rw [Arg.print, Arg.ofText, hprint]
  exact congrArg Arg.binding String.ofList_toList

/-- A colour is read back from each way of writing it, with any blanks around, and as an argument;
so is a reference, whatever its name. Hence no two colours are printed alike, and a colour
that was read from any text is read again once it is printed. -/
theorem print_faithful :
    (∀ (c : Colour) (before t after : List Char), (∀ a ∈ before, Text.isBlank a = true) →
      t ∈ c.spellings → (∀ a ∈ after, Text.isBlank a = true) →
      ofHex (String.ofList (before ++ t ++ after)) = .ok c) ∧
    (∀ c : Colour, ofHex (toString c) = .ok c) ∧
    (∀ c : Colour, Arg.ofText (Arg.print (.colour c)) = .colour c) ∧
    (∀ x : String, Arg.ofText (Arg.print (.binding x)) = .binding x) ∧
    Function.Injective (toString : Colour → String) ∧
    ∀ (s : String) (c : Colour), ofHex s = .ok c → ofHex (toString c) = .ok c := by
  refine ⟨fun c _ t _ hbefore ht hafter => ofHex_of_mem_spellings hbefore ht hafter,
    ofHex_toString, ofText_print_colour, ofText_print_binding, ?_, fun _ c _ => ofHex_toString c⟩
  intro c d h
  have hread : (.ok c : Except HexFault Colour) = .ok d := by
    rw [← ofHex_toString c, ← ofHex_toString d, h]
  exact Except.ok.inj hread

/-- Blanks, small letters and no `#` at once, and a short form that is printed in the long one. -/
theorem print_faithful_translucent :
    ofHex "\t 1234ab78\u3000" = .ok ⟨18, 52, 171, 120⟩ ∧
      ofHex "abc" = .ok ⟨170, 187, 204, 255⟩ ∧ ofHex "#AABBCC" = .ok ⟨170, 187, 204, 255⟩ := by
  have hshort : ofHex "abc" = .ok ⟨170, 187, 204, 255⟩ := by decide
  have hlong := print_faithful.2.2.2.2.2 "abc" ⟨170, 187, 204, 255⟩ hshort
  have hbefore : ∀ a ∈ ['\t', ' '], Text.isBlank a = true := List.all_eq_true.1 (by decide)
  have hafter : ∀ a ∈ ['\u3000'], Text.isBlank a = true := List.all_eq_true.1 (by decide)
  have hsmall := print_faithful.1 ⟨18, 52, 171, 120⟩ _ "1234ab78".toList _
    hbefore (by decide) hafter
  exact ⟨hsmall, hshort, hlong⟩

end Easel.Colour
