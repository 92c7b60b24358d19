/-!
# Texts in bytes

The length of a text in bytes, and its part between two offsets that count bytes. A character takes
one byte if it is ASCII and more if it is not, so that an offset can lie inside a character.
-/

namespace Easel.Text

/-- Whether the character is ASCII. -/
def isAscii (c : Char) : Bool := c.toNat < 128

/-- How many bytes the text takes. -/
def byteLength : List Char → Nat
  | [] => 0
  | c :: s => c.utf8Size + byteLength s

/-- What follows the first bytes; none if they end inside a character or beyond the text. -/
def dropBytes? : List Char → Nat → Option (List Char)
  | s, 0 => some s
  | [], _ + 1 => none
  | c :: s, n + 1 => if c.utf8Size ≤ n + 1 then dropBytes? s (n + 1 - c.utf8Size) else none

/-- The first bytes; none if they end inside a character or beyond the text. -/
def takeBytes? : List Char → Nat → Option (List Char)
  | _, 0 => some []
  | [], _ + 1 => none
  | c :: s, n + 1 =>
    if c.utf8Size ≤ n + 1 then (takeBytes? s (n + 1 - c.utf8Size)).map (c :: ·) else none

/-- The text from one offset up to another; none if one of them lies inside a character or beyond
the text. -/
def slice? (s : List Char) (start stop : Nat) : Option (List Char) := do
  let rest ← dropBytes? s start
  if start ≤ stop then takeBytes? rest (stop - start) else none

/-! ## ASCII texts -/

variable {c : Char} {s : List Char} {n start stop : Nat}

theorem utf8Size_of_isAscii (h : isAscii c = true) : c.utf8Size = 1 := by
  have hlt : c.toNat < 128 := of_decide_eq_true h
  rw [Char.utf8Size_eq_one_iff, UInt32.le_iff_toNat_le]
  exact Nat.le_of_lt_succ hlt

theorem byteLength_of_ascii (h : s.all isAscii = true) : byteLength s = s.length := by
  induction s with
  | nil => rfl
  | cons c s ih =>
    rw [List.all_cons, Bool.and_eq_true] at h
    rw [byteLength, utf8Size_of_isAscii h.1, ih h.2, List.length_cons, Nat.add_comm]

theorem dropBytes?_of_ascii (h : s.all isAscii = true) (hn : n ≤ s.length) :
    dropBytes? s n = some (s.drop n) := by
  induction s generalizing n with
  | nil =>
    obtain rfl : n = 0 := Nat.le_zero.1 hn
    rfl
  | cons c s ih =>
    rw [List.all_cons, Bool.and_eq_true] at h
    cases n with
    | zero => rfl
    | succ n =>
      rw [dropBytes?, utf8Size_of_isAscii h.1, if_pos (Nat.le_add_left 1 n), Nat.add_sub_cancel]
      exact ih h.2 (Nat.le_of_succ_le_succ hn)

theorem takeBytes?_of_ascii (h : s.all isAscii = true) (hn : n ≤ s.length) :
    takeBytes? s n = some (s.take n) := by
  induction s generalizing n with
  | nil =>
    obtain rfl : n = 0 := Nat.le_zero.1 hn
    rfl
  | cons c s ih =>
    rw [List.all_cons, Bool.and_eq_true] at h
    cases n with
    | zero => rfl
    | succ n =>
      rw [takeBytes?, utf8Size_of_isAscii h.1, if_pos (Nat.le_add_left 1 n), Nat.add_sub_cancel,
        ih h.2 (Nat.le_of_succ_le_succ hn)]
      rfl

/-- No offset lies inside a character of an ASCII text. -/
theorem slice?_of_ascii (h : s.all isAscii = true) (hstart : start ≤ stop)
    (hstop : stop ≤ s.length) :
    slice? s start stop = some ((s.drop start).take (stop - start)) := by
  have hrest : (s.drop start).all isAscii = true := by
    rw [List.all_eq_true] at h ⊢
    exact fun c hc => h c (List.mem_of_mem_drop hc)
  have hlength : stop - start ≤ (s.drop start).length := by
    rw [List.length_drop]
    omega
  rw [slice?, dropBytes?_of_ascii h (Nat.le_trans hstart hstop)]
  simp only [Option.bind_eq_bind, Option.bind_some, if_pos hstart]
  exact takeBytes?_of_ascii hrest hlength

end Easel.Text
