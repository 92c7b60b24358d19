import Mathlib.Tactic.IntervalCases
import Easel.Error
import Easel.Sketch.Basic

/-!
# The grammar of hexadecimal colours

`Written pair s c` says how the text `s` writes the colour `c`: blanks, at most one `#`, the digits
of one of the three forms, blanks. It is stated over what spells a byte in the two longer forms. For
`DigitPair`, two digits, it is the documented grammar; for `SignedPair` the first of them may be a
plus sign, and this is what is read (`ofHex_eq_ok`).
-/

namespace Easel.Colour

/-! ## Digits -/

/-- The digits, each at the position that is its value. -/
def smallDigits : List Char := "0123456789abcdef".toList

def capitalDigits : List Char := "0123456789ABCDEF".toList

/-- The character is the hexadecimal digit of this value, in either case. -/
def IsDigit (c : Char) (n : ℕ) : Prop := smallDigits[n]? = some c ∨ capitalDigits[n]? = some c

instance (c : Char) (n : ℕ) : Decidable (IsDigit c n) := inferInstanceAs (Decidable (_ ∨ _))

variable {a b c : Char} {n : ℕ} {x : UInt8}

theorem IsDigit.lt (h : IsDigit c n) : n < 16 := by
  rcases h with h | h <;> exact (List.getElem?_eq_some_iff.1 h).1

theorem digit?_of_isDigit (h : IsDigit c n) : Text.digit? 16 c = some n := by
  have hlt := h.lt
  interval_cases n <;> rcases h with h | h <;> cases h <;> rfl

/-- What is read as a digit comes before the first character beyond ASCII. -/
theorem lt_of_digit? (h : Text.digit? 16 c = some n) : c.toNat < 128 := by
  simp only [Text.digit?] at h
  obtain ⟨hvalue, -⟩ := Option.filter_eq_some_iff.1 h
  have hlast {d : Char} (hd : d.toNat < 128) (hle : c ≤ d) : c.toNat < 128 := by
    have hle' : c.toNat ≤ d.toNat := hle
    omega
  split at hvalue
  case isTrue hrange => exact hlast (by decide) hrange.2
  case isFalse =>
    split at hvalue
    case isTrue hrange => exact hlast (by decide) hrange.2
    case isFalse =>
      split at hvalue
      case isTrue hrange => exact hlast (by decide) hrange.2
      case isFalse => cases hvalue

theorem digit?_eq_some : Text.digit? 16 c = some n ↔ IsDigit c n := by
  constructor
  · intro h
    -- ASCII characters one by one
    have hascii : ∀ k < 128, ∀ n ∈ Text.digit? 16 (Char.ofNat k), IsDigit (Char.ofNat k) n := by
      decide
    have hc := hascii c.toNat (lt_of_digit? h)
    rw [Char.ofNat_toNat] at hc
    exact hc n h
  · exact digit?_of_isDigit

/-! ## Bytes -/

/-- Two digits spell a byte, the high one first. -/
def DigitPair (a b : Char) (x : UInt8) : Prop :=
  ∃ high low, IsDigit a high ∧ IsDigit b low ∧ x.toNat = 16 * high + low

/-- Two characters are read as a byte: they are two digits, or a plus sign and a digit. -/
def SignedPair (a b : Char) (x : UInt8) : Prop :=
  DigitPair a b x ∨ a = '+' ∧ ∃ low, IsDigit b low ∧ x.toNat = low

theorem readDoubled_eq_ok : readDoubled c = .ok x ↔ DigitPair c c x := by
  rw [readDoubled]
  constructor
  · intro h
    split at h
    case h_1 d hd =>
      cases h
      have hlt := (digit?_eq_some.1 hd).lt
      refine ⟨d, d, digit?_eq_some.1 hd, digit?_eq_some.1 hd, UInt8.toNat_ofNat_of_lt ?_⟩
      rw [UInt8.size]
      omega
    case h_2 => cases h
  · rintro ⟨high, low, hhigh, hlow, hx⟩
    rw [← digit?_eq_some] at hhigh hlow
    obtain rfl : high = low := Option.some.inj (hhigh.symm.trans hlow)
    simp only [hhigh, ← hx, UInt8.ofNat_toNat]

theorem natural?_one (b : Char) : Text.natural? 16 [b] = Text.digit? 16 b := by
  simp [Text.natural?]

theorem natural?_two (a b : Char) : Text.natural? 16 [a, b] =
    (Text.digit? 16 a).bind fun high => (Text.digit? 16 b).map fun low => 16 * high + low := by
  simp [Text.natural?]

theorem not_isDigit_plus : ¬IsDigit '+' n := by
  intro h
  have hlt := h.lt
  revert h
  interval_cases n <;> decide

theorem byte?_eq_some {pair : List Char} :
    byte? pair = some x ↔ Text.unsigned? 16 pair = some x.toNat := by
  rw [byte?]
  cases Text.unsigned? 16 pair with
  | none => simp
  | some n =>
    constructor
    · intro h
      obtain ⟨hlt, hx⟩ := Option.ite_none_right_eq_some.1 h
      rw [← Option.some.inj hx, UInt8.toNat_ofNat_of_lt' hlt]
    · intro h
      obtain rfl := Option.some.inj h
      simp only [x.toNat_lt_size, if_true, UInt8.ofNat_toNat]

theorem byte?_pair : byte? [a, b] = some x ↔ SignedPair a b x := by
  rw [byte?_eq_some, SignedPair]
  by_cases ha : a = '+'
  · subst ha
    have hpair : ¬DigitPair '+' b x := fun ⟨_, _, hhigh, _⟩ => not_isDigit_plus hhigh
    simp only [Text.unsigned?, natural?_one, digit?_eq_some, hpair, false_or, true_and]
    exact ⟨fun h => ⟨_, h, rfl⟩, fun ⟨_, h, hx⟩ => hx ▸ h⟩
  · have hunsigned : Text.unsigned? 16 [a, b] = Text.natural? 16 [a, b] := by
      simp [Text.unsigned?, ha]
    simp only [hunsigned, natural?_two, Option.bind_eq_some_iff, Option.map_eq_some_iff,
      digit?_eq_some, ha, false_and, or_false, DigitPair]
    constructor
    · rintro ⟨high, hhigh, low, hlow, hx⟩
      exact ⟨high, low, hhigh, hlow, hx.symm⟩
    · rintro ⟨high, low, hhigh, hlow, hx⟩
      exact ⟨high, hhigh, low, hlow, hx.symm⟩

/-! ## Forms of a colour -/

/-- The digits of a colour in each of its three forms, over what spells a byte in the longer two. A
single digit stands for two. -/
inductive Spelled (pair : Char → Char → UInt8 → Prop) : List Char → Colour → Prop
  | short {r g b : Char} {red green blue : UInt8} (hr : DigitPair r r red)
      (hg : DigitPair g g green) (hb : DigitPair b b blue) :
      Spelled pair [r, g, b] ⟨red, green, blue, 255⟩
  | long {r r' g g' b b' : Char} {red green blue : UInt8} (hr : pair r r' red)
      (hg : pair g g' green) (hb : pair b b' blue) :
      Spelled pair [r, r', g, g', b, b'] ⟨red, green, blue, 255⟩
  | full {r r' g g' b b' a a' : Char} {red green blue alpha : UInt8} (hr : pair r r' red)
      (hg : pair g g' green) (hb : pair b b' blue) (ha : pair a a' alpha) :
      Spelled pair [r, r', g, g', b, b', a, a'] ⟨red, green, blue, alpha⟩

/-- The text is a colour in one of its forms after at most one `#`, with blanks around it. -/
def Written (pair : Char → Char → UInt8 → Prop) (s : String) (c : Colour) : Prop :=
  ∃ before hash digits after, s.toList = before ++ (hash ++ digits) ++ after ∧
    (∀ c ∈ before, Text.isBlank c = true) ∧ (∀ c ∈ after, Text.isBlank c = true) ∧
    (hash = [] ∨ hash = ['#']) ∧ Spelled pair digits c

variable {pair pair' : Char → Char → UInt8 → Prop} {digits : List Char} {colour : Colour}

theorem Spelled.length (h : Spelled pair digits colour) :
    digits.length = 3 ∨ digits.length = 6 ∨ digits.length = 8 := by
  cases h with
  | short => exact .inl rfl
  | long => exact .inr (.inl rfl)
  | full => exact .inr (.inr rfl)

/-- What holds of the characters that spell a byte holds of those that spell a colour. -/
theorem Spelled.forall {P : Char → Prop} (h : Spelled pair digits colour)
    (hdigits : ∀ a b x, DigitPair a b x → P a ∧ P b) (hpair : ∀ a b x, pair a b x → P a ∧ P b) :
    ∀ c ∈ digits, P c := by
  cases h with
  | short hr hg hb => simp [(hdigits _ _ _ hr).1, (hdigits _ _ _ hg).1, (hdigits _ _ _ hb).1]
  | long hr hg hb => simp [hpair _ _ _ hr, hpair _ _ _ hg, hpair _ _ _ hb]
  | full hr hg hb ha => simp [hpair _ _ _ hr, hpair _ _ _ hg, hpair _ _ _ hb, hpair _ _ _ ha]

/-- A colour is spelled by other means if each of its bytes is. -/
theorem Spelled.map (h : Spelled pair digits colour)
    (hpair : ∀ a ∈ digits, ∀ b x, pair a b x → pair' a b x) : Spelled pair' digits colour := by
  cases h with
  | short hr hg hb => exact .short hr hg hb
  | long hr hg hb =>
    exact .long (hpair _ (by simp) _ _ hr) (hpair _ (by simp) _ _ hg) (hpair _ (by simp) _ _ hb)
  | full hr hg hb ha =>
    exact .full (hpair _ (by simp) _ _ hr) (hpair _ (by simp) _ _ hg) (hpair _ (by simp) _ _ hb)
      (hpair _ (by simp) _ _ ha)

/-- The characters that a byte is read from. -/
def signs : List Char := '+' :: (smallDigits ++ capitalDigits)

theorem IsDigit.mem_signs (h : IsDigit c n) : c ∈ signs := by
  refine List.mem_cons_of_mem _ (List.mem_append.2 ?_)
  exact h.imp List.mem_of_getElem? List.mem_of_getElem?

theorem DigitPair.mem_signs (h : DigitPair a b x) : a ∈ signs ∧ b ∈ signs := by
  obtain ⟨high, low, hhigh, hlow, -⟩ := h
  exact ⟨hhigh.mem_signs, hlow.mem_signs⟩

theorem SignedPair.mem_signs (h : SignedPair a b x) : a ∈ signs ∧ b ∈ signs := by
  rcases h with h | ⟨rfl, low, hlow, -⟩
  · exact h.mem_signs
  · exact ⟨List.mem_cons_self, hlow.mem_signs⟩

theorem isAscii_of_mem_signs : ∀ c ∈ signs, Text.isAscii c = true :=
  List.all_eq_true.1 (by decide)

theorem not_isBlank_of_mem_signs : ∀ c ∈ signs, Text.isBlank c = false := by
  have hall : signs.any Text.isBlank = false := by decide
  simpa using hall

theorem ne_hash_of_mem_signs (h : c ∈ signs) : c ≠ '#' := by
  have hhash : signs.elem '#' = false := by decide
  rintro rfl
  simp [h] at hhash

theorem Spelled.mem_signs (h : Spelled SignedPair digits colour) : ∀ c ∈ digits, c ∈ signs :=
  h.forall (fun _ _ _ => DigitPair.mem_signs) fun _ _ _ => SignedPair.mem_signs

theorem Spelled.isAscii (h : Spelled SignedPair digits colour) :
    digits.all Text.isAscii = true :=
  List.all_eq_true.2 fun c hc => isAscii_of_mem_signs c (h.mem_signs c hc)

/-- Two digits at a time spell a colour when the bytes that are read do and none has a sign. -/
theorem spelled_digitPair : Spelled DigitPair digits colour ↔
    Spelled SignedPair digits colour ∧ '+' ∉ digits := by
  constructor
  · intro h
    have hplus {a b : Char} {x : UInt8} (h : DigitPair a b x) : a ≠ '+' ∧ b ≠ '+' := by
      obtain ⟨high, low, hhigh, hlow, -⟩ := h
      exact ⟨fun ha => not_isDigit_plus (ha ▸ hhigh), fun hb => not_isDigit_plus (hb ▸ hlow)⟩
    have hdigits : ∀ c ∈ digits, c ≠ '+' := h.forall (fun _ _ _ => hplus) fun _ _ _ => hplus
    exact ⟨h.map fun _ _ _ _ => Or.inl, fun hmem => hdigits '+' hmem rfl⟩
  · rintro ⟨h, hplus⟩
    refine h.map fun a ha b x hpair => ?_
    exact hpair.resolve_right fun hsign => hplus (hsign.1 ▸ ha)

/-! ## The hash -/

/-- What is left has had at most one `#` before it. -/
theorem exists_dropHash (s : List Char) :
    ∃ hash, (hash = [] ∨ hash = ['#']) ∧ s = hash ++ dropHash s := by
  rw [dropHash.eq_def]
  split
  case h_1 => exact ⟨['#'], .inr rfl, rfl⟩
  case h_2 => exact ⟨[], .inl rfl, rfl⟩

theorem dropHash_of_ne {s : List Char} (h : ∀ c ∈ s, c ≠ '#') : dropHash s = s := by
  rw [dropHash.eq_def]
  split
  case h_1 => exact absurd rfl (h '#' List.mem_cons_self)
  case h_2 => rfl

/-! ## Reading the digits -/

variable {text : List Char} {k : ℕ}

theorem readDigit_eq_ok (h : digits[k]? = some c) :
    readDigit digits k = .ok x ↔ DigitPair c c x := by
  simp only [readDigit, h, readDoubled_eq_ok]

theorem slice?_pair (h : digits.all Text.isAscii = true) (hk : k + 2 ≤ digits.length) :
    Text.slice? digits k (k + 2) = some ((digits.drop k).take 2) := by
  rw [Text.slice?_of_ascii h (Nat.le_add_right k 2) hk, Nat.add_sub_cancel_left]

theorem readPair_eq_ok (h : digits.all Text.isAscii = true) (hk : k + 2 ≤ digits.length)
    (hpair : (digits.drop k).take 2 = [a, b]) : readPair digits k = .ok x ↔ SignedPair a b x := by
  simp only [readPair, slice?_pair h hk, hpair, ← byte?_pair]
  cases byte? [a, b] <;> simp

/-- No pair of digits in an ASCII text is cut out of a character. -/
theorem readPair_uncut (h : digits.all Text.isAscii = true) (hk : k + 2 ≤ digits.length) :
    readPair digits k ≠ .error .insideCharacter := by
  simp only [readPair, slice?_pair h hk]
  cases byte? ((digits.drop k).take 2) <;> simp

/-- Bytes are characters where the digits are ASCII. -/
theorem ofDigits_of_ascii (h : digits.all Text.isAscii = true) :
    ofDigits text digits = match digits.length with
      | 3 => return ⟨← readDigit digits 0, ← readDigit digits 1, ← readDigit digits 2, 255⟩
      | 6 => return ⟨← readPair digits 0, ← readPair digits 2, ← readPair digits 4, 255⟩
      | 8 =>
        return ⟨← readPair digits 0, ← readPair digits 2, ← readPair digits 4,
          ← readPair digits 6⟩
      | _ => .error (.shape (String.ofList text)) := by
  rw [← Text.byteLength_of_ascii h]
  exact if_pos h

theorem ofDigits_short {r g b : Char} (hdigits : digits = [r, g, b])
    (h : digits.all Text.isAscii = true) :
    ofDigits text digits = .ok colour ↔ Spelled SignedPair digits colour := by
  have hread : ofDigits text digits = do
      return ⟨← readDigit digits 0, ← readDigit digits 1, ← readDigit digits 2, 255⟩ := by
    rw [ofDigits_of_ascii h, hdigits]
    rfl
  have hred {x : UInt8} : readDigit digits 0 = .ok x ↔ DigitPair r r x :=
    readDigit_eq_ok (by rw [hdigits]; rfl)
  have hgreen {x : UInt8} : readDigit digits 1 = .ok x ↔ DigitPair g g x :=
    readDigit_eq_ok (by rw [hdigits]; rfl)
  have hblue {x : UInt8} : readDigit digits 2 = .ok x ↔ DigitPair b b x :=
    readDigit_eq_ok (by rw [hdigits]; rfl)
  simp only [hread, bind_eq_ok, hred, hgreen, hblue, pure, Except.pure, Except.ok.injEq]
  rw [hdigits]
  constructor
  · rintro ⟨red, hr, green, hg, blue, hb, rfl⟩
    exact .short hr hg hb
  · intro hspelled
    cases hspelled with
    | short hr hg hb => exact ⟨_, hr, _, hg, _, hb, rfl⟩

theorem ofDigits_long {r r' g g' b b' : Char} (hdigits : digits = [r, r', g, g', b, b'])
    (h : digits.all Text.isAscii = true) :
    ofDigits text digits = .ok colour ↔ Spelled SignedPair digits colour := by
  have hread : ofDigits text digits = do
      return ⟨← readPair digits 0, ← readPair digits 2, ← readPair digits 4, 255⟩ := by
    rw [ofDigits_of_ascii h, hdigits]
    rfl
  have hred {x : UInt8} : readPair digits 0 = .ok x ↔ SignedPair r r' x :=
    readPair_eq_ok h (by simp [hdigits]) (by rw [hdigits]; rfl)
  have hgreen {x : UInt8} : readPair digits 2 = .ok x ↔ SignedPair g g' x :=
    readPair_eq_ok h (by simp [hdigits]) (by rw [hdigits]; rfl)
  have hblue {x : UInt8} : readPair digits 4 = .ok x ↔ SignedPair b b' x :=
    readPair_eq_ok h (by simp [hdigits]) (by rw [hdigits]; rfl)
  simp only [hread, bind_eq_ok, hred, hgreen, hblue, pure, Except.pure, Except.ok.injEq]
  rw [hdigits]
  constructor
  · rintro ⟨red, hr, green, hg, blue, hb, rfl⟩
    exact .long hr hg hb
  · intro hspelled
    cases hspelled with
    | long hr hg hb => exact ⟨_, hr, _, hg, _, hb, rfl⟩

theorem ofDigits_full {r r' g g' b b' a a' : Char}
    (hdigits : digits = [r, r', g, g', b, b', a, a']) (h : digits.all Text.isAscii = true) :
    ofDigits text digits = .ok colour ↔ Spelled SignedPair digits colour := by
  have hread : ofDigits text digits = do
      return ⟨← readPair digits 0, ← readPair digits 2, ← readPair digits 4,
        ← readPair digits 6⟩ := by
    rw [ofDigits_of_ascii h, hdigits]
    rfl
  have hred {x : UInt8} : readPair digits 0 = .ok x ↔ SignedPair r r' x :=
    readPair_eq_ok h (by simp [hdigits]) (by rw [hdigits]; rfl)
  have hgreen {x : UInt8} : readPair digits 2 = .ok x ↔ SignedPair g g' x :=
    readPair_eq_ok h (by simp [hdigits]) (by rw [hdigits]; rfl)
  have hblue {x : UInt8} : readPair digits 4 = .ok x ↔ SignedPair b b' x :=
    readPair_eq_ok h (by simp [hdigits]) (by rw [hdigits]; rfl)
  have halpha {x : UInt8} : readPair digits 6 = .ok x ↔ SignedPair a a' x :=
    readPair_eq_ok h (by simp [hdigits]) (by rw [hdigits]; rfl)
  simp only [hread, bind_eq_ok, hred, hgreen, hblue, halpha, pure, Except.pure, Except.ok.injEq]
  rw [hdigits]
  constructor
  · rintro ⟨red, hr, green, hg, blue, hb, alpha, ha, rfl⟩
    exact .full hr hg hb ha
  · intro hspelled
    cases hspelled with
    | full hr hg hb ha => exact ⟨_, hr, _, hg, _, hb, _, ha, rfl⟩

/-- Every text of digits is read as the colour that it spells, and no other text is read. -/
theorem ofDigits_eq_ok :
    ofDigits text digits = .ok colour ↔ Spelled SignedPair digits colour := by
  by_cases h : digits.all Text.isAscii = true
  case neg =>
    have hspelled : ¬Spelled SignedPair digits colour := fun hs => h hs.isAscii
    simp [ofDigits, h, hspelled]
  case pos =>
    by_cases hlength : digits.length = 3 ∨ digits.length = 6 ∨ digits.length = 8
    case pos =>
      match digits, hlength with
      | [r, g, b], _ => exact ofDigits_short rfl h
      | [r, r', g, g', b, b'], _ => exact ofDigits_long rfl h
      | [r, r', g, g', b, b', a, a'], _ => exact ofDigits_full rfl h
    case neg =>
      have hspelled : ¬Spelled SignedPair digits colour := fun hs => hlength hs.length
      rw [ofDigits_of_ascii h]
      split <;> simp_all

/-! ## Cuts -/

/-- What is read in two parts is cut out of a character only if one of them is. -/
theorem bind_uncut {α β : Type} {y : Except HexFault α} {f : α → Except HexFault β}
    (hy : y ≠ .error .insideCharacter) (hf : ∀ v, f v ≠ .error .insideCharacter) :
    (y >>= f) ≠ .error .insideCharacter := by
  cases y with
  | ok v => exact hf v
  | error fault => exact fun h => hy (congrArg Except.error (Except.error.inj h))

theorem readDigit_uncut : readDigit digits k ≠ .error .insideCharacter := by
  rw [readDigit]
  cases digits[k]? with
  | none => simp
  | some c =>
    simp only [readDoubled]
    cases Text.digit? 16 c <;> simp

/-- No text at all is cut inside a character. -/
theorem ofDigits_uncut : ofDigits text digits ≠ .error .insideCharacter := by
  by_cases h : digits.all Text.isAscii = true
  case neg => simp [ofDigits, h]
  case pos =>
    rw [ofDigits_of_ascii h]
    split
    case h_1 =>
      exact bind_uncut readDigit_uncut fun _ => bind_uncut readDigit_uncut fun _ =>
        bind_uncut readDigit_uncut fun _ => by simp [pure, Except.pure]
    case h_2 hlength =>
      have hpair (k : ℕ) (hk : k + 2 ≤ 6) : readPair digits k ≠ .error .insideCharacter :=
        readPair_uncut h (hlength ▸ hk)
      exact bind_uncut (hpair 0 (by decide)) fun _ => bind_uncut (hpair 2 (by decide)) fun _ =>
        bind_uncut (hpair 4 (by decide)) fun _ => by simp [pure, Except.pure]
    case h_3 hlength =>
      have hpair (k : ℕ) (hk : k + 2 ≤ 8) : readPair digits k ≠ .error .insideCharacter :=
        readPair_uncut h (hlength ▸ hk)
      exact bind_uncut (hpair 0 (by decide)) fun _ => bind_uncut (hpair 2 (by decide)) fun _ =>
        bind_uncut (hpair 4 (by decide)) fun _ => bind_uncut (hpair 6 (by decide)) fun _ => by
          simp [pure, Except.pure]
    case h_4 => simp

/-! ## Reading a text -/

/-- A text is a colour exactly as it is written, where pairs of characters are read as bytes. -/
theorem ofHex_eq_ok {s : String} : ofHex s = .ok colour ↔ Written SignedPair s colour := by
  rw [ofHex, ofDigits_eq_ok]
  constructor
  · intro h
    obtain ⟨before, after, hs, hbefore, hafter⟩ := Text.exists_trim s.toList
    obtain ⟨hash, hhash, htrim⟩ := exists_dropHash (Text.trim s.toList)
    refine ⟨before, hash, _, after, ?_, hbefore, hafter, hhash, h⟩
    rw [← htrim, ← hs]
  · rintro ⟨before, hash, digits, after, hs, hbefore, hafter, hhash, h⟩
    have hunblank : ∀ c ∈ hash ++ digits, Text.isBlank c = false := by
      intro c hc
      rcases List.mem_append.1 hc with hc | hc
      · rcases hhash with rfl | rfl
        · cases hc
        · rw [List.mem_singleton.1 hc]
          rfl
      · exact not_isBlank_of_mem_signs c (h.mem_signs c hc)
    rw [hs, Text.trim_surrounded hbefore hunblank hafter]
    have hdigits : dropHash digits = digits := dropHash_of_ne fun c hc =>
      ne_hash_of_mem_signs (h.mem_signs c hc)
    rcases hhash with rfl | rfl
    · rwa [List.nil_append, hdigits]
    · exact h

/-- The documented grammar is what is read without a plus sign. -/
theorem written_digitPair {s : String} :
    Written DigitPair s colour ↔ ofHex s = .ok colour ∧ '+' ∉ s.toList := by
  rw [ofHex_eq_ok]
  constructor
  · rintro ⟨before, hash, digits, after, hs, hbefore, hafter, hhash, h⟩
    obtain ⟨h, hdigits⟩ := spelled_digitPair.1 h
    refine ⟨⟨before, hash, digits, after, hs, hbefore, hafter, hhash, h⟩, fun hmem => ?_⟩
    have hblank : Text.isBlank '+' = false := rfl
    rw [hs, List.mem_append, List.mem_append, List.mem_append] at hmem
    rcases hmem with (hmem | hmem | hmem) | hmem
    · simp [hbefore _ hmem] at hblank
    · rcases hhash with rfl | rfl <;> simp at hmem
    · exact hdigits hmem
    · simp [hafter _ hmem] at hblank
  · rintro ⟨⟨before, hash, digits, after, hs, hbefore, hafter, hhash, h⟩, hplus⟩
    refine ⟨before, hash, digits, after, hs, hbefore, hafter, hhash, spelled_digitPair.2 ⟨h, ?_⟩⟩
    exact fun hmem => hplus (by simp [hs, hmem])

theorem ofHex_uncut (s : String) : ofHex s ≠ .error .insideCharacter := ofDigits_uncut

/-! ## Arguments -/

/-- An argument that starts with `#` is a colour if it can be read as one, else a text. -/
theorem ofText_hash (s : String) : Arg.ofText ("#" ++ s) = match ofHex ("#" ++ s) with
    | .ok c => .colour c
    | .error _ => .text ("#" ++ s) := by
  have hs : ("#" ++ s).toList = '#' :: s.toList := String.toList_append
  rw [Arg.ofText, hs]
  rfl

theorem ofText_hash_eq_colour {s : String} :
    Arg.ofText ("#" ++ s) = .colour colour ↔ ofHex ("#" ++ s) = .ok colour := by
  rw [ofText_hash]
  cases ofHex ("#" ++ s) <;> simp

theorem ofText_hash_eq_text {s : String} :
    Arg.ofText ("#" ++ s) = .text ("#" ++ s) ↔ ∀ c, ofHex ("#" ++ s) ≠ .ok c := by
  rw [ofText_hash]
  cases ofHex ("#" ++ s) <;> simp

/-- A text is read as a colour exactly if it is written as one, where a pair of characters may be a
plus sign and a digit; without a plus sign this is the documented grammar. No text is cut inside a
character. An argument that starts with `#` is a colour exactly if it is written as one, and else
the text that it was. -/
theorem ofHex_grammar (s : String) (c : Colour) :
    (ofHex s = .ok c ↔ Written SignedPair s c) ∧
    (Written DigitPair s c ↔ ofHex s = .ok c ∧ '+' ∉ s.toList) ∧
    ofHex s ≠ .error .insideCharacter ∧
    (Arg.ofText ("#" ++ s) = .colour c ↔ Written SignedPair ("#" ++ s) c) ∧
    (Arg.ofText ("#" ++ s) = .text ("#" ++ s) ↔ ∀ c', ¬Written SignedPair ("#" ++ s) c') := by
  refine ⟨ofHex_eq_ok, written_digitPair, ofHex_uncut s, ?_, ?_⟩
  · rw [ofText_hash_eq_colour, ofHex_eq_ok]
  · simp only [ofText_hash_eq_text, ne_eq, ofHex_eq_ok]

/-- Three pairs of a plus sign and a digit are read as a colour, in an argument too, although they
are no digits. -/
theorem ofHex_accepts_signs :
    ofHex "#+f+f+f" = .ok ⟨15, 15, 15, 255⟩ ∧
    Arg.ofText "#+f+f+f" = .colour ⟨15, 15, 15, 255⟩ ∧
    ¬∃ c, Written DigitPair "#+f+f+f" c := by
  refine ⟨by decide, by rfl, ?_⟩
  rintro ⟨c, h⟩
  exact (written_digitPair.1 h).2 (by decide)

end Easel.Colour
