import Easel.Proofs.Colour.Compositing
import Easel.Colour.Lighten

/-!
# Lightening

A hue gives each primary colour a share between zero and one, by how near it is on the wheel. A
channel is the lightness, moved up or down by its share of the chroma: the largest channel lies half
the chroma above the lightness and the smallest one half of it below. Going from channels to hue,
saturation and lightness and back is the identity, whichever channel is the largest. Where the
lightness grows, the chroma falls by twice as much at most, so no channel falls.
-/

namespace Easel.Colour

open scoped Rational

/-- The channel of a primary colour. -/
def Rgb.channel (c : Rgb ℚ) : Primary → ℚ
  | .red => c.red
  | .green => c.green
  | .blue => c.blue

/-! ## The wheel of hues -/

namespace Primary

/-- The place on the wheel of hues, in sixths of a turn from red. -/
def place : Primary → ℚ
  | red => 0
  | green => 2
  | blue => 4

/-- So many thirds of a turn on from red there is a primary colour, after a whole turn red again. -/
inductive At : Primary → ℤ → Prop where
  | red : At red 0
  | green : At green 1
  | blue : At blue 2
  | again : At red 3

/-- The distance around the wheel. -/
def distance (p : Primary) (x : ℚ) : ℚ := min |x - p.place| (6 - |x - p.place|)

/-- The primary colour that comes next on the wheel. -/
def next : Primary → Primary
  | red => green
  | green => blue
  | blue => red

theorem eq_or_next (p q : Primary) : q = p ∨ q = p.next ∨ q = p.next.next := by
  cases p <;> cases q <;> simp [next]

end Primary

/-- The share of a primary colour in the hue at a place of the wheel: all of it within a sixth of a
turn, and none at two sixths and more. -/
def share (x : ℚ) (p : Primary) : ℚ := max 0 (min 1 (2 - p.distance x))

theorem share_mem_Icc (x : ℚ) (p : Primary) : share x p ∈ Set.Icc 0 1 :=
  ⟨le_max_left _ _, max_le zero_le_one (min_le_left _ _)⟩

section Around

variable {p : Primary} {k : ℤ} {t x : ℚ}

/-- The distances of the primary colours, up to a sixth of a turn from one of them. -/
theorem distance_around (hp : p.At k) (h : |t| ≤ 1) (hx : 2 * k + t ∈ Set.Icc 0 6) :
    p.distance (2 * k + t) = |t| ∧ p.next.distance (2 * k + t) = 2 - t ∧
      p.next.next.distance (2 * k + t) = 2 + t := by
  obtain ⟨h0, h6⟩ := hx
  cases hp <;> push_cast at h0 h6 ⊢ <;>
    simp only [Primary.distance, Primary.place, Primary.next] <;> grind

/-- The nearest primary colour has its full share, and the one on the other side of the hue has as
much as the hue is away from the nearest. -/
theorem share_around (hp : p.At k) (h : |t| ≤ 1) (hx : 2 * k + t ∈ Set.Icc 0 6) :
    share (2 * k + t) p = 1 ∧ share (2 * k + t) p.next = max t 0 ∧
      share (2 * k + t) p.next.next = max (-t) 0 := by
  obtain ⟨hself, hnext, hlast⟩ := distance_around hp h hx
  rw [share, share, share, hself, hnext, hlast]
  grind

/-- The share of the primary colour that is neither nearest nor farthest. -/
def ripple (x : ℚ) : ℚ := 1 - |x - ⌊x * (1 / 2)⌋ * 2 - 1|

theorem ripple_around (k : ℤ) (h : |t| ≤ 1) : ripple (2 * k + t) = |t| := by
  obtain ⟨hlower, hupper⟩ := abs_le.1 h
  -- each third of a turn begins at a primary colour
  rcases lt_or_ge t 0 with ht | ht
  · have hfloor : ⌊(2 * k + t) * (1 / 2)⌋ = k - 1 :=
      Int.floor_eq_iff.2 ⟨by push_cast; linarith, by push_cast; linarith⟩
    rw [ripple, hfloor]
    push_cast
    grind
  · have hfloor : ⌊(2 * k + t) * (1 / 2)⌋ = k :=
      Int.floor_eq_iff.2 ⟨by linarith, by linarith⟩
    rw [ripple, hfloor]
    grind

/-- In the sixth of a turn behind a primary colour, the next one has what is left. -/
theorem shares_behind (hp : p.At k) (hx : x ∈ Set.Icc 0 6) (h : 2 * k ≤ x) (h' : x < 2 * k + 1) :
    share x p = 1 ∧ share x p.next = ripple x ∧ share x p.next.next = 0 := by
  obtain ⟨t, rfl⟩ : ∃ t, x = 2 * k + t := ⟨x - 2 * k, by ring⟩
  have h0 : 0 ≤ t := by linarith
  have h1 : |t| ≤ 1 := by rw [abs_of_nonneg h0]; linarith
  obtain ⟨hself, hnext, hlast⟩ := share_around hp h1 hx
  rw [hnext, hlast, ripple_around k h1, abs_of_nonneg h0]
  exact ⟨hself, max_eq_left h0, max_eq_right (by linarith)⟩

/-- In the sixth of a turn before a primary colour, the last one has what is left. -/
theorem shares_before (hp : p.At k) (hx : x ∈ Set.Icc 0 6) (h : 2 * k - 1 ≤ x) (h' : x < 2 * k) :
    share x p = 1 ∧ share x p.next = 0 ∧ share x p.next.next = ripple x := by
  obtain ⟨t, rfl⟩ : ∃ t, x = 2 * k + t := ⟨x - 2 * k, by ring⟩
  have h0 : t < 0 := by linarith
  have h1 : |t| ≤ 1 := by rw [abs_of_neg h0]; linarith
  obtain ⟨hself, hnext, hlast⟩ := share_around hp h1 hx
  rw [hnext, hlast, ripple_around k h1, abs_of_neg h0]
  exact ⟨hself, max_eq_right h0.le, max_eq_left (by linarith)⟩

/-- The shares by the six zones of the wheel. -/
theorem shares_eq (h : x ∈ Set.Ico 0 6) :
    (share x .red, share x .green, share x .blue) =
      if x < 0 then (1, 0, ripple x)
      else if x < 1 then (1, ripple x, 0)
      else if x < 2 then (ripple x, 1, 0)
      else if x < 3 then (0, 1, ripple x)
      else if x < 4 then (0, ripple x, 1)
      else if x < 5 then (ripple x, 0, 1)
      else (1, 0, ripple x) := by
  have hx : x ∈ Set.Icc 0 6 := Set.Ico_subset_Icc_self h
  obtain ⟨h0, h6⟩ := h
  split_ifs
  · linarith
  · obtain ⟨hred, hgreen, hblue⟩ := shares_behind .red hx (by push_cast; linarith)
      (by push_cast; linarith)
    exact Prod.ext hred (Prod.ext hgreen hblue)
  · obtain ⟨hgreen, hblue, hred⟩ := shares_before .green hx (by push_cast; linarith)
      (by push_cast; linarith)
    exact Prod.ext hred (Prod.ext hgreen hblue)
  · obtain ⟨hgreen, hblue, hred⟩ := shares_behind .green hx (by push_cast; linarith)
      (by push_cast; linarith)
    exact Prod.ext hred (Prod.ext hgreen hblue)
  · obtain ⟨hblue, hred, hgreen⟩ := shares_before .blue hx (by push_cast; linarith)
      (by push_cast; linarith)
    exact Prod.ext hred (Prod.ext hgreen hblue)
  · obtain ⟨hblue, hred, hgreen⟩ := shares_behind .blue hx (by push_cast; linarith)
      (by push_cast; linarith)
    exact Prod.ext hred (Prod.ext hgreen hblue)
  · obtain ⟨hred, hgreen, hblue⟩ := shares_before .again hx (by push_cast; linarith)
      (by push_cast; linarith)
    exact Prod.ext hred (Prod.ext hgreen hblue)

end Around

namespace Hsl

/-- The place of the hue on the wheel. -/
def place (c : Hsl ℚ) : ℚ := (c.hue - ⌊c.hue / 360⌋ * 360) / 60

/-- By how much the largest channel exceeds the smallest one. -/
def chroma (c : Hsl ℚ) : ℚ := (1 - |2 * c.lightness - 1|) * c.saturation

/-- A channel before it is cut to its range. -/
def shade (c : Hsl ℚ) (p : Primary) : ℚ := c.lightness + (share c.place p - 1 / 2) * c.chroma

theorem place_mem_Ico (c : Hsl ℚ) : c.place ∈ Set.Ico 0 6 := by
  have hle := Int.floor_le (c.hue / 360)
  have hlt := Int.lt_floor_add_one (c.hue / 360)
  rw [place]
  constructor <;> linarith

/-- The place of a hue that is up to a sixth of a turn away from a primary colour. -/
theorem exists_place_eq {c : Hsl ℚ} (p : Primary) {t : ℚ} (hhue : c.hue = (t + p.place) * 60)
    (h : |t| ≤ 1) : ∃ k, p.At k ∧ c.place = 2 * k + t := by
  obtain ⟨hlower, hupper⟩ := abs_le.1 h
  have hfloor (n : ℤ) (hn : 6 * n ≤ t + p.place) (hn' : t + p.place < 6 * n + 6) :
      c.place = t + p.place - 6 * n := by
    have hturns : ⌊c.hue / 360⌋ = n :=
      Int.floor_eq_iff.2 ⟨by rw [hhue]; linarith, by rw [hhue]; linarith⟩
    rw [place, hturns, hhue]
    ring
  cases p with
  | red =>
    simp only [Primary.place] at hfloor
    -- a hue just before red is at the end of the wheel
    rcases lt_or_ge t 0 with ht | ht
    · refine ⟨3, .again, ?_⟩
      rw [hfloor (-1) (by push_cast; linarith) (by push_cast; linarith)]
      push_cast
      ring
    · refine ⟨0, .red, ?_⟩
      rw [hfloor 0 (by push_cast; linarith) (by push_cast; linarith)]
      push_cast
      ring
  | green =>
    simp only [Primary.place] at hfloor
    refine ⟨1, .green, ?_⟩
    rw [hfloor 0 (by push_cast; linarith) (by push_cast; linarith)]
    push_cast
    ring
  | blue =>
    simp only [Primary.place] at hfloor
    refine ⟨2, .blue, ?_⟩
    rw [hfloor 0 (by push_cast; linarith) (by push_cast; linarith)]
    push_cast
    ring

/-- A channel is its shade, cut to its range. -/
theorem channel_toRgb (c : Hsl ℚ) (p : Primary) :
    c.toRgb.channel p = max 0 (min 1 (c.shade p)) := by
  have hshares := shares_eq c.place_mem_Ico
  have hplace : (c.hue - ⌊c.hue / 360⌋ * 360) / 60 = c.place := rfl
  have hchroma : (1 - |2 * c.lightness - 1|) * c.saturation = c.chroma := rfl
  have hripple : 1 - |c.place - ⌊c.place * (1 / 2)⌋ * 2 - 1| = ripple c.place := rfl
  have hshade : c.shade p = c.chroma * share c.place p + (c.lightness - c.chroma * (1 / 2)) := by
    rw [shade]
    ring
  simp only [Hsl.toRgb, Rational.ofNat_eq, Rational.half_eq, Rational.clamp_zero_one,
    Rational.abs_eq, Rational.ofInt_eq, Rational.floor_eq, hplace, hchroma, hripple]
  rw [hshade]
  split_ifs at hshares ⊢ <;> simp only [Prod.mk.injEq] at hshares <;> cases p <;>
    simp only [Rgb.channel, hshares, mul_one, mul_zero]

end Hsl

/-! ## From channels to hues -/

namespace Rgb

/-- The largest channel, with the other two in their order around the wheel. -/
theorem exists_largest (c : Rgb ℚ) : ∃ p : Primary,
    c.channel p.next ≤ c.channel p ∧ c.channel p.next.next ≤ c.channel p ∧
      c.extremes = ⟨c.channel p, min (c.channel p.next) (c.channel p.next.next),
        c.channel p.next - c.channel p.next.next, p.place⟩ := by
  simp only [extremes, Rational.ofNat_eq]
  rcases lt_or_ge c.green c.red with hred | hred
  · simp only [if_pos hred]
    rcases lt_or_ge c.red c.blue with hblue | hblue
    · rw [if_pos hblue]
      exact ⟨.blue, hblue.le, (hred.trans hblue).le, by
        simp only [channel, Primary.next, Primary.place, min_eq_right hred.le]⟩
    · rw [if_neg hblue.not_gt]
      refine ⟨.red, hred.le, hblue, ?_⟩
      rcases lt_or_ge c.blue c.green with hgreen | hgreen
      · simp only [if_pos hgreen, channel, Primary.next, Primary.place, min_eq_right hgreen.le]
      · simp only [if_neg hgreen.not_gt, channel, Primary.next, Primary.place, min_eq_left hgreen]
  · simp only [if_neg hred.not_gt]
    rcases lt_or_ge c.green c.blue with hblue | hblue
    · rw [if_pos hblue]
      exact ⟨.blue, hred.trans hblue.le, hblue.le, by
        simp only [channel, Primary.next, Primary.place, min_eq_left hred]⟩
    · rw [if_neg hblue.not_gt]
      refine ⟨.green, hblue, hred, ?_⟩
      rcases lt_or_ge c.blue c.red with hgreen | hgreen
      · simp only [if_pos hgreen, channel, Primary.next, Primary.place, min_eq_left hgreen.le]
      · simp only [if_neg hgreen.not_gt, channel, Primary.next, Primary.place, min_eq_right hgreen]

/-- Every channel is in the range of channels. -/
def IsInRange (c : Rgb ℚ) : Prop := ∀ p, c.channel p ∈ Set.Icc 0 1

variable {c : Rgb ℚ}

theorem extremes_mem (hc : c.IsInRange) :
    0 ≤ c.extremes.smallest ∧ c.extremes.smallest ≤ c.extremes.largest ∧
      c.extremes.largest ≤ 1 := by
  obtain ⟨p, hnext, -, hextremes⟩ := c.exists_largest
  rw [hextremes]
  exact ⟨le_min (hc _).1 (hc _).1, (min_le_left _ _).trans hnext, (hc p).2⟩

theorem toHsl_of_grey (h : c.extremes.largest = c.extremes.smallest) :
    c.toHsl = ⟨0, 0, max 0 (min 1 ((c.extremes.largest + c.extremes.smallest) / 2))⟩ := by
  simp only [toHsl, Rational.ofNat_eq, Rational.clamp_zero_one, beq_iff_eq, if_pos h]

theorem toHsl_of_ne (h : c.extremes.largest ≠ c.extremes.smallest) :
    c.toHsl = ⟨(c.extremes.separation / (c.extremes.largest - c.extremes.smallest) +
        c.extremes.sector) * 60,
      max 0 (min 1 (if 1 < c.extremes.largest + c.extremes.smallest then
        (c.extremes.largest - c.extremes.smallest) /
          (2 - (c.extremes.largest + c.extremes.smallest))
        else (c.extremes.largest - c.extremes.smallest) /
          (c.extremes.largest + c.extremes.smallest))),
      max 0 (min 1 ((c.extremes.largest + c.extremes.smallest) / 2))⟩ := by
  simp only [toHsl, Rational.ofNat_eq, Rational.clamp_zero_one, beq_iff_eq, if_neg h]

theorem lightness_toHsl (hc : c.IsInRange) :
    c.toHsl.lightness = (c.extremes.largest + c.extremes.smallest) / 2 := by
  obtain ⟨h0, hle, h1⟩ := extremes_mem hc
  have hcut : max 0 (min 1 ((c.extremes.largest + c.extremes.smallest) / 2)) =
      (c.extremes.largest + c.extremes.smallest) / 2 := by
    rw [min_eq_right (by linarith), max_eq_right (by linarith)]
  by_cases h : c.extremes.largest = c.extremes.smallest
  · rw [toHsl_of_grey h, hcut]
  · rw [toHsl_of_ne h, hcut]

theorem saturation_toHsl_mem (c : Rgb ℚ) : c.toHsl.saturation ∈ Set.Icc 0 1 := by
  by_cases h : c.extremes.largest = c.extremes.smallest
  · rw [toHsl_of_grey h]
    exact ⟨le_rfl, zero_le_one⟩
  · rw [toHsl_of_ne h]
    exact ⟨le_max_left _ _, max_le zero_le_one (min_le_left _ _)⟩

/-- The saturation is the chroma as a share of what the lightness has room for. -/
theorem saturation_toHsl (hc : c.IsInRange) (h : c.extremes.smallest < c.extremes.largest) :
    c.toHsl.saturation = (c.extremes.largest - c.extremes.smallest) /
      (1 - |c.extremes.largest + c.extremes.smallest - 1|) := by
  obtain ⟨h0, -, h1⟩ := extremes_mem hc
  rw [toHsl_of_ne h.ne']
  generalize c.extremes.largest = l at *
  generalize c.extremes.smallest = s at *
  have hroom : l - s ≤ 1 - |l + s - 1| := by grind
  have hquotient : (if 1 < l + s then (l - s) / (2 - (l + s)) else (l - s) / (l + s)) =
      (l - s) / (1 - |l + s - 1|) := by
    split_ifs with hsum
    · rw [abs_of_pos (by linarith)]
      ring_nf
    · rw [abs_of_nonpos (by linarith)]
      ring_nf
  have hle : (l - s) / (1 - |l + s - 1|) ≤ 1 := (div_le_one (by linarith)).2 hroom
  have hnonneg : 0 ≤ (l - s) / (1 - |l + s - 1|) := div_nonneg (by linarith) (by linarith)
  rw [hquotient, min_eq_right hle, max_eq_right hnonneg]

/-- The chroma is by how much the largest channel exceeds the smallest. -/
theorem chroma_toHsl (hc : c.IsInRange) :
    c.toHsl.chroma = c.extremes.largest - c.extremes.smallest := by
  obtain ⟨h0, hle, h1⟩ := extremes_mem hc
  rw [Hsl.chroma, lightness_toHsl hc, mul_div_cancel₀ _ two_ne_zero]
  rcases hle.eq_or_lt with h | h
  · rw [toHsl_of_grey h.symm, mul_zero, h, sub_self]
  · have hroom : 0 < 1 - |c.extremes.largest + c.extremes.smallest - 1| := by grind
    rw [saturation_toHsl hc h, mul_div_cancel₀ _ hroom.ne']

/-- The share of a primary colour in the hue is that of its channel in the chroma. -/
theorem share_toHsl (c : Rgb ℚ) (q : Primary) :
    share c.toHsl.place q * (c.extremes.largest - c.extremes.smallest) =
      c.channel q - c.extremes.smallest := by
  obtain ⟨p, hnext, hlast, hextremes⟩ := c.exists_largest
  have hlargest : c.extremes.largest = c.channel p := by rw [hextremes]
  have hsmallest : c.extremes.smallest = min (c.channel p.next) (c.channel p.next.next) := by
    rw [hextremes]
  obtain ⟨d, hd⟩ : ∃ d, d = c.extremes.largest - c.extremes.smallest := ⟨_, rfl⟩
  rw [← hd]
  by_cases h : c.extremes.largest = c.extremes.smallest
  · -- all channels are equal
    rw [hd, h, sub_self, mul_zero]
    rw [hlargest, hsmallest] at h
    rcases p.eq_or_next q with rfl | rfl | rfl <;> grind
  · have hpos : 0 < d := by grind
    obtain ⟨t, ht⟩ : ∃ t, t = c.extremes.separation / d := ⟨_, rfl⟩
    have htd : t * d = c.channel p.next - c.channel p.next.next := by
      rw [ht, div_mul_cancel₀ _ hpos.ne', hextremes]
    have hturn : |t| ≤ 1 := by
      rw [ht, abs_div, abs_of_pos hpos, div_le_one hpos, hextremes]
      grind
    have hhue : c.toHsl.hue = (t + p.place) * 60 := by
      rw [toHsl_of_ne h, ht, hd, hextremes]
    obtain ⟨k, hk, hplace⟩ := Hsl.exists_place_eq p hhue hturn
    have hmem := Set.Ico_subset_Icc_self c.toHsl.place_mem_Ico
    rw [hplace] at hmem ⊢
    obtain ⟨hself, hsecond, hthird⟩ := share_around hk hturn hmem
    rcases p.eq_or_next q with rfl | rfl | rfl
    · rw [hself, one_mul, hd, hlargest]
    · rw [hsecond, max_mul_of_nonneg _ _ hpos.le, htd, zero_mul, hsmallest]
      grind
    · rw [hthird, max_mul_of_nonneg _ _ hpos.le, neg_mul, htd, zero_mul, hsmallest]
      grind

/-- **There and back.** A colour is taken back to from its hue, saturation and lightness. -/
theorem shade_toHsl (hc : c.IsInRange) (q : Primary) : c.toHsl.shade q = c.channel q := by
  have hshare := share_toHsl c q
  rw [Hsl.shade, chroma_toHsl hc, lightness_toHsl hc]
  linarith

end Rgb

/-! ## Lighter colours -/

namespace Hsl

variable {c d : Hsl ℚ}

/-- With the lightness no channel falls, since the chroma changes by at most twice as much and a
channel moves by at most half of the chroma. -/
theorem shade_mono (hhue : c.hue = d.hue) (hsaturation : c.saturation = d.saturation)
    (hs : d.saturation ∈ Set.Icc 0 1) (hle : c.lightness ≤ d.lightness) (p : Primary) :
    c.shade p ≤ d.shade p := by
  obtain ⟨hs0, hs1⟩ := hs
  obtain ⟨hw0, hw1⟩ := share_mem_Icc d.place p
  have hplace : c.place = d.place := by rw [place, place, hhue]
  rw [shade, shade, chroma, chroma, hplace, hsaturation]
  generalize share d.place p = w at *
  generalize d.saturation = s at *
  have hweight : |(w - 1 / 2) * s| ≤ 1 / 2 := by
    rw [abs_mul, abs_of_nonneg hs0]
    exact (mul_le_of_le_one_right (abs_nonneg _) hs1).trans (abs_le.2 ⟨by linarith, by linarith⟩)
  have hroom : |(|2 * d.lightness - 1| - |2 * c.lightness - 1|)| ≤
      2 * (d.lightness - c.lightness) := by
    refine (abs_abs_sub_abs_le _ _).trans_eq ?_
    rw [abs_of_nonneg (by linarith)]
    ring
  -- what the channel loses with its share of the chroma is at most what it gains in lightness
  have hproduct := mul_le_mul hweight hroom (abs_nonneg _) (by norm_num)
  rw [← abs_mul] at hproduct
  have hbelow := (abs_le.1 hproduct).2
  linarith

theorem hue_lighten (percent : ℚ) (c : Hsl ℚ) : (c.lighten percent).hue = c.hue := by
  rw [lighten]

theorem saturation_lighten (percent : ℚ) (c : Hsl ℚ) :
    (c.lighten percent).saturation = c.saturation := by
  rw [lighten]

theorem lightness_lighten (percent : ℚ) (c : Hsl ℚ) :
    (c.lighten percent).lightness =
      max 0 (min 1 (c.lightness + (1 - c.lightness) * max 0 (min 1 (percent / 100)))) := by
  simp only [lighten, Rational.ofNat_eq, Rational.clamp_zero_one]

end Hsl

/-- The channels as fractions of full scale. -/
def fractions (c : Colour) : Rgb ℚ := ⟨fraction ℚ c.red, fraction ℚ c.green, fraction ℚ c.blue⟩

/-- The colour on the way to white, before it goes back to channels. -/
def lighter (percent : ℚ) (c : Colour) : Hsl ℚ := c.fractions.toHsl.lighten percent

variable {percent percent' : ℚ}

theorem channel_fractions (c : Colour) (p : Primary) :
    c.fractions.channel p = fraction ℚ (c.channel p) := by
  cases p <;> rfl

theorem fractions_isInRange (c : Colour) : c.fractions.IsInRange := fun p => by
  rw [channel_fractions]
  exact ⟨fraction_nonneg _, fraction_le_one _⟩

theorem channel_lightenAt (percent : ℚ) (c : Colour) (p : Primary) :
    (lightenAt percent c).channel p =
      toByte (max 0 (min 1 ((lighter percent c).shade p)) * 255) := by
  rw [← Hsl.channel_toRgb]
  cases p <;> simp only [lightenAt, Rational.ofNat_eq] <;> rfl

theorem hue_lighter (percent : ℚ) (c : Colour) :
    (lighter percent c).hue = c.fractions.toHsl.hue := by
  rw [lighter, Hsl.hue_lighten]

theorem saturation_lighter (percent : ℚ) (c : Colour) :
    (lighter percent c).saturation = c.fractions.toHsl.saturation := by
  rw [lighter, Hsl.saturation_lighten]

/-- The lightness goes the given share of the way to one. -/
theorem lightness_lighter (percent : ℚ) (c : Colour) :
    (lighter percent c).lightness = c.fractions.toHsl.lightness +
      (1 - c.fractions.toHsl.lightness) * max 0 (min 1 (percent / 100)) := by
  obtain ⟨h0, hle, h1⟩ := Rgb.extremes_mem c.fractions_isInRange
  have hlight := Rgb.lightness_toHsl c.fractions_isInRange
  have hshare0 : 0 ≤ max 0 (min 1 (percent / 100)) := le_max_left _ _
  have hshare1 : max 0 (min 1 (percent / 100)) ≤ 1 := max_le zero_le_one (min_le_left _ _)
  have hdark : 0 ≤ 1 - c.fractions.toHsl.lightness := by linarith
  have hway := mul_le_of_le_one_right hdark hshare1
  rw [lighter, Hsl.lightness_lighten, min_eq_right (by linarith),
    max_eq_right (by linarith [mul_nonneg hdark hshare0])]

theorem lightness_lighter_mono (c : Colour) (h : percent ≤ percent') :
    (lighter percent c).lightness ≤ (lighter percent' c).lightness := by
  obtain ⟨h0, hle, h1⟩ := Rgb.extremes_mem c.fractions_isInRange
  have hlight := Rgb.lightness_toHsl c.fractions_isInRange
  have hdark : 0 ≤ 1 - c.fractions.toHsl.lightness := by linarith
  rw [lightness_lighter, lightness_lighter]
  gcongr

theorem lightenAt_mono (c : Colour) (h : percent ≤ percent') (p : Primary) :
    (lightenAt percent c).channel p ≤ (lightenAt percent' c).channel p := by
  have hshade : (lighter percent c).shade p ≤ (lighter percent' c).shade p := by
    refine Hsl.shade_mono ?_ ?_ ?_ (lightness_lighter_mono c h) p
    · rw [hue_lighter, hue_lighter]
    · rw [saturation_lighter, saturation_lighter]
    · rw [saturation_lighter]
      exact c.fractions.saturation_toHsl_mem
  rw [channel_lightenAt, channel_lightenAt]
  refine toByte_mono (by positivity) (by gcongr) ?_
  linarith [max_le zero_le_one (min_le_left 1 ((lighter percent' c).shade p))]

/-- Without any way to go, a colour is taken to hue, saturation and lightness and back. -/
theorem lightenAt_of_nonpos (c : Colour) (h : percent ≤ 0) : lightenAt percent c = c := by
  have hshare : max 0 (min 1 (percent / 100)) = 0 :=
    max_eq_left ((min_le_right _ _).trans (by linarith))
  have hlight : (lighter percent c).lightness = c.fractions.toHsl.lightness := by
    rw [lightness_lighter, hshare, mul_zero, add_zero]
  have hsame : lighter percent c = c.fractions.toHsl :=
    congrArg (Hsl.mk c.fractions.toHsl.hue c.fractions.toHsl.saturation) hlight
  refine eq_of_channel (fun p => ?_) rfl
  rw [channel_lightenAt, hsame, Rgb.shade_toHsl c.fractions_isInRange, channel_fractions,
    min_eq_right (fraction_le_one _), max_eq_right (fraction_nonneg _), fraction_mul_full,
    toByte_toNat]

/-- All the way, there is no chroma left. -/
theorem lightenAt_of_full (c : Colour) (h : 100 ≤ percent) :
    lightenAt percent c = { white with alpha := c.alpha } := by
  have hshare : max 0 (min 1 (percent / 100)) = 1 := by
    rw [min_eq_left (by linarith), max_eq_right zero_le_one]
  have hlight : (lighter percent c).lightness = 1 := by
    rw [lightness_lighter, hshare]
    ring
  have hshade (p : Primary) : (lighter percent c).shade p = 1 := by
    rw [Hsl.shade, Hsl.chroma, hlight]
    norm_num
  refine eq_of_channel (fun p => ?_) rfl
  rw [channel_lightenAt, hshade, min_self, max_eq_right zero_le_one, one_mul, toByte_full]
  cases p <;> rfl

/-- **Lightening only lightens.** In exact numbers, for every colour and every percentage: no
channel falls below that of the colour, nor when the percentage grows, and the opacity stays; up to
zero percent the colour is unchanged, and from a hundred percent on it is white. -/
theorem lighten_lightens (c : Colour) :
    (∀ percent : ℚ, (c.lightenAt percent).alpha = c.alpha ∧
      ∀ p, c.channel p ≤ (c.lightenAt percent).channel p) ∧
    (∀ percent percent' : ℚ, percent ≤ percent' →
      ∀ p, (c.lightenAt percent).channel p ≤ (c.lightenAt percent').channel p) ∧
    (∀ percent : ℚ, percent ≤ 0 → c.lightenAt percent = c) ∧
    ∀ percent : ℚ, 100 ≤ percent → c.lightenAt percent = { white with alpha := c.alpha } := by
  refine ⟨fun percent => ⟨rfl, fun p => ?_⟩, fun _ _ => lightenAt_mono c,
    fun _ => lightenAt_of_nonpos c, fun _ => lightenAt_of_full c⟩
  have hmono := lightenAt_mono c (min_le_left percent 0) p
  rwa [lightenAt_of_nonpos c (min_le_right percent 0)] at hmono

theorem lighten_lightens_maroon :
    (⟨100, 20, 20, 255⟩ : Colour).lightenAt (50 : ℚ) = ⟨223, 93, 93, 255⟩ ∧
      (∀ p, (⟨223, 93, 93, 255⟩ : Colour).channel p ≤
        ((⟨100, 20, 20, 255⟩ : Colour).lightenAt (75 : ℚ)).channel p) ∧
      (⟨100, 20, 20, 255⟩ : Colour).lightenAt (-5 : ℚ) = ⟨100, 20, 20, 255⟩ ∧
      (⟨100, 20, 20, 255⟩ : Colour).lightenAt (120 : ℚ) = ⟨255, 255, 255, 255⟩ := by
  have hhalf : (⟨100, 20, 20, 255⟩ : Colour).lightenAt (50 : ℚ) = ⟨223, 93, 93, 255⟩ := by
    decide +kernel
  obtain ⟨-, hmono, hnone, hfull⟩ := lighten_lightens ⟨100, 20, 20, 255⟩
  refine ⟨hhalf, fun p => ?_, hnone (-5) (by norm_num), hfull 120 (by norm_num)⟩
  rw [← hhalf]
  exact hmono 50 75 (by norm_num) p

end Easel.Colour
