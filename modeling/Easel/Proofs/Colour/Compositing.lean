import Easel.Proofs.Number.Rational
import Easel.Colour.Blend

/-!
# Compositing

A colour laid over another takes the mean of the two, channel by channel. Each counts by how much of
its layer shows: the upper one by its opacity, the lower one by its opacity as far as the upper one
lets it through. Computed in fractions, the mean is always between the two channels and the opacity
is never less than that of either layer, so nothing is lost where they become bytes. An opaque and a
transparent upper layer, which have rules of their own, follow the general rule.
-/

namespace Easel.Colour

open scoped Rational

/-! ## Channels -/

/-- The colours that others are mixed from. -/
inductive Primary where
  | red
  | green
  | blue

/-- The channel of a primary colour. -/
def channel (c : Colour) : Primary → UInt8
  | .red => c.red
  | .green => c.green
  | .blue => c.blue

theorem eq_of_channel {c d : Colour} (h : ∀ p, c.channel p = d.channel p)
    (halpha : c.alpha = d.alpha) : c = d := by
  obtain ⟨r, g, b, a⟩ := c
  obtain ⟨r', g', b', a'⟩ := d
  obtain rfl : r = r' := h .red
  obtain rfl : g = g' := h .green
  obtain rfl : b = b' := h .blue
  obtain rfl : a = a' := halpha
  rfl

/-! ## Bytes and fractions -/

theorem ofByte_eq (b : UInt8) : ofByte ℚ b = b.toNat := Int.cast_natCast _

theorem fraction_eq (b : UInt8) : fraction ℚ b = b.toNat / 255 := by
  rw [fraction, ofByte_eq, Rational.ofNat_eq]

theorem toNat_le_full (b : UInt8) : (b.toNat : ℚ) ≤ 255 := by
  exact_mod_cast Nat.le_of_lt_succ b.toNat_lt

theorem fraction_nonneg (b : UInt8) : 0 ≤ fraction ℚ b := by
  rw [fraction_eq]
  positivity

theorem fraction_le_one (b : UInt8) : fraction ℚ b ≤ 1 := by
  rw [fraction_eq, div_le_one (by norm_num)]
  exact toNat_le_full b

theorem fraction_mul_full (b : UInt8) : fraction ℚ b * 255 = b.toNat := by
  rw [fraction_eq, div_mul_cancel₀ _ (by norm_num)]

theorem fraction_zero : fraction ℚ 0 = 0 := by
  have hbyte : (0 : UInt8).toNat = 0 := rfl
  rw [fraction_eq, hbyte, Nat.cast_zero, zero_div]

theorem fraction_full : fraction ℚ 255 = 1 := by
  have hbyte : (255 : UInt8).toNat = 255 := rfl
  rw [fraction_eq, hbyte, Nat.cast_ofNat, div_self (by norm_num)]

/-- A number up to 255 becomes the nearest byte. -/
theorem toNat_toByte {x : ℚ} (h0 : 0 ≤ x) (h1 : x ≤ 255) :
    ((toByte x).toNat : ℤ) = Scalar.round x := by
  have hround0 := Rational.round_nonneg h0
  have hround1 : Scalar.round x ≤ (255 : ℕ) := by
    rw [← Rational.round_whole]
    exact Rational.round_mono h0 h1
  have htoNat : (toByte x).toNat = min (Scalar.round x).toNat 255 :=
    Nat.mod_eq_of_lt (by omega)
  omega

theorem toNat_toByte_mem_Icc {a b : ℕ} {x : ℚ} (h : x ∈ Set.Icc (a : ℚ) b) (hb : b ≤ 255) :
    (toByte x).toNat ∈ Set.Icc a b := by
  have h0 : 0 ≤ x := a.cast_nonneg.trans h.1
  have hb' : (b : ℚ) ≤ 255 := by exact_mod_cast hb
  have hlower := Rational.round_mono a.cast_nonneg h.1
  have hupper := Rational.round_mono h0 h.2
  rw [Rational.round_whole, ← toNat_toByte h0 (h.2.trans hb')] at hlower hupper
  exact ⟨Int.ofNat_le.1 hlower, Int.ofNat_le.1 hupper⟩

theorem toByte_mono {x y : ℚ} (h0 : 0 ≤ x) (hxy : x ≤ y) (h1 : y ≤ 255) :
    toByte x ≤ toByte y := by
  have hround := Rational.round_mono h0 hxy
  rw [← toNat_toByte h0 (hxy.trans h1), ← toNat_toByte (h0.trans hxy) h1] at hround
  exact UInt8.le_iff_toNat_le.2 (Int.ofNat_le.1 hround)

theorem toByte_toNat (b : UInt8) : toByte (b.toNat : ℚ) = b := by
  have h := toNat_toByte (Nat.cast_nonneg b.toNat) (toNat_le_full b)
  rw [Rational.round_whole] at h
  exact UInt8.toNat_inj.1 (Int.ofNat_inj.1 h)

theorem toByte_full : toByte (255 : ℚ) = 255 := by
  have h := toByte_toNat 255
  rwa [← fraction_mul_full, fraction_full, one_mul] at h

/-! ## Exact layers -/

/-- The opacity of `source` over `dest`, before it becomes a byte. -/
def exactAlpha (source dest : Colour) : ℚ :=
  layeredAlpha (fraction ℚ source.alpha) (fraction ℚ dest.alpha)

/-- A channel of `source` over `dest`, before it becomes a byte. -/
def exactChannel (source dest : Colour) (p : Primary) : ℚ :=
  layeredChannel (source.channel p) (dest.channel p) (fraction ℚ source.alpha)
    (fraction ℚ dest.alpha)

/-- How much of `dest` shows through `source`. -/
def shownThrough (source dest : Colour) : ℚ :=
  fraction ℚ dest.alpha * (1 - fraction ℚ source.alpha)

variable {source dest : Colour} {p : Primary}

theorem shownThrough_nonneg (source dest : Colour) : 0 ≤ shownThrough source dest :=
  mul_nonneg (fraction_nonneg _) (sub_nonneg.2 (fraction_le_one _))

theorem exactAlpha_eq (source dest : Colour) :
    exactAlpha source dest = fraction ℚ source.alpha + shownThrough source dest := by
  rw [exactAlpha, layeredAlpha, Rational.ofNat_eq, shownThrough]

theorem exactChannel_eq (source dest : Colour) (p : Primary) :
    exactChannel source dest p =
      ((source.channel p).toNat * fraction ℚ source.alpha +
        (dest.channel p).toNat * shownThrough source dest) / exactAlpha source dest := by
  rw [exactChannel, layeredChannel, ofByte_eq, ofByte_eq, Rational.ofNat_eq, shownThrough,
    exactAlpha, mul_assoc]

theorem exactAlpha_nonneg (source dest : Colour) : 0 ≤ exactAlpha source dest := by
  rw [exactAlpha_eq]
  exact add_nonneg (fraction_nonneg _) (shownThrough_nonneg _ _)

theorem fraction_source_le (source dest : Colour) :
    fraction ℚ source.alpha ≤ exactAlpha source dest := by
  rw [exactAlpha_eq]
  exact le_add_of_nonneg_right (shownThrough_nonneg _ _)

/-- The opacity exceeds that of the lower layer by what the lower layer lets through of the upper
one. -/
theorem fraction_dest_le (source dest : Colour) :
    fraction ℚ dest.alpha ≤ exactAlpha source dest := by
  rw [exactAlpha_eq, shownThrough]
  linarith [mul_nonneg (fraction_nonneg source.alpha) (sub_nonneg.2 (fraction_le_one dest.alpha))]

theorem exactAlpha_le_one (source dest : Colour) : exactAlpha source dest ≤ 1 := by
  have hshown : shownThrough source dest ≤ 1 - fraction ℚ source.alpha :=
    mul_le_of_le_one_left (sub_nonneg.2 (fraction_le_one _)) (fraction_le_one _)
  rw [exactAlpha_eq]
  linarith

/-- Only two transparent layers are nowhere opaque. -/
theorem exactAlpha_pos (h : source.alpha ≠ 0) : 0 < exactAlpha source dest := by
  have hpos : 0 < source.alpha.toNat := Nat.pos_of_ne_zero fun h0 => h (UInt8.toNat_inj.1 h0)
  refine lt_of_lt_of_le ?_ (fraction_source_le source dest)
  rw [fraction_eq]
  positivity

/-! ## Means -/

/-- The mean of two numbers lies between them. -/
theorem mean_mem_Icc {x y p q : ℚ} (hp : 0 ≤ p) (hq : 0 ≤ q) (h : 0 < p + q) :
    (x * p + y * q) / (p + q) ∈ Set.Icc (min x y) (max x y) := by
  rw [Set.mem_Icc, le_div_iff₀ h, div_le_iff₀ h, mul_add, mul_add]
  constructor
  · gcongr
    · exact min_le_left x y
    · exact min_le_right x y
  · gcongr
    · exact le_max_left x y
    · exact le_max_right x y

/-- The exact channel lies between the channels of the layers, wherever there is one. -/
theorem exactChannel_mem_Icc (h : exactAlpha source dest ≠ 0) :
    exactChannel source dest p ∈
      Set.Icc (min (source.channel p).toNat (dest.channel p).toNat : ℚ)
        (max (source.channel p).toNat (dest.channel p).toNat) := by
  have hpos := lt_of_le_of_ne (exactAlpha_nonneg source dest) h.symm
  rw [exactAlpha_eq] at hpos
  rw [exactChannel_eq, exactAlpha_eq]
  exact mean_mem_Icc (fraction_nonneg _) (shownThrough_nonneg _ _) hpos

/-- The exact channels weighted by the opacity are the weighted channels of the layers. -/
theorem exactChannel_mul_exactAlpha (h : exactAlpha source dest ≠ 0) :
    exactChannel source dest p * exactAlpha source dest =
      (source.channel p).toNat * fraction ℚ source.alpha +
        (dest.channel p).toNat * shownThrough source dest := by
  rw [exactChannel_eq, div_mul_cancel₀ _ h]

/-! ## The general rule -/

theorem channel_composite (source dest : Colour) (p : Primary) :
    (composite ℚ source dest).channel p = toByte (exactChannel source dest p) := by
  cases p <;> rfl

theorem alpha_composite_eq (source dest : Colour) :
    (composite ℚ source dest).alpha = toByte (exactAlpha source dest * 255) := by
  rw [composite, exactAlpha, Rational.ofNat_eq]

/-- Where the exact values are those of a colour, the general rule gives this colour. -/
theorem composite_eq_of_exact {result : Colour}
    (hchannel : ∀ p, exactChannel source dest p = (result.channel p).toNat)
    (halpha : exactAlpha source dest * 255 = result.alpha.toNat) :
    composite ℚ source dest = result := by
  refine eq_of_channel (fun p => ?_) ?_
  · rw [channel_composite, hchannel, toByte_toNat]
  · rw [alpha_composite_eq, halpha, toByte_toNat]

theorem composite_of_full (h : source.alpha = 255) : composite ℚ source dest = source := by
  have hfull : fraction ℚ source.alpha = 1 := by rw [h, fraction_full]
  have hshown : shownThrough source dest = 0 := by rw [shownThrough, hfull, sub_self, mul_zero]
  refine composite_eq_of_exact (fun p => ?_) ?_
  · rw [exactChannel_eq, exactAlpha_eq, hfull, hshown, mul_one, mul_zero, add_zero, add_zero,
      div_one]
  · rw [exactAlpha_eq, hshown, add_zero, fraction_mul_full]

theorem composite_of_clear (h : source.alpha = 0) (hdest : exactAlpha source dest ≠ 0) :
    composite ℚ source dest = dest := by
  have hnone : fraction ℚ source.alpha = 0 := by rw [h, fraction_zero]
  have hshown : exactAlpha source dest = shownThrough source dest := by
    rw [exactAlpha_eq, hnone, zero_add]
  refine composite_eq_of_exact (fun p => ?_) ?_
  · rw [exactChannel_eq, hnone, mul_zero, zero_add, hshown, mul_div_cancel_right₀]
    rwa [hshown] at hdest
  · rw [hshown, shownThrough, hnone, sub_zero, mul_one, fraction_mul_full]

/-- The rules for an opaque and for a transparent upper layer agree with the general rule wherever
that one is defined. -/
theorem ontoAt_eq_composite (h : exactAlpha source dest ≠ 0) :
    ontoAt ℚ source dest = composite ℚ source dest := by
  rw [ontoAt]
  split
  case isTrue hopaque => exact (composite_of_full hopaque).symm
  case isFalse =>
    split
    case isTrue hclear => exact (composite_of_clear hclear h).symm
    case isFalse => rfl

/-! ## What becomes of the bytes -/

theorem ontoAt_of_clear (h : source.alpha = 0) : ontoAt ℚ source dest = dest := by
  simp [ontoAt, h]

/-- Without any opacity both layers are transparent. -/
theorem clear_of_exactAlpha_eq_zero (h : exactAlpha source dest = 0) :
    source.alpha = 0 ∧ dest.alpha = 0 := by
  refine ⟨by_contra fun hne => (exactAlpha_pos hne).ne' h, ?_⟩
  have hzero := le_antisymm (h ▸ fraction_dest_le source dest) (fraction_nonneg dest.alpha)
  have hbyte := fraction_mul_full dest.alpha
  rw [hzero, zero_mul] at hbyte
  exact UInt8.toNat_inj.1 (Nat.cast_eq_zero.1 hbyte.symm)

theorem channel_ontoAt_of_exact (h : exactAlpha source dest ≠ 0) :
    (ontoAt ℚ source dest).channel p = toByte (exactChannel source dest p) := by
  rw [ontoAt_eq_composite h, channel_composite]

/-- Neither end of the range of a byte is in the way of a channel. -/
theorem toNat_channel_ontoAt (h : exactAlpha source dest ≠ 0) :
    (((ontoAt ℚ source dest).channel p).toNat : ℤ) =
      Scalar.round (exactChannel source dest p) := by
  obtain ⟨hmin, hmax⟩ := exactChannel_mem_Icc (p := p) h
  have h0 : (0 : ℚ) ≤ min ((source.channel p).toNat : ℚ) (dest.channel p).toNat := by positivity
  rw [channel_ontoAt_of_exact h]
  exact toNat_toByte (h0.trans hmin) (hmax.trans (max_le (toNat_le_full _) (toNat_le_full _)))

theorem channel_ontoAt_mem_Icc (source dest : Colour) (p : Primary) :
    ((ontoAt ℚ source dest).channel p).toNat ∈
      Set.Icc (min (source.channel p).toNat (dest.channel p).toNat)
        (max (source.channel p).toNat (dest.channel p).toNat) := by
  by_cases h : exactAlpha source dest = 0
  · rw [ontoAt_of_clear (clear_of_exactAlpha_eq_zero h).1]
    exact ⟨min_le_right _ _, le_max_right _ _⟩
  · have hbetween := exactChannel_mem_Icc (p := p) h
    rw [← Nat.cast_min, ← Nat.cast_max] at hbetween
    rw [channel_ontoAt_of_exact h]
    exact toNat_toByte_mem_Icc hbetween
      (max_le (Nat.le_of_lt_succ (source.channel p).toNat_lt)
        (Nat.le_of_lt_succ (dest.channel p).toNat_lt))

/-- Neither end of the range of a byte is in the way of the opacity. -/
theorem toNat_alpha_ontoAt (source dest : Colour) :
    ((ontoAt ℚ source dest).alpha.toNat : ℤ) = Scalar.round (exactAlpha source dest * 255) := by
  by_cases h : exactAlpha source dest = 0
  · obtain ⟨hsource, hdest⟩ := clear_of_exactAlpha_eq_zero h
    rw [ontoAt_of_clear hsource, hdest, h, zero_mul, ← Nat.cast_zero, Rational.round_whole]
    rfl
  · rw [ontoAt_eq_composite h, alpha_composite_eq]
    refine toNat_toByte (mul_nonneg (exactAlpha_nonneg _ _) (by norm_num)) ?_
    linarith [exactAlpha_le_one source dest]

/-- A byte of which the fraction is at most the exact opacity is at most the opacity. -/
theorem le_alpha_ontoAt {b : UInt8} (h : fraction ℚ b ≤ exactAlpha source dest) :
    b ≤ (ontoAt ℚ source dest).alpha := by
  have hscaled : (b.toNat : ℚ) ≤ exactAlpha source dest * 255 := by
    rw [← fraction_mul_full]
    exact mul_le_mul_of_nonneg_right h (by norm_num)
  have hround := Rational.round_mono (Nat.cast_nonneg b.toNat) hscaled
  rw [Rational.round_whole, ← toNat_alpha_ontoAt] at hround
  exact UInt8.le_iff_toNat_le.2 (Int.ofNat_le.1 hround)

/-- **Laying one colour over another is source-over compositing.** With the opacities as fractions,
the general rule divides by `s + d · (1 - s)`, which is positive whenever the upper layer is not
transparent. Wherever this is not zero, the rules for an opaque and for a transparent upper layer
give what the general rule gives, each channel times the opacity is what the two layers contribute
to it, and the channel is that number rounded, with nothing cut off. In any case each channel lies
between those of the two layers, and the opacity is the exact one rounded, with nothing cut off: it
is at least that of either layer and at most 255. -/
theorem onto_sourceOver (source dest : Colour) :
    exactAlpha source dest = (source.alpha.toNat : ℚ) / 255 +
        (dest.alpha.toNat : ℚ) / 255 * (1 - (source.alpha.toNat : ℚ) / 255) ∧
    (source.alpha ≠ 0 → 0 < exactAlpha source dest) ∧
    (exactAlpha source dest ≠ 0 → ontoAt ℚ source dest = composite ℚ source dest ∧
      ∀ p,
        exactChannel source dest p * exactAlpha source dest =
          (source.channel p).toNat * ((source.alpha.toNat : ℚ) / 255) + (dest.channel p).toNat *
            ((dest.alpha.toNat : ℚ) / 255 * (1 - (source.alpha.toNat : ℚ) / 255)) ∧
        (((ontoAt ℚ source dest).channel p).toNat : ℤ) =
          Scalar.round (exactChannel source dest p)) ∧
    (∀ p, ((ontoAt ℚ source dest).channel p).toNat ∈
      Set.Icc (min (source.channel p).toNat (dest.channel p).toNat)
        (max (source.channel p).toNat (dest.channel p).toNat)) ∧
    ((ontoAt ℚ source dest).alpha.toNat : ℤ) = Scalar.round (exactAlpha source dest * 255) ∧
    source.alpha ≤ (ontoAt ℚ source dest).alpha ∧ dest.alpha ≤ (ontoAt ℚ source dest).alpha ∧
    Scalar.round (exactAlpha source dest * 255) ≤ 255 := by
  refine ⟨?_, exactAlpha_pos, fun h => ⟨ontoAt_eq_composite h, fun p => ⟨?_, ?_⟩⟩,
    channel_ontoAt_mem_Icc source dest, toNat_alpha_ontoAt source dest,
    le_alpha_ontoAt (fraction_source_le _ _), le_alpha_ontoAt (fraction_dest_le _ _), ?_⟩
  · rw [exactAlpha_eq, shownThrough, fraction_eq, fraction_eq]
  · rw [exactChannel_mul_exactAlpha h, shownThrough, fraction_eq, fraction_eq]
  · exact toNat_channel_ontoAt h
  · rw [← toNat_alpha_ontoAt]
    exact_mod_cast Nat.le_of_lt_succ (ontoAt ℚ source dest).alpha.toNat_lt

/-- A translucent red. -/
def redGlass : Colour := ⟨220, 50, 47, 100⟩

/-- A blue that is yet more translucent. -/
def blueGlass : Colour := ⟨38, 139, 210, 51⟩

theorem onto_sourceOver_glass :
    0 < exactAlpha redGlass blueGlass ∧
      ontoAt ℚ redGlass blueGlass = composite ℚ redGlass blueGlass ∧
      composite ℚ redGlass blueGlass = ⟨177, 71, 86, 131⟩ ∧
      50 ≤ (ontoAt ℚ redGlass blueGlass).green.toNat ∧
      (ontoAt ℚ redGlass blueGlass).green.toNat ≤ 139 := by
  obtain ⟨-, hpos, hgeneral, hbetween, -⟩ := onto_sourceOver redGlass blueGlass
  have h0 : 0 < exactAlpha redGlass blueGlass := hpos (by decide)
  obtain ⟨hmin, hmax⟩ := hbetween .green
  exact ⟨h0, (hgeneral h0.ne').1, by decide +kernel, hmin, hmax⟩

end Easel.Colour
