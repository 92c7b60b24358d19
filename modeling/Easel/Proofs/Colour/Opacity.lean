import Easel.Colour.Blend
import Easel.Proofs.Number.Single

/-!
# The opacity of colours that lie over one another

A colour laid over another is not more transparent than either of the two. The exact opacity of
layers of opacities `s` and `d` is `s + d · (1 - s)`, which is at least `s` and at least `d`. It is
computed in single width, with six roundings on the way to a byte; their errors together stay far
below the half that the last rounding, to a whole number, leaves room for.
-/

namespace Easel.Colour

open Binary32

/-! ## Shares of the whole -/

/-- What rounding a number between zero and one takes from it at most. -/
noncomputable def roundoff : ℝ := Rounding.dyadic 1 (-23)

theorem roundoff_eq : roundoff = 2 ^ (-23 : ℤ) := by
  rw [roundoff, Rounding.dyadic, Int.cast_one, one_mul]

theorem roundoff_pos : 0 < roundoff := by
  rw [roundoff_eq]
  positivity

/-- `x` is a number between zero and one that falls short of `q` by an error of rounding at most. -/
structure Share (q : ℝ) (x : Float32) : Prop where
  isFinite : x.isFinite = true
  nonneg : 0 ≤ value x
  le_one : value x ≤ 1
  le_add : q ≤ value x + roundoff

/-- A rounded result between zero and one. -/
theorem Share.of_approx {q : ℝ} {x : Float32} (h : Approx q x) (h0 : 0 ≤ q) (h1 : q ≤ 1) :
    Share q x := by
  have hq : |q| ≤ 2 ^ (0 : ℤ) := by rwa [abs_of_nonneg h0]
  have herror : |value x - q| ≤ roundoff := by
    rw [roundoff_eq]
    exact h.abs_sub_le hq (by decide)
  have hone : |value x| ≤ 1 := h.nearest.abs_le_two_zpow hq (by decide)
  refine ⟨h.isFinite, h.nearest.nonneg h0, (le_abs_self _).trans hone, ?_⟩
  linarith [(abs_le.1 herror).1]

/-- Numbers up to one are far from overflow. -/
theorem abs_le_of_le_one {q : ℝ} (h0 : 0 ≤ q) (h1 : q ≤ 1) : |q| ≤ 2 ^ (127 : ℤ) := by
  rw [abs_of_nonneg h0]
  exact h1.trans (by norm_num)

namespace Share

variable {p q : ℝ} {x y : Float32}

theorem one_sub (h : Share q x) : Share (1 - value x) (1 - x) := by
  have hone : Approx (1 : ℕ) 1 := approx_ofNat (by decide)
  have hvalue : value 1 = 1 := by simpa using hone.eq_of_natCast (by decide)
  have h0 : 0 ≤ 1 - value x := by linarith [h.le_one]
  have h1 : 1 - value x ≤ 1 := by linarith [h.nonneg]
  have hsub := approx_sub hone.isFinite h.isFinite
  rw [hvalue] at hsub
  exact of_approx (hsub (abs_le_of_le_one h0 h1)) h0 h1

theorem mul (hx : Share p x) (hy : Share q y) : Share (value x * value y) (x * y) := by
  have h0 := mul_nonneg hx.nonneg hy.nonneg
  have h1 := mul_le_one₀ hx.le_one hy.nonneg hy.le_one
  exact of_approx (approx_mul hx.isFinite hy.isFinite (abs_le_of_le_one h0 h1)) h0 h1

end Share

theorem approx_ofByte (b : UInt8) : Approx b.toNat (ofByte Float32 b) :=
  approx_ofNat (b.toNat_lt.trans (by decide))

theorem value_ofByte (b : UInt8) : value (ofByte Float32 b) = b.toNat :=
  (approx_ofByte b).eq_of_natCast (b.toNat_lt.trans (by decide))

theorem share_fraction (b : UInt8) : Share (b.toNat / 255) (fraction Float32 b) := by
  have hb : (b.toNat : ℝ) ≤ 255 := by exact_mod_cast Nat.le_of_lt_succ b.toNat_lt
  have h0 : (0 : ℝ) ≤ b.toNat / 255 := by positivity
  have h1 : (b.toNat : ℝ) / 255 ≤ 1 := by
    rw [div_le_one (by norm_num)]
    exact hb
  have hscale : value (ofByte Float32 255) = 255 := value_ofByte 255
  have hdiv := approx_div (approx_ofByte b).isFinite (approx_ofByte 255).isFinite
  rw [hscale, value_ofByte] at hdiv
  exact .of_approx (hdiv (by norm_num) (abs_le_of_le_one h0 h1)) h0 h1

/-! ## The opacity of two layers -/

/-- The nearest byte is not below a byte that the number does not fall short of by a half. -/
theorem le_toByte {b : UInt8} {x : Float32} (hx : x.isFinite = true) (h0 : 0 ≤ value x)
    (hb : (b.toNat : ℝ) ≤ value x + 1 / 2) : b ≤ toByte x := by
  have hround : (b.toNat : ℤ) ≤ Scalar.round x := by
    rw [round_eq_floor hx h0, Int.le_floor]
    exact_mod_cast hb
  have hbyte : b.toNat < 256 := b.toNat_lt
  have htoNat : (toByte x).toNat = min (Scalar.round x).toNat 255 :=
    Nat.mod_eq_of_lt (by omega)
  rw [UInt8.le_iff_toNat_le, htoNat]
  omega

/-- The opacity of two layers is finite and in range, and falls short of that of either layer by
four errors of rounding at most. -/
theorem layeredAlpha_bounds {p q : ℝ} {s d : Float32} (hs : Share p s) (hd : Share q d) :
    (layeredAlpha s d).isFinite = true ∧ 0 ≤ value (layeredAlpha s d) ∧
      value (layeredAlpha s d) ≤ 2 ∧
      value s ≤ value (layeredAlpha s d) + 4 * roundoff ∧
      value d ≤ value (layeredAlpha s d) + 4 * roundoff := by
  have hrest := hs.one_sub
  have hshown := hd.mul hrest
  have h0 : 0 ≤ value s + value (d * (1 - s)) := add_nonneg hs.nonneg hshown.nonneg
  have h2 : |value s + value (d * (1 - s))| ≤ 2 ^ (1 : ℤ) := by
    rw [abs_of_nonneg h0, zpow_one]
    linarith [hs.le_one, hshown.le_one]
  have hsum : Approx (value s + value (d * (1 - s))) (layeredAlpha s d) :=
    approx_add hs.isFinite hshown.isFinite
      (h2.trans (zpow_le_zpow_right₀ one_le_two (by decide)))
  have hbound := (abs_le.1 (hsum.nearest.abs_le_two_zpow h2 (by decide))).2
  have herror : value s + value (d * (1 - s)) ≤ value (layeredAlpha s d) + 2 * roundoff := by
    have := (abs_le.1 (hsum.abs_sub_le h2 (by decide))).1
    norm_num [roundoff_eq] at this ⊢
    linarith
  refine ⟨hsum.isFinite, hsum.nearest.nonneg h0, by rwa [zpow_one] at hbound, ?_, ?_⟩
  · linarith [hshown.nonneg, roundoff_pos]
  · -- The exact opacity exceeds that of the lower layer by `s * (1 - d)`.
    have hexact : value d ≤ value s + value d * (1 - value s) := by
      linarith [mul_nonneg hs.nonneg (sub_nonneg.2 hd.le_one)]
    have hdifference : value d * (1 - value s) ≤
        value d * value (1 - s) + roundoff := by
      have := mul_le_mul_of_nonneg_left hrest.le_add hd.nonneg
      linarith [mul_le_of_le_one_left roundoff_pos.le hd.le_one]
    linarith [hshown.le_add]

/-- Scaling a share up to a byte makes good for five errors of rounding. -/
theorem le_toByte_scaled {b : UInt8} {x : Float32} (hx : x.isFinite = true) (h0 : 0 ≤ value x)
    (h2 : value x ≤ 2) (hb : b.toNat / 255 ≤ value x + 5 * roundoff) :
    b ≤ toByte (x * 255) := by
  have hscale : value (255 : Float32) = 255 := value_ofByte 255
  have hrange : |value x * 255| ≤ 2 ^ (9 : ℤ) := by
    rw [abs_of_nonneg (by positivity)]
    norm_num
    linarith
  have hmul := approx_mul hx (y := 255) (approx_ofByte 255).isFinite
  rw [hscale] at hmul
  have happrox := hmul (hrange.trans (zpow_le_zpow_right₀ one_le_two (by decide)))
  have herror := (abs_le.1 (happrox.abs_sub_le hrange (by decide))).1
  refine le_toByte happrox.isFinite (happrox.nearest.nonneg (by positivity)) ?_
  change _ ≤ value (x * 255) - _ at herror
  norm_num [roundoff_eq] at herror hb
  linarith

theorem alpha_composite (source dest : Colour) :
    source.alpha ≤ (composite Float32 source dest).alpha ∧
      dest.alpha ≤ (composite Float32 source dest).alpha := by
  have hs := share_fraction source.alpha
  have hd := share_fraction dest.alpha
  obtain ⟨hfinite, h0, h2, hle, hle'⟩ := layeredAlpha_bounds hs hd
  exact ⟨le_toByte_scaled hfinite h0 h2 (by linarith only [hs.le_add, hle]),
    le_toByte_scaled hfinite h0 h2 (by linarith only [hd.le_add, hle'])⟩

/-- A colour laid over another is not more transparent than either. -/
theorem alpha_onto (source dest : Colour) :
    source.alpha ≤ (source.onto dest).alpha ∧ dest.alpha ≤ (source.onto dest).alpha := by
  rw [onto, ontoAt]
  split
  case isTrue hsolid =>
    rw [hsolid]
    exact ⟨UInt8.le_refl _, UInt8.le_iff_toNat_le.2 (Nat.le_of_lt_succ dest.alpha.toNat_lt)⟩
  case isFalse =>
    split
    case isTrue hclear =>
      rw [hclear]
      exact ⟨UInt8.le_iff_toNat_le.2 (Nat.zero_le _), UInt8.le_refl _⟩
    case isFalse => exact alpha_composite source dest

end Easel.Colour
