import Easel.Proofs.Number.Operations
import Easel.Proofs.Number.Parts

/-!
# Numbers of single width

The operations on single-width numbers in real numbers: unless it overflows, each gives a finite
number nearest to the exact result. Whole numbers of up to 23 bits are exact, and rounding to a
whole number is the floor after adding a half.
-/

namespace Easel.Binary32

open Float.Model Rounding

/-- The real number that a finite number stands for. -/
noncomputable def value (x : Float32) : ℝ := Rounding.value x.toModel.unpack

/-- `x` is a finite number nearest to `q`. -/
structure Approx (q : ℝ) (x : Float32) : Prop where
  isFinite : x.isFinite = true
  nearest : Nearest .binary32 q (value x)

theorem canonical {x : Float32} (h : x.isFinite = true) : Canonical .binary32 x.toModel.unpack :=
  canonical_unpack _ h

/-- A rounded result that is packed. -/
theorem approx_pack {q : ℝ} {u : UnpackedFloat} (h : Rounds .binary32 q u)
    (hq : |q| ≤ 2 ^ (127 : ℤ)) : Approx q (.ofModel (.pack u)) := by
  have hunpack : (Float32.ofModel (.pack u)).toModel.unpack = u :=
    h.unpack_pack (by decide) hq
  refine ⟨?_, ?_⟩
  · rw [Float32.isFinite, Float32.Model.isFinite, hunpack]
    exact h.canonical.isFinite
  · rw [value, hunpack]
    exact h.nearest

section Operations

variable {x y : Float32}

theorem approx_add (hx : x.isFinite = true) (hy : y.isFinite = true)
    (h : |value x + value y| ≤ 2 ^ (127 : ℤ)) : Approx (value x + value y) (x + y) :=
  approx_pack (rounds_add (canonical hx) (canonical hy)) h

theorem approx_sub (hx : x.isFinite = true) (hy : y.isFinite = true)
    (h : |value x - value y| ≤ 2 ^ (127 : ℤ)) : Approx (value x - value y) (x - y) :=
  approx_pack (rounds_sub (canonical hx) (canonical hy)) h

theorem approx_mul (hx : x.isFinite = true) (hy : y.isFinite = true)
    (h : |value x * value y| ≤ 2 ^ (127 : ℤ)) : Approx (value x * value y) (x * y) :=
  approx_pack (rounds_mul (canonical hx) (canonical hy)) h

theorem approx_div (hx : x.isFinite = true) (hy : y.isFinite = true) (hne : value y ≠ 0)
    (h : |value x / value y| ≤ 2 ^ (127 : ℤ)) : Approx (value x / value y) (x / y) :=
  approx_pack (rounds_div (canonical hx) (canonical hy) hne) h

end Operations

namespace Approx

variable {q : ℝ} {x : Float32}

/-- Whole numbers of up to 24 bits are met exactly. -/
theorem eq_of_natCast {n : ℕ} (h : Approx n x) (hn : n < 2 ^ 24) : value x = n := by
  refine h.nearest.eq_of_fits (k := n) (j := 0) (by simp) (by decide) ?_
  rw [Int.cast_natCast, abs_of_nonneg (Nat.cast_nonneg n)]
  exact_mod_cast hn

/-- The error against an exact result of at most `2 ^ k`. -/
theorem abs_sub_le (h : Approx q x) {k : ℤ} (hq : |q| ≤ 2 ^ k) (hk : -125 ≤ k) :
    |value x - q| ≤ 2 ^ (k - 23) := by
  have hbound := h.nearest.abs_sub_le
  have hrelative : (2 : ℝ) ^ (-24 : ℤ) * |q| ≤ 2 ^ (k - 24) := by
    rw [sub_eq_neg_add, zpow_add₀ two_ne_zero]
    exact mul_le_mul_of_nonneg_left hq (by positivity)
  have htiny : (2 : ℝ) ^ (-150 : ℤ) ≤ 2 ^ (k - 24) := zpow_le_zpow_right₀ one_le_two (by omega)
  have hsplit : (2 : ℝ) ^ (k - 23) = 2 ^ (k - 24) + 2 ^ (k - 24) := by
    rw [← two_mul, mul_comm, ← zpow_add_one₀ two_ne_zero]
    congr 1
    ring
  have : (2 : ℝ) ^ (-Format.binary32.mantissaBits : ℤ) * |q| +
      2 ^ (Format.binary32.minExponent - 1) = 2 ^ (-24 : ℤ) * |q| + 2 ^ (-150 : ℤ) := rfl
  linarith

end Approx

/-! ## Whole numbers -/

/-- The number of these bits is one. -/
theorem value_one : value (.ofBits 0x3F800000) = 1 := by
  have hunpack : (Float32.ofBits 0x3F800000).toModel.unpack =
      .finite .positive (2 ^ 23) (-23) (by decide) := rfl
  rw [value, hunpack, value_finite]
  norm_num [UnpackedFloat.Sign.apply]

theorem abs_natCast_le {n : ℕ} (hn : n < 2 ^ 24) : |(n : ℝ)| ≤ 2 ^ (127 : ℤ) := by
  have : (n : ℝ) < 2 ^ 24 := by exact_mod_cast hn
  rw [abs_of_nonneg (Nat.cast_nonneg n)]
  exact this.le.trans (by norm_num)

theorem approx_toFloat32 {n : ℕ} (hn : n < 2 ^ 24) : Approx n n.toUInt64.toFloat32 := by
  have htoNat : n.toUInt64.toNat = n := Nat.mod_eq_of_lt (by omega)
  have hround : Rounds .binary32 n (UnpackedFloat.ofUInt64 .binary32 n.toUInt64) := by
    rw [UnpackedFloat.ofUInt64, htoNat]
    exact_mod_cast rounds_ofInt n
  exact approx_pack hround (abs_natCast_le hn)

theorem approx_ofNat {n : ℕ} (hn : n < 2 ^ 23) : Approx n (.ofNat n) := by
  have hn' : n < 2 ^ 24 := by omega
  have hscaled : Float32.ofNat n = n.toUInt64.toFloat32 * .ofBits 0x3F800000 :=
    dif_pos ⟨hn, Nat.zero_le _⟩
  have hword := approx_toFloat32 hn'
  have hproduct : value n.toUInt64.toFloat32 * value (.ofBits 0x3F800000) = n := by
    rw [hword.eq_of_natCast hn', value_one, mul_one]
  have h := approx_mul hword.isFinite (y := .ofBits 0x3F800000) rfl (by
    rw [hproduct]
    exact abs_natCast_le hn')
  rwa [hproduct, ← hscaled] at h

theorem round_eq_floor {x : Float32} (hx : x.isFinite = true) (h : 0 ≤ value x) :
    Scalar.round x = ⌊value x + 1 / 2⌋ := by
  have hparts : (parts x).value = value x := value_ofBits _ hx
  rw [← hparts] at h ⊢
  exact Binary.round_eq_floor h

end Easel.Binary32
