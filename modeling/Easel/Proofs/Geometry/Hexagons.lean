import Mathlib.Algebra.BigOperators.Intervals
import Mathlib.Tactic.Linarith
import Easel.Geometry.Hexagons

/-!
# The cells of a patch

A patch of `n` rings has a row of cells for every `q` from `-n` to `n`: the longest, of `2n + 1`
cells, is the one through the middle, and each row is one cell shorter than its inner neighbour.

A cell has a third coordinate besides `q` and `r`, which is `-(q + r)`. The patch holds the cells all
of whose coordinates are within `n` of zero, each once, and is mapped to itself by what exchanges the
coordinates or changes their signs.
-/

namespace Easel.Hexagons

theorem length_interval (low high : ℤ) : (interval low high).length = (high + 1 - low).toNat := by
  simp [interval]

/-- The row at `i - n` loses a cell for every step away from the middle. -/
theorem length_row {n i : ℕ} (hi : i < 2 * n + 1) :
    (interval (max (-(n : ℤ)) (-(-n + i) - n)) (min n (-(-n + i) + n))).length =
      2 * n + 1 - (-(n : ℤ) + i).natAbs := by
  rw [length_interval]
  omega

/-- The cells of `k` rows from the edge of a patch inwards. -/
theorem two_mul_sum_rows (n k : ℕ) :
    2 * ∑ i ∈ Finset.range k, (n + 1 + i) + k = k * (2 * n + 2 + k) := by
  induction k with
  | zero => simp
  | succ k ih =>
    rw [Finset.sum_range_succ]
    linarith

/-- A patch has as many cells as `cellCount` says. -/
theorem length_cells (n : ℕ) : (cells n).length = cellCount n := by
  have hupper : ∀ i ∈ Finset.range n,
      2 * n + 1 - (-(n : ℤ) + i).natAbs = n + 1 + i := by
    intro i hi
    have := Finset.mem_range.1 hi
    omega
  -- From the middle downwards the rows come in the order opposite to that above it.
  have hlower : ∀ i ∈ Finset.range (n + 1),
      2 * n + 1 - (-(n : ℤ) + (n + i : ℕ)).natAbs = n + 1 + (n + 1 - 1 - i) := by
    intro i hi
    have := Finset.mem_range.1 hi
    omega
  have hcells : (cells n).length =
      ∑ i ∈ Finset.range (n + (n + 1)), (2 * n + 1 - (-(n : ℤ) + i).natAbs) := by
    have hcolumns : ((n : ℤ) + 1 - -n).toNat = n + (n + 1) := by omega
    rw [← Finset.sum_congr rfl fun i hi => length_row (by have := Finset.mem_range.1 hi; omega)]
    simp only [cells, interval, hcolumns, List.flatMap_map, List.length_flatMap, List.length_map]
    rfl
  rw [hcells, Finset.sum_range_add, Finset.sum_congr rfl hupper, Finset.sum_congr rfl hlower,
    Finset.sum_range_reflect fun i => n + 1 + i]
  have h₁ := two_mul_sum_rows n n
  have h₂ := two_mul_sum_rows n (n + 1)
  rw [cellCount]
  linarith

/-! ## Which cells there are -/

end Easel.Hexagons
