import Mathlib.Algebra.Order.Floor.Ring
import Mathlib.Algebra.Order.Field.Basic
import Mathlib.Tactic

/-! # Quantizing cumulative mass

A cumulative mass is scaled to integers with one unit reserved per symbol, so that no
symbol loses its interval to rounding.
-/

namespace Quantize

variable {K : Type*} [Field K] [LinearOrder K] [IsStrictOrderedRing K] [FloorRing K]

/-- The boundary below a symbol: one unit for each symbol below it, and their share of
the scale. -/
def boundary (scale size : ℕ) (mass : ℕ → K) (symbol : ℕ) : ℕ :=
  symbol + ⌊mass symbol * scale / mass size⌋₊

variable {scale size : ℕ} {mass : ℕ → K}

theorem boundary_strictMonoOn (monotone : MonotoneOn mass (Set.Iic size))
    (positive : 0 < mass size) :
    StrictMonoOn (boundary scale size mass) (Set.Iic size) := by
  intro low lowInside high highInside less
  have shares : ⌊mass low * scale / mass size⌋₊ ≤ ⌊mass high * scale / mass size⌋₊ := by
    apply Nat.floor_mono
    have := monotone lowInside highInside less.le
    gcongr
  exact Nat.add_lt_add_of_lt_of_le less shares

theorem boundary_zero (zero : mass 0 = 0) : boundary scale size mass 0 = 0 := by
  rw [boundary, zero, zero_mul, zero_div, Nat.floor_zero]

theorem boundary_size (positive : 0 < mass size) :
    boundary scale size mass size = size + scale := by
  rw [boundary, mul_div_assoc, mul_div_cancel₀ _ positive.ne', Nat.floor_natCast]

/-- No share exceeds the scale. -/
theorem share_le (monotone : MonotoneOn mass (Set.Iic size)) (positive : 0 < mass size)
    {symbol : ℕ} (inside : symbol ≤ size) : ⌊mass symbol * scale / mass size⌋₊ ≤ scale := by
  apply Nat.floor_le_of_le
  rw [div_le_iff₀ positive, mul_comm]
  have := monotone inside (Set.mem_Iic.mpr le_rfl) inside
  gcongr

/-! ## Rounding shares down -/

section

variable {ι : Type*} {symbols : Finset ι} {share : ι → K}

/-- Shares rounded down do not exceed their sum. -/
theorem sum_floor_le (nonneg : ∀ symbol ∈ symbols, 0 ≤ share symbol) :
    ((∑ symbol ∈ symbols, ⌊share symbol⌋₊ : ℕ) : K) ≤ ∑ symbol ∈ symbols, share symbol := by
  rw [Nat.cast_sum]
  exact Finset.sum_le_sum fun symbol member => Nat.floor_le (nonneg symbol member)

/-- **Rounding down loses less than a unit for each share.** -/
theorem sum_lt_sum_floor_add_card (some : symbols.Nonempty) :
    ∑ symbol ∈ symbols, share symbol <
      ((∑ symbol ∈ symbols, ⌊share symbol⌋₊ + symbols.card : ℕ) : K) := by
  have units : ((∑ symbol ∈ symbols, ⌊share symbol⌋₊ + symbols.card : ℕ) : K) =
      ∑ symbol ∈ symbols, ((⌊share symbol⌋₊ : K) + 1) := by
    rw [Finset.sum_add_distrib, Finset.sum_const, nsmul_one, Nat.cast_add, Nat.cast_sum]
  rw [units]
  exact Finset.sum_lt_sum_of_nonempty some fun symbol _ => Nat.lt_floor_add_one _

end

end Quantize
