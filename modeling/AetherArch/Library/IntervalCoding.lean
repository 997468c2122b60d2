import Mathlib.Tactic

/-! # Nested intervals of natural numbers

An interval coder commits to a message by narrowing an interval of numbers, one
symbol at a time, and appends digits by refining the scale on which the interval
is measured. A point of the last interval, read only as far as an earlier scale,
lies in the interval of that earlier moment (`CodeInterval.mem_refine_iff`), so it
names every symbol in turn (`CodeInterval.mem_narrow_iff`).
-/

/-- A half-open interval of natural numbers. -/
structure CodeInterval where
  low : Nat
  width : Nat

namespace CodeInterval

instance : Membership Nat CodeInterval where
  mem interval point := interval.low ≤ point ∧ point < interval.low + interval.width

theorem mem_def {interval : CodeInterval} {point : Nat} :
    point ∈ interval ↔ interval.low ≤ point ∧ point < interval.low + interval.width :=
  Iff.rfl

/-- The part of an interval from `start` to `start + size`, in steps of `unit`. -/
def narrow (interval : CodeInterval) (start size unit : Nat) : CodeInterval where
  low := interval.low + start * unit
  width := size * unit

/-- The interval measured on a scale finer by a factor. -/
def refine (interval : CodeInterval) (factor : Nat) : CodeInterval where
  low := interval.low * factor
  width := interval.width * factor

@[simp] theorem refine_one (interval : CodeInterval) : interval.refine 1 = interval := by
  simp only [refine, Nat.mul_one]

theorem refine_refine (interval : CodeInterval) (first second : Nat) :
    (interval.refine first).refine second = interval.refine (first * second) := by
  simp only [refine, Nat.mul_assoc]

/-- A point lies in a refined interval exactly when its coarse reading lies in
the interval. -/
theorem mem_refine_iff (interval : CodeInterval) {factor : Nat} (positive : 0 < factor)
    (point : Nat) : point ∈ interval.refine factor ↔ point / factor ∈ interval := by
  simp only [mem_def, refine, ← Nat.add_mul, Nat.le_div_iff_mul_le positive,
    Nat.div_lt_iff_lt_mul positive]

/-- A narrowing that fits the interval stays inside it. -/
theorem mem_of_mem_narrow {interval : CodeInterval} {start size unit point : Nat}
    (fits : (start + size) * unit ≤ interval.width)
    (member : point ∈ interval.narrow start size unit) : point ∈ interval := by
  rw [Nat.add_mul] at fits
  simp only [mem_def, narrow] at member ⊢
  omega

/-- The steps between the start of an interval and a point of one of its
narrowings identify the narrowing. -/
theorem mem_narrow_iff {interval : CodeInterval} {start size unit point : Nat} (positive : 0 < unit)
    (above : interval.low ≤ point) :
    point ∈ interval.narrow start size unit ↔
      start ≤ (point - interval.low) / unit ∧ (point - interval.low) / unit < start + size := by
  rw [Nat.le_div_iff_mul_le positive, Nat.div_lt_iff_lt_mul positive, Nat.add_mul]
  simp only [mem_def, narrow]
  omega

end CodeInterval
