import Mathlib.Tactic
import Mathlib.Algebra.BigOperators.Group.Finset.Basic

/-! # Sums that remember an overflow

Numbers below a limit, and an overflow that absorbs whatever is added to it. A computation
that ends below the limit has met no overflow on its way.
-/

/-- A number below a limit, or the limit itself for an overflow. -/
structure CheckedSum (limit : ℕ) where
  value : ℕ
  le : value ≤ limit

namespace CheckedSum

variable {limit : ℕ}

@[ext] theorem ext {first second : CheckedSum limit} (same : first.value = second.value) :
    first = second := by
  cases first
  cases second
  cases same
  rfl

/-- A number, when it is below the limit. -/
def ofNat (limit value : ℕ) : CheckedSum limit := ⟨min value limit, Nat.min_le_right _ _⟩

/-- The computation met no overflow and has this value. -/
def Holds (sum : CheckedSum limit) (value : ℕ) : Prop := sum.value = value ∧ value < limit

instance : Add (CheckedSum limit) := ⟨fun first second => ofNat limit (first.value + second.value)⟩

instance : Zero (CheckedSum limit) := ⟨ofNat limit 0⟩

theorem value_add (first second : CheckedSum limit) :
    (first + second).value = min (first.value + second.value) limit := rfl

theorem value_zero : (0 : CheckedSum limit).value = 0 := Nat.zero_min limit

instance : AddCommMonoid (CheckedSum limit) where
  add_assoc first second third := by
    apply ext
    simp only [value_add]
    omega
  zero_add sum := by
    apply ext
    rw [value_add, value_zero, Nat.zero_add]
    exact Nat.min_eq_left sum.le
  add_zero sum := by
    apply ext
    rw [value_add, value_zero, Nat.add_zero]
    exact Nat.min_eq_left sum.le
  add_comm first second := by
    apply ext
    rw [value_add, value_add, Nat.add_comm]
  nsmul := nsmulRec

/-- Checked sums follow the numbers. -/
def ofNatHom (limit : ℕ) : ℕ →+ CheckedSum limit where
  toFun := ofNat limit
  map_zero' := rfl
  map_add' first second := by
    apply ext
    rw [value_add]
    simp only [ofNat]
    omega

/-- Below the limit, a checked sum of numbers is their sum. -/
theorem holds_sum {ι : Type*} {indices : Finset ι} {values : ι → ℕ}
    (below : ∑ i ∈ indices, values i < limit) :
    (∑ i ∈ indices, ofNat limit (values i)).Holds (∑ i ∈ indices, values i) := by
  have lifted : ∑ i ∈ indices, ofNat limit (values i) = ofNat limit (∑ i ∈ indices, values i) :=
    (map_sum (ofNatHom limit) values indices).symm
  rw [lifted]
  exact ⟨Nat.min_eq_left below.le, below⟩

end CheckedSum
