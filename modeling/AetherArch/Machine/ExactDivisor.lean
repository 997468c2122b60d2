import AetherArch.Entropy.Order0Words
import AetherArch.Library.Checked

/-! # Division by reciprocal in machine steps

The divisor of the order-0 model with its words checked: 64 bits for the dividend, 128 for its
product with the reciprocal, 32 for a boundary.
-/

namespace AetherArch

open Checked

namespace Machine

namespace ExactDivisor

open AetherArch.ExactDivisor (SHIFT)

/-- The reciprocal of a total, where multiplying by it is exact. -/
def new (total : Nat) : Run AetherError AetherArch.ExactDivisor := do
  let exact := decide (total > 0 ∧ total ≤ MAX_MAGIC_TOTAL)
  if exact then
    let quotient ← div (1 <<< SHIFT) total
    let magic ← add 128 quotient 1
    .ok { total, magic, exact }
  else .ok { total, magic := 0, exact }

/-- Divide by multiplying and shifting, or in hardware. -/
def div (divisor : AetherArch.ExactDivisor) (n : Nat) : Run AetherError Nat :=
  if divisor.exact then do
    let product ← mul 128 n divisor.magic
    .ok ((product >>> SHIFT) % 2 ^ 64)
  else Checked.div n divisor.total

/-- No word of the reciprocal is too small for it. -/
theorem new_eq (total : Nat) : new total = .ok (AetherArch.ExactDivisor.new total) := by
  unfold new
  by_cases exact : total > 0 ∧ total ≤ MAX_MAGIC_TOTAL
  · have fits : 1 <<< SHIFT / total + 1 < 2 ^ 128 :=
      calc 1 <<< SHIFT / total + 1 ≤ 1 <<< SHIFT + 1 := Nat.succ_le_succ (Nat.div_le_self _ _)
        _ < 2 ^ 128 := by decide
    simp only [exact, and_self, decide_true, ↓reduceIte, div_of_pos exact.1, Result.ok_bind,
      add_of_lt fits, AetherArch.ExactDivisor.new]
  · simp only [exact, decide_false, Bool.false_eq_true, ↓reduceIte, AetherArch.ExactDivisor.new]

/-- The product with the reciprocal fits its word. -/
theorem div_eq {total n : Nat} (positive : 0 < total) (fits : n * 2 ^ 57 < 2 ^ 128) :
    div (AetherArch.ExactDivisor.new total) n =
      .ok ((AetherArch.ExactDivisor.new total).div n) := by
  have product : n * (AetherArch.ExactDivisor.new total).magic < 2 ^ 128 := by
    have magic := Order0Model.magic_le total
    calc n * (AetherArch.ExactDivisor.new total).magic ≤ n * 2 ^ 57 :=
          Nat.mul_le_mul_left n (magic.trans (by norm_num))
      _ < 2 ^ 128 := fits
  unfold div AetherArch.ExactDivisor.div
  split
  · rw [mul_of_lt product, Result.ok_bind]
  · exact div_of_pos positive

end ExactDivisor

/-- The scaled share of a prefix sum, as `quantize_boundary` divides it. -/
def scaledShare (total cum : Nat) : Run AetherError Nat := do
  let divisor ← ExactDivisor.new total
  let dividend ← mul 64 cum Order0Model.SCALABLE
  ExactDivisor.div divisor dividend

/-- A boundary with one count reserved for every symbol below it. -/
def quantizeBoundary (total cum symbolIndex : Nat) : Run AetherError Nat := do
  let share ← scaledShare total cum
  add 32 symbolIndex (share % 2 ^ 32)

/-- A share of a total is at most `SCALABLE`. -/
theorem share_le {total cum : Nat} (inside : cum ≤ total) :
    cum * Order0Model.SCALABLE / total ≤ Order0Model.SCALABLE := by
  apply Nat.div_le_of_le_mul
  exact Nat.mul_le_mul_right _ inside

theorem scaledShare_eq {total cum : Nat} (positive : 0 < total) (word : total < 2 ^ 32)
    (inside : cum ≤ total) :
    scaledShare total cum = .ok (cum * Order0Model.SCALABLE / total) ∧
      (AetherArch.ExactDivisor.new total).div (cum * Order0Model.SCALABLE) =
        cum * Order0Model.SCALABLE / total := by
  have scalable : Order0Model.SCALABLE = 32512 := by decide
  have dividend : cum * Order0Model.SCALABLE < 2 ^ 47 := by
    rw [scalable]
    omega
  have quotient := @AetherArch.ExactDivisor.div_eq total (cum * Order0Model.SCALABLE) positive
    fun _ => by
      rw [scalable]
      omega
  refine ⟨?_, quotient⟩
  unfold scaledShare
  rw [ExactDivisor.new_eq, Result.ok_bind, mul_of_lt (by omega), Result.ok_bind,
    ExactDivisor.div_eq positive (by omega), quotient]

/-- **A boundary fits its word**, so that the model's quantizer is the machine's. -/
theorem quantizeBoundary_eq {total cum symbolIndex : Nat} (positive : 0 < total)
    (word : total < 2 ^ 32) (inside : cum ≤ total) (symbol : symbolIndex ≤ 256) :
    quantizeBoundary total cum symbolIndex =
      .ok (Order0Model.quantizeBoundary (.new total) cum symbolIndex) := by
  have scalable : Order0Model.SCALABLE = 32512 := by decide
  have small := share_le inside
  obtain ⟨ran, quotient⟩ := scaledShare_eq positive word inside
  unfold quantizeBoundary Order0Model.quantizeBoundary
  rw [ran, Result.ok_bind, quotient, add_of_lt]
  omega

/-- **Division by reciprocal is exact** on every share of a total, on both paths, and the dividend
and its product fit their words. -/
theorem scaledShare_exact {total cum : UInt32} (positive : 1 ≤ total.toNat)
    (inside : cum.toNat ≤ total.toNat) :
    scaledShare total.toNat cum.toNat =
        .ok (cum.toNat * Order0Model.SCALABLE / total.toNat) ∧
      (AetherArch.ExactDivisor.new total.toNat).div (cum.toNat * Order0Model.SCALABLE) =
        cum.toNat * Order0Model.SCALABLE / total.toNat :=
  scaledShare_eq positive total.toNat_lt inside

/-- A total in the reciprocal's range, and a loaded one past it. -/
theorem scaledShare_exact_loaded :
    scaledShare 1000000 999999 = .ok (999999 * Order0Model.SCALABLE / 1000000) ∧
      scaledShare 512000000 511000000 = .ok (511000000 * Order0Model.SCALABLE / 512000000) :=
  ⟨(@scaledShare_exact 1000000 999999 (by decide) (by decide)).1,
    (@scaledShare_exact 512000000 511000000 (by decide) (by decide)).1⟩

end Machine

end AetherArch
