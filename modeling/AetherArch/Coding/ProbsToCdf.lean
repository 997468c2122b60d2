import Mathlib.Order.Interval.Set.Monotone
import AetherArch.Entropy.Traits
import AetherArch.Library.ExactFormat
import AetherArch.Library.Quantize
import AetherArch.Library.UnstableSort

/-! # From probabilities to a table

Cumulative probabilities are rounded to 15 bits and lifted where rounding left a symbol without an
interval. If that overshoots the total, every symbol is given one unit and its share of the rest,
and the units that rounding down leaves over go to the most probable symbols.
-/

namespace AetherArch

namespace ProbsToCdf

variable {formats : FloatFormats}

/-- A probability as a number that is finite and not negative. -/
def clamp (probability : formats.F32) : formats.F64 :=
  let p := formats.widen probability
  if formats.double.isFinite p = true ∧ 0.0 < p then p else 0.0

/-- The sum of the probabilities in front of a symbol. -/
def cumulate (clamped : Nat → formats.F64) : Nat → formats.F64
  | 0 => 0.0
  | i + 1 => cumulate clamped i + clamped i

/-- The table that gives every symbol the same share. -/
def uniform : Cdf := fun index =>
  if index.val < 256 then UInt16.ofNat (index.val * PROB_TOTAL / 256) else UInt16.ofNat PROB_TOTAL

/-- The rounded cumulative sums. -/
def rounded (clamped : Nat → formats.F64) (sum : formats.F64) (i : Nat) : UInt16 :=
  let scale : formats.F64 := (PROB_TOTAL : formats.F64) / sum
  if i < 256 then
    UInt16.ofNat (formats.double.truncate 16 (cumulate clamped i * scale + 0.5))
  else UInt16.ofNat PROB_TOTAL

/-- The entries lifted over the ones before them. -/
def fixUp (cdf : Nat → UInt16) : Nat → UInt16
  | 0 => cdf 0
  | i + 1 => if cdf (i + 1) ≤ fixUp cdf i then fixUp cdf i + 1 else cdf (i + 1)

/-- The mass beyond one unit for every symbol. -/
def REMAINING_MASS : Nat := PROB_TOTAL - 256

/-- The share of the remaining mass for a symbol. -/
def share (clamped : Nat → formats.F64) (sum : formats.F64) (i : Nat) : UInt64 :=
  UInt64.ofNat
    (formats.double.truncate 64 (clamped i / sum * (REMAINING_MASS : formats.F64)))

/-- The shares of the first symbols together. -/
def distributed (clamped : Nat → formats.F64) (sum : formats.F64) : Nat → UInt64
  | 0 => 0
  | i + 1 => distributed clamped sum i + share clamped sum i

/-- What the floors of all shares leave over. -/
def leftover (clamped : Nat → formats.F64) (sum : formats.F64) : UInt64 :=
  UInt64.ofNat REMAINING_MASS - distributed clamped sum 256

/-- Compare two symbols by descending probability. -/
def byProbability (clamped : Nat → formats.F64) (a b : Nat) : Ordering :=
  if clamped b < clamped a then .lt else if clamped a < clamped b then .gt else .eq

/-- Give one unit each to the symbols of a list, as long as there are units left. -/
def spread : List Nat → (Nat → UInt16) × UInt64 → (Nat → UInt16) × UInt64
  | [], state => state
  | idx :: indices, (freqs, leftover) =>
      if leftover = 0 then (freqs, leftover)
      else spread indices (Function.update freqs idx (freqs idx + 1), leftover - 1)

/-- One unit and the share of every symbol. -/
def shared (clamped : Nat → formats.F64) (sum : formats.F64) (i : Nat) : UInt16 :=
  if i < 256 then 1 + (share clamped sum i).toUInt16 else 1

/-- The frequencies with what is left over handed out, and what is left then. -/
def redistribute (sorting : UnstableSort Nat) (clamped : Nat → formats.F64)
    (sum : formats.F64) : (Nat → UInt16) × UInt64 :=
  spread (sorting.sortBy (byProbability clamped) (List.range 256))
    (shared clamped sum, leftover clamped sum)

/-- The table of some frequencies. -/
def rebuild (freqs : Nat → UInt16) : Nat → UInt16
  | 0 => 0
  | i + 1 => rebuild freqs i + freqs i

end ProbsToCdf

open ProbsToCdf in
/-- Convert a probability distribution over bytes to a cumulative frequency table. -/
def probsToCdf {formats : FloatFormats} (sorting : UnstableSort Nat) (probs : Nat → formats.F32) :
    Cdf :=
  let clamped := fun i => clamp (probs i)
  let sum := cumulate clamped 256
  if sum ≤ 0.0 then uniform
  else
    let cdf := fixUp (rounded clamped sum)
    if cdf 256 = UInt16.ofNat PROB_TOTAL then fun index => cdf index
    else
      let rebuilt := rebuild (redistribute sorting clamped sum).1
      if rebuilt 256 = UInt16.ofNat PROB_TOTAL then fun index => rebuilt index else uniform

namespace ProbsToCdf

theorem toNat_add {first second : UInt16} (fits : first.toNat + second.toNat < 2 ^ 16) :
    (first + second).toNat = first.toNat + second.toNat :=
  (UInt16.toNat_add first second).trans (Nat.mod_eq_of_lt fits)

/-! ## Tables of increasing entries -/

theorem total_eq : (UInt16.ofNat PROB_TOTAL).toNat = 2 ^ 15 := by decide

/-- A table is valid when each entry is below the next, from zero to the total. -/
theorem valid_of_lt_succ {entries : Nat → UInt16} (zero : entries 0 = 0)
    (total : entries 256 = UInt16.ofNat PROB_TOTAL)
    (increasing : ∀ i < 256, (entries i).toNat < (entries (i + 1)).toNat) :
    Cdf.Valid fun index => entries index.val := by
  apply @Cdf.valid_of_boundary _ fun i => (entries i).toNat
  · intro index
    exact UInt16.ofNat_toNat.symm
  · rw [zero]
    rfl
  · rw [total]
    decide
  · apply strictMonoOn_Iic_of_lt_succ
    exact increasing

/-- The uniform table is valid. -/
theorem uniform_valid : uniform.Valid := by
  apply @Cdf.valid_of_boundary _ fun i => i * PROB_TOTAL / 256
  · intro index
    unfold uniform
    split
    · rfl
    · have last : index.val = 256 := by omega
      rw [last]
      rfl
  · rfl
  · decide
  · apply strictMonoOn_Iic_of_lt_succ
    intro i _
    have total : PROB_TOTAL = 256 * 128 := by decide
    rw [total, ← Nat.mul_assoc, ← Nat.mul_assoc, Nat.mul_right_comm, Nat.mul_right_comm _ 256]
    rw [Nat.mul_div_cancel _ (by decide), Nat.mul_div_cancel _ (by decide)]
    exact Nat.mul_lt_mul_of_pos_right (Nat.lt_succ_self i) (by decide)

section

variable {cdf : Nat → UInt16}

/-- Lifting raises an entry by no more than the entries in front of it. -/
theorem fixUp_le (small : ∀ i ≤ 256, (cdf i).toNat ≤ 2 ^ 15) {i : Nat} (inside : i ≤ 256) :
    (fixUp cdf i).toNat ≤ 2 ^ 15 + i := by
  induction i with
  | zero => exact small 0 inside
  | succ i recurse =>
      have before := recurse (Nat.le_of_succ_le inside)
      unfold fixUp
      split
      · have one : (1 : UInt16).toNat = 1 := rfl
        rw [toNat_add (by omega)]
        omega
      · exact (small _ inside).trans (Nat.le_add_right _ _)

/-- **Lifted entries increase strictly.** -/
theorem fixUp_lt_succ (small : ∀ i ≤ 256, (cdf i).toNat ≤ 2 ^ 15) {i : Nat} (inside : i < 256) :
    (fixUp cdf i).toNat < (fixUp cdf (i + 1)).toNat := by
  have le := fixUp_le small inside.le
  rw [fixUp]
  split
  · have one : (1 : UInt16).toNat = 1 := rfl
    rw [toNat_add (by omega)]
    omega
  · rename_i above
    exact UInt16.lt_iff_toNat_lt.mp (UInt16.not_le.mp above)

end

/-! ## Handing out what is left over -/

/-- Sorting leaves the symbols what they are. -/
theorem mem_sortBy (sorting : UnstableSort Nat) (compare : Nat → Nat → Ordering) {idx : Nat}
    (member : idx ∈ sorting.sortBy compare (List.range 256)) : idx < 256 :=
  List.mem_range.mp ((sorting.perm compare _).mem_iff.mp member)

/-- **Every unit is handed out** when there are as many symbols as units, and no frequency
falls. -/
theorem spread_spec {indices : List Nat} {freqs : Nat → UInt16} {units : UInt64} {bound : Nat}
    (enough : units.toNat ≤ indices.length) (symbols : ∀ idx ∈ indices, idx < 256)
    (room : ∀ i < 256, (freqs i).toNat + units.toNat ≤ bound) (fits : bound < 2 ^ 16) :
    (spread indices (freqs, units)).2 = 0 ∧
      ∑ i ∈ Finset.range 256, ((spread indices (freqs, units)).1 i).toNat =
        ∑ i ∈ Finset.range 256, (freqs i).toNat + units.toNat ∧
      ∀ i < 256, (freqs i).toNat ≤ ((spread indices (freqs, units)).1 i).toNat ∧
        ((spread indices (freqs, units)).1 i).toNat ≤ bound := by
  induction indices generalizing freqs units with
  | nil =>
      have none : units = 0 := UInt64.toNat_inj.mp (Nat.le_zero.mp enough)
      subst none
      exact ⟨rfl, (Nat.add_zero _).symm, fun i inside => ⟨le_rfl, room i inside⟩⟩
  | cons idx indices recurse =>
      unfold spread
      by_cases none : units = 0
      · rw [if_pos none]
        subst none
        exact ⟨rfl, (Nat.add_zero _).symm, fun i inside => ⟨le_rfl, room i inside⟩⟩
      · have positive : 1 ≤ units.toNat :=
          Nat.pos_of_ne_zero fun zero => none (UInt64.toNat_inj.mp zero)
        have one : (1 : UInt64).toNat = 1 := rfl
        have less : (units - 1).toNat = units.toNat - 1 :=
          UInt64.toNat_sub_of_le _ _ (UInt64.le_iff_toNat_le.mpr positive)
        have unit : (1 : UInt16).toNat = 1 := rfl
        have roomHere := room idx (symbols idx List.mem_cons_self)
        have raised : (freqs idx + 1).toNat = (freqs idx).toNat + 1 := toNat_add (by omega)
        have entry (i : Nat) : (Function.update freqs idx (freqs idx + 1) i).toNat =
            Function.update (fun i => (freqs i).toNat) idx ((freqs idx).toNat + 1) i := by
          rw [← raised]
          exact Function.apply_update (fun _ => UInt16.toNat) freqs idx _ i
        rw [if_neg none]
        obtain ⟨spent, sum, bounds⟩ := @recurse (Function.update freqs idx (freqs idx + 1))
          (units - 1)
          (by
            rw [less]
            rw [List.length_cons] at enough
            omega)
          (fun i member => symbols i (List.mem_cons_of_mem _ member))
          (by
            intro i inside
            have here := room i inside
            rw [entry, less, Function.update_apply]
            split
            · omega
            · omega)
        refine ⟨spent, ?_, ?_⟩
        · have inside : idx ∈ Finset.range 256 :=
            Finset.mem_range.mpr (symbols idx List.mem_cons_self)
          have given := Finset.add_sum_erase _ (fun i => (freqs i).toNat) inside
          have updated : ∑ i ∈ Finset.range 256,
              (Function.update freqs idx (freqs idx + 1) i).toNat = (freqs idx).toNat + 1 +
                ∑ i ∈ (Finset.range 256).erase idx, (freqs i).toNat := by
            rw [Finset.sum_congr rfl fun i _ => entry i, Finset.sum_update_of_mem inside,
              Finset.sdiff_singleton_eq_erase]
          rw [sum, updated, less]
          omega
        · intro i inside
          refine ⟨?_, (bounds i inside).2⟩
          refine le_trans ?_ (bounds i inside).1
          rw [entry, Function.update_apply]
          split
          · rename_i same
            rw [same]
            exact Nat.le_succ _
          · exact le_rfl

/-- The entries of a rebuilt table are the sums of the frequencies. -/
theorem toNat_rebuild {freqs : Nat → UInt16} {i : Nat}
    (fits : ∑ j ∈ Finset.range i, (freqs j).toNat < 2 ^ 16) :
    (rebuild freqs i).toNat = ∑ j ∈ Finset.range i, (freqs j).toNat := by
  induction i with
  | zero => rfl
  | succ i recurse =>
      rw [Finset.sum_range_succ] at fits ⊢
      have before := recurse (Nat.lt_of_le_of_lt (Nat.le_add_right _ _) fits)
      rw [rebuild, toNat_add (before ▸ fits), before]

/-! ## Exact arithmetic -/

open Extended (exactly exactly_add exactly_mul exactly_div exactly_lt exactly_le truncate_exactly)

/-- What a probability weighs: nothing when it is negative or not a number. -/
def weight : Extended → ℚ
  | .finite value => max value 0
  | _ => 0

/-- A weight is not negative. -/
theorem weight_nonneg (p : Extended) : 0 ≤ weight p := by
  cases p with
  | finite value => exact le_max_right _ _
  | infinite sign => exact le_rfl
  | nan => exact le_rfl

section

variable {functions : FloatFormats.OpenFunctions}

theorem zero_eq : (0.0 : (FloatFormats.extended functions).F64) = exactly 0 := by
  change Extended.finite (OfScientific.ofScientific 0 true 1) = .finite 0
  norm_num

theorem half_eq : (0.5 : (FloatFormats.extended functions).F64) = exactly (1 / 2) := by
  change Extended.finite (OfScientific.ofScientific 5 true 1) = .finite (1 / 2)
  norm_num

/-- Clamping a probability yields its weight. -/
theorem clamp_eq (p : (FloatFormats.extended functions).F32) :
    (clamp p : (FloatFormats.extended functions).F64) = exactly (weight p) := by
  unfold clamp
  rw [zero_eq]
  cases p with
  | finite value =>
      by_cases positive : 0 < value
      · refine (if_pos ⟨rfl, exactly_lt.mpr positive⟩).trans ?_
        rw [weight, max_eq_left positive.le]
        rfl
      · refine (if_neg fun both => positive (exactly_lt.mp both.2)).trans ?_
        rw [weight, max_eq_right (not_lt.mp positive)]
  | infinite sign => exact if_neg fun both => Bool.false_ne_true both.1
  | nan => exact if_neg fun both => Bool.false_ne_true both.1

variable {weights : Nat → ℚ}

/-- Weights as numbers of the format. -/
abbrev exactWeights (functions : FloatFormats.OpenFunctions) (weights : Nat → ℚ) :
    Nat → (FloatFormats.extended functions).F64 :=
  fun i => exactly (weights i)

/-- The running sum is exact. -/
theorem cumulate_eq (i : Nat) :
    cumulate (exactWeights functions weights) i = exactly (∑ j ∈ Finset.range i, weights j) := by
  induction i with
  | zero => exact zero_eq
  | succ i recurse =>
      rw [cumulate, recurse, Finset.sum_range_succ]
      exact exactly_add _ _

variable {sum : ℚ}

/-- The rounded boundary is the floor of the exact one. -/
theorem toNat_rounded {i : Nat} (inside : i < 256) (positive : 0 < sum)
    (nonneg : ∀ i, 0 ≤ weights i) (le : ∑ j ∈ Finset.range i, weights j ≤ sum) :
    (rounded (exactWeights functions weights) (exactly sum) i).toNat =
        ⌊(∑ j ∈ Finset.range i, weights j) * (PROB_TOTAL / sum) + 1 / 2⌋₊ ∧
      (rounded (exactWeights functions weights) (exactly sum) i).toNat ≤ 2 ^ 15 := by
  have total : PROB_TOTAL = 2 ^ 15 := rfl
  have scale : (PROB_TOTAL : (FloatFormats.extended functions).F64) / exactly sum =
      exactly (PROB_TOTAL / sum) := exactly_div positive.ne'
  have value : cumulate (exactWeights functions weights) i *
      ((PROB_TOTAL : (FloatFormats.extended functions).F64) / exactly sum) + 0.5 =
      exactly ((∑ j ∈ Finset.range i, weights j) * (PROB_TOTAL / sum) + 1 / 2) := by
    rw [cumulate_eq, half_eq, scale]
    rfl
  have scaled : (∑ j ∈ Finset.range i, weights j) * (PROB_TOTAL / sum) ≤ PROB_TOTAL := by
    rw [mul_div_left_comm]
    exact mul_le_of_le_one_right (Nat.cast_nonneg _) ((div_le_one positive).mpr le)
  have small : ⌊(∑ j ∈ Finset.range i, weights j) * (PROB_TOTAL / sum) + 1 / 2⌋₊ ≤ 2 ^ 15 := by
    apply Nat.le_of_lt_succ
    have above : (0 : ℚ) ≤ (∑ j ∈ Finset.range i, weights j) * (PROB_TOTAL / sum) :=
      mul_nonneg (Finset.sum_nonneg fun j _ => nonneg j) (by positivity)
    rw [Nat.floor_lt (by linarith), ← total, Nat.cast_succ]
    linarith
  have code : (rounded (exactWeights functions weights) (exactly sum) i).toNat =
      ⌊(∑ j ∈ Finset.range i, weights j) * (PROB_TOTAL / sum) + 1 / 2⌋₊ := by
    unfold rounded
    dsimp only
    rw [if_pos inside, value]
    refine (congrArg (fun n => (UInt16.ofNat n).toNat) (truncate_exactly 16 _)).trans ?_
    have size : UInt16.size = 2 ^ 16 := rfl
    rw [Int.floor_toNat, min_eq_left (by omega), UInt16.toNat_ofNat_of_lt' (by omega)]
  exact ⟨code, code ▸ small⟩

/-- The share of a symbol is the floor of the exact one, and at most the mass given out. -/
theorem toNat_share {i : Nat} (positive : 0 < sum) (le : weights i ≤ sum) :
    (share (exactWeights functions weights) (exactly sum) i).toNat =
        ⌊weights i / sum * REMAINING_MASS⌋₊ ∧
      (share (exactWeights functions weights) (exactly sum) i).toNat ≤ REMAINING_MASS := by
  have value : exactWeights functions weights i / exactly sum *
      (REMAINING_MASS : (FloatFormats.extended functions).F64) =
      exactly (weights i / sum * REMAINING_MASS) :=
    congrArg (· * _) (exactly_div positive.ne')
  have small : ⌊weights i / sum * REMAINING_MASS⌋₊ ≤ REMAINING_MASS := by
    apply Nat.floor_le_of_le
    exact mul_le_of_le_one_left (Nat.cast_nonneg _) ((div_le_one positive).mpr le)
  have mass : REMAINING_MASS = 32512 := rfl
  have code : (share (exactWeights functions weights) (exactly sum) i).toNat =
      ⌊weights i / sum * REMAINING_MASS⌋₊ := by
    unfold share
    rw [value]
    refine (congrArg (fun n => (UInt64.ofNat n).toNat) (truncate_exactly 64 _)).trans ?_
    have size : UInt64.size = 2 ^ 64 := rfl
    rw [Int.floor_toNat, min_eq_left (by omega), UInt64.toNat_ofNat_of_lt' (by omega)]
  exact ⟨code, code ▸ small⟩

/-- The weights of all symbols together. -/
abbrev weighed (weights : Nat → ℚ) : ℚ := ∑ i ∈ Finset.range 256, weights i

/-- The share of a symbol, rounded down. -/
abbrev floorShare (weights : Nat → ℚ) (i : Nat) : Nat :=
  ⌊weights i / weighed weights * REMAINING_MASS⌋₊

theorem weight_le_weighed (nonneg : ∀ i, 0 ≤ weights i) {i : Nat} (inside : i < 256) :
    weights i ≤ weighed weights :=
  Finset.single_le_sum (fun j _ => nonneg j) (Finset.mem_range.mpr inside)

section

variable (positive : 0 < weighed weights) (nonneg : ∀ i, 0 ≤ weights i)

include positive nonneg

/-- **What rounding down leaves over is less than a unit for each symbol.** -/
theorem sum_floorShare : ∑ i ∈ Finset.range 256, floorShare weights i ≤ REMAINING_MASS ∧
    REMAINING_MASS < ∑ i ∈ Finset.range 256, floorShare weights i + 256 := by
  have shares : ∑ i ∈ Finset.range 256, weights i / weighed weights * REMAINING_MASS =
      (REMAINING_MASS : ℚ) := by
    rw [← Finset.sum_mul, ← Finset.sum_div, div_self positive.ne', one_mul]
  have below := @Quantize.sum_floor_le ℚ _ _ _ _ _ (Finset.range 256)
    (fun i => weights i / weighed weights * REMAINING_MASS)
    (fun i _ => mul_nonneg (div_nonneg (nonneg i) positive.le) (Nat.cast_nonneg _))
  have above := @Quantize.sum_lt_sum_floor_add_card ℚ _ _ _ _ _ (Finset.range 256)
    (fun i => weights i / weighed weights * REMAINING_MASS) ⟨0, by decide⟩
  rw [shares] at below above
  rw [Finset.card_range] at above
  exact ⟨Nat.cast_le.mp below, Nat.cast_lt.mp above⟩

/-- The distributed mass is the sum of the floored shares. -/
theorem toNat_distributed {i : Nat} (inside : i ≤ 256) :
    (distributed (exactWeights functions weights) (exactly (weighed weights)) i).toNat =
      ∑ j ∈ Finset.range i, floorShare weights j := by
  have mass : REMAINING_MASS = 32512 := rfl
  induction i with
  | zero => rfl
  | succ i recurse =>
      have before := recurse (Nat.le_of_succ_le inside)
      have here : (share (exactWeights functions weights) (exactly (weighed weights)) i).toNat =
          floorShare weights i := (toNat_share positive (weight_le_weighed nonneg inside)).1
      have part : ∑ j ∈ Finset.range (i + 1), floorShare weights j ≤
          ∑ j ∈ Finset.range 256, floorShare weights j :=
        Finset.sum_le_sum_of_subset (Finset.range_mono inside)
      have all := (sum_floorShare positive nonneg).1
      rw [Finset.sum_range_succ] at part ⊢
      rw [distributed, UInt64.toNat_add, before, here]
      exact Nat.mod_eq_of_lt (by omega)

/-- What is left over is the mass that the floors leave. -/
theorem toNat_leftover :
    (leftover (exactWeights functions weights) (exactly (weighed weights))).toNat =
      REMAINING_MASS - ∑ i ∈ Finset.range 256, floorShare weights i := by
  have mass : (UInt64.ofNat REMAINING_MASS).toNat = REMAINING_MASS := rfl
  have all := @toNat_distributed functions weights positive nonneg 256 le_rfl
  unfold leftover
  rw [UInt64.toNat_sub_of_le, all, mass]
  rw [UInt64.le_iff_toNat_le, all, mass]
  exact (sum_floorShare positive nonneg).1

/-- A share fits the word of a frequency. -/
theorem toNat_narrowShare {i : Nat} (inside : i < 256) :
    (share (exactWeights functions weights) (exactly (weighed weights)) i).toUInt16.toNat =
      floorShare weights i ∧ floorShare weights i ≤ REMAINING_MASS := by
  have mass : REMAINING_MASS = 32512 := rfl
  obtain ⟨value, le⟩ := @toNat_share functions weights (weighed weights) i positive
    (weight_le_weighed nonneg inside)
  refine ⟨?_, value.ge.trans le⟩
  rw [UInt64.toNat_toUInt16, Nat.mod_eq_of_lt (by omega), value]

/-- The frequency a symbol starts with. -/
theorem toNat_shared {i : Nat} (inside : i < 256) :
    (shared (exactWeights functions weights) (exactly (weighed weights)) i).toNat =
      1 + floorShare weights i ∧ floorShare weights i ≤ REMAINING_MASS := by
  have mass : REMAINING_MASS = 32512 := rfl
  have one : (1 : UInt16).toNat = 1 := rfl
  obtain ⟨narrow, le⟩ := @toNat_narrowShare functions weights positive nonneg i inside
  refine ⟨?_, le⟩
  unfold shared
  rw [if_pos inside, toNat_add (by omega), narrow, one]

/-- The frequencies leave room for every unit left over. -/
theorem shared_room {i : Nat} (inside : i < 256) :
    (shared (exactWeights functions weights) (exactly (weighed weights)) i).toNat +
      (leftover (exactWeights functions weights) (exactly (weighed weights))).toNat ≤
        PROB_TOTAL := by
  have mass : REMAINING_MASS = 32512 := rfl
  have total : PROB_TOTAL = 32768 := rfl
  have lt := (sum_floorShare positive nonneg).2
  obtain ⟨value, le⟩ := @toNat_shared functions weights positive nonneg i inside
  rw [value, toNat_leftover positive nonneg]
  omega

/-- **Redistribution hands out the whole mass**, with at least one unit for every symbol. -/
theorem redistribute_spec (sorting : UnstableSort Nat) :
    (redistribute sorting (exactWeights functions weights) (exactly (weighed weights))).2 = 0 ∧
      ∑ i ∈ Finset.range 256, ((redistribute sorting (exactWeights functions weights)
        (exactly (weighed weights))).1 i).toNat = PROB_TOTAL ∧
      ∀ i < 256, 1 ≤ ((redistribute sorting (exactWeights functions weights)
        (exactly (weighed weights))).1 i).toNat := by
  have mass : REMAINING_MASS = 32512 := rfl
  have total : PROB_TOTAL = 32768 := rfl
  have left := @toNat_leftover functions weights positive nonneg
  obtain ⟨le, lt⟩ := sum_floorShare positive nonneg
  have sorted := sorting.perm (byProbability (exactWeights functions weights)) (List.range 256)
  have freq (i : Nat) (inside : i < 256) := @toNat_shared functions weights positive nonneg i inside
  obtain ⟨spent, sum, bounds⟩ := @spread_spec
    (sorting.sortBy (byProbability (exactWeights functions weights)) (List.range 256))
    (shared (exactWeights functions weights) (exactly (weighed weights)))
    (leftover (exactWeights functions weights) (exactly (weighed weights))) PROB_TOTAL
    (by
      rw [sorted.length_eq, List.length_range]
      omega)
    (fun idx member => mem_sortBy sorting _ member)
    (fun i => shared_room positive nonneg) (by decide)
  refine ⟨spent, ?_, ?_⟩
  · have units : ∑ i ∈ Finset.range 256, (shared (exactWeights functions weights)
        (exactly (weighed weights)) i).toNat =
        256 + ∑ i ∈ Finset.range 256, floorShare weights i := by
      rw [Finset.sum_congr rfl fun i member => (freq i (Finset.mem_range.mp member)).1,
        Finset.sum_add_distrib, Finset.sum_const, Finset.card_range, smul_eq_mul]
    have handed := sum.trans (congrArg₂ (· + ·) units left)
    exact handed.trans (by omega)
  · intro i inside
    refine le_trans ?_ (bounds i inside).1
    rw [(freq i inside).1]
    exact Nat.le_add_right _ _

/-- Every entry of the rounded table is within the total, and the last one is the total. -/
theorem rounded_le {i : Nat} (inside : i ≤ 256) :
    (rounded (exactWeights functions weights) (exactly (weighed weights)) i).toNat ≤ 2 ^ 15 := by
  rcases Nat.lt_or_eq_of_le inside with before | rfl
  · apply (toNat_rounded before positive nonneg _).2
    exact Finset.sum_le_sum_of_subset_of_nonneg (Finset.range_mono before.le) fun j _ _ => nonneg j
  · exact total_eq.le

/-- The first boundary is zero. -/
theorem rounded_zero :
    rounded (exactWeights functions weights) (exactly (weighed weights)) 0 = 0 := by
  apply UInt16.toNat_inj.mp
  rw [(toNat_rounded (by decide) positive nonneg (by
    rw [Finset.sum_range_zero]
    exact positive.le)).1, Finset.sum_range_zero, zero_mul, zero_add]
  exact Nat.floor_eq_zero.mpr (by norm_num)

/-- The lifted table is valid when it ends at the total. -/
theorem fixUp_valid
    (total : fixUp (rounded (exactWeights functions weights) (exactly (weighed weights))) 256 =
      UInt16.ofNat PROB_TOTAL) :
    Cdf.Valid fun index =>
      fixUp (rounded (exactWeights functions weights) (exactly (weighed weights))) index.val := by
  have zero := @rounded_zero functions weights positive nonneg
  have small {j : Nat} (inside : j ≤ 256) := @rounded_le functions weights positive nonneg j inside
  generalize rounded (exactWeights functions weights) (exactly (weighed weights)) = cdf
    at total zero small ⊢
  apply @valid_of_lt_succ (fixUp cdf) zero total
  intro i inside
  exact fixUp_lt_succ (fun j => small) inside

/-- **The rebuilt table is valid**, and ends at the total. -/
theorem rebuild_valid (sorting : UnstableSort Nat) :
    rebuild (redistribute sorting (exactWeights functions weights)
        (exactly (weighed weights))).1 256 = UInt16.ofNat PROB_TOTAL ∧
      Cdf.Valid fun index => rebuild (redistribute sorting (exactWeights functions weights)
        (exactly (weighed weights))).1 index.val := by
  obtain ⟨-, sum, units⟩ := @redistribute_spec functions weights positive nonneg sorting
  generalize (redistribute sorting (exactWeights functions weights)
    (exactly (weighed weights))).1 = freqs at sum units ⊢
  have entry {i : Nat} (inside : i ≤ 256) :
      (rebuild freqs i).toNat = ∑ j ∈ Finset.range i, (freqs j).toNat := by
    apply toNat_rebuild
    calc ∑ j ∈ Finset.range i, (freqs j).toNat ≤ ∑ j ∈ Finset.range 256, (freqs j).toNat :=
          Finset.sum_le_sum_of_subset (Finset.range_mono inside)
      _ = PROB_TOTAL := sum
      _ < 2 ^ 16 := by decide
  have ends : rebuild freqs 256 = UInt16.ofNat PROB_TOTAL := by
    apply UInt16.toNat_inj.mp
    rw [entry le_rfl, sum]
    rfl
  refine ⟨ends, valid_of_lt_succ rfl ends ?_⟩
  intro i inside
  rw [entry inside.le, entry inside, Finset.sum_range_succ]
  exact Nat.lt_add_of_pos_right (units i inside)

end

/-- **Every distribution gives a valid table.** -/
theorem probsToCdf_valid (sorting : UnstableSort Nat)
    (probs : Nat → (FloatFormats.extended functions).F32) : (probsToCdf sorting probs).Valid := by
  have clamped : (fun i => clamp (probs i)) =
      exactWeights functions fun i => weight (probs i) := funext fun i => clamp_eq (probs i)
  unfold probsToCdf
  dsimp only
  rw [clamped, cumulate_eq, zero_eq]
  split
  · exact uniform_valid
  · rename_i some
    have positive : 0 < weighed fun i => weight (probs i) :=
      not_le.mp fun le => some (exactly_le.mpr le)
    have nonneg (i : Nat) : 0 ≤ weight (probs i) := weight_nonneg _
    split
    · exact fixUp_valid positive nonneg ‹_›
    · obtain ⟨ends, valid⟩ := @rebuild_valid functions _ positive nonneg sorting
      rw [if_pos ends]
      exact valid

end

end ProbsToCdf

end AetherArch
