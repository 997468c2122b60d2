import AetherArch.Coding.ProbsToCdf
import AetherArch.Library.Checked

/-! # From probabilities to a table by machine steps

The loops over the table and the frequencies in place, with every addition of table entries and
every sum and difference of shares checked. In exact arithmetic none of them leaves its word.
-/

namespace AetherArch

open Checked ProbsToCdf
open Extended (exactly exactly_le)

namespace Machine

/-- The sum of two table entries. -/
def add16 (first second : UInt16) : Run AetherError UInt16 :=
  if first.toNat + second.toNat < 2 ^ 16 then .ok (first + second) else fault .overflow

def add64 (first second : UInt64) : Run AetherError UInt64 :=
  if first.toNat + second.toNat < 2 ^ 64 then .ok (first + second) else fault .overflow

def sub64 (first second : UInt64) : Run AetherError UInt64 :=
  if second ≤ first then .ok (first - second) else fault .underflow

/-- Lift an entry over the one before it. -/
def fixUpRound (i : Nat) (cdf : Nat → UInt16) : Run AetherError (Nat → UInt16) :=
  if cdf (i + 1) ≤ cdf i then do
    let lifted ← add16 (cdf i) 1
    .ok (Function.update cdf (i + 1) lifted)
  else .ok cdf

variable {formats : FloatFormats}

/-- Give a symbol its share of the remaining mass. -/
def shareRound (clamped : Nat → formats.F64) (sum : formats.F64) (i : Nat)
    (state : (Nat → UInt16) × UInt64) : Run AetherError ((Nat → UInt16) × UInt64) := do
  let (freqs, distributed) := state
  let share := share clamped sum i
  let freq ← add16 (freqs i) share.toUInt16
  let distributed ← add64 distributed share
  .ok (Function.update freqs i freq, distributed)

/-- Give one unit each to the symbols of a list, as long as there are units left. -/
def spread : List Nat → (Nat → UInt16) × UInt64 → Run AetherError ((Nat → UInt16) × UInt64)
  | [], state => .ok state
  | idx :: indices, (freqs, leftover) =>
      if leftover = 0 then .ok (freqs, leftover)
      else do
        let freq ← add16 (freqs idx) 1
        let leftover ← sub64 leftover 1
        spread indices (Function.update freqs idx freq, leftover)

/-- The next entry of a rebuilt table. -/
def rebuildRound (freqs : Nat → UInt16) (i : Nat) (cdf : Nat → UInt16) :
    Run AetherError (Nat → UInt16) := do
  let next ← add16 (cdf i) (freqs i)
  .ok (Function.update cdf (i + 1) next)

/-- Convert a probability distribution over bytes to a cumulative frequency table. -/
def probsToCdf (sorting : UnstableSort Nat) (probs : Nat → formats.F32) : Run AetherError Cdf :=
  let clamped := fun i => clamp (probs i)
  let sum := cumulate clamped 256
  if sum ≤ 0.0 then .ok uniform
  else do
    let cdf ← forRange fixUpRound 0 256 (rounded clamped sum)
    if cdf 256 = UInt16.ofNat PROB_TOTAL then .ok fun index => cdf index
    else
      let (freqs, distributed) ← forRange (shareRound clamped sum) 0 256 (fun _ => 1, 0)
      let leftover ← sub64 (UInt64.ofNat REMAINING_MASS) distributed
      let (freqs, _) ← spread (sorting.sortBy (byProbability clamped) (List.range 256))
        (freqs, leftover)
      let rebuilt ← forRange (rebuildRound freqs) 0 256 (Function.update cdf 0 0)
      if rebuilt 256 = UInt16.ofNat PROB_TOTAL then .ok fun index => rebuilt index
      else .ok uniform

/-! ## The loops -/

theorem add16_of_lt {first second : UInt16} (fits : first.toNat + second.toNat < 2 ^ 16) :
    add16 first second = .ok (first + second) :=
  if_pos fits

theorem add64_of_lt {first second : UInt64} (fits : first.toNat + second.toNat < 2 ^ 64) :
    add64 first second = .ok (first + second) :=
  if_pos fits

theorem sub64_of_le {first second : UInt64} (le : second.toNat ≤ first.toNat) :
    sub64 first second = .ok (first - second) :=
  if_pos (UInt64.le_iff_toNat_le.mpr le)

/-- **Lifting entries overflows nowhere** when they are within the total. -/
theorem fixUp_ends {cdf : Nat → UInt16} (small : ∀ i ≤ 256, (cdf i).toNat ≤ 2 ^ 15) :
    ∃ fixed, forRange fixUpRound 0 256 cdf = .ok fixed ∧ ∀ i ≤ 256, fixed i = fixUp cdf i := by
  obtain ⟨fixed, ran, same⟩ := @forRange_ends AetherError (Nat → UInt16) fixUpRound
    (fun i fixed => ∀ j, fixed j = if j ≤ i then fixUp cdf j else cdf j) 0 256 cdf (by
      intro i fixed _ below same
      have here : fixed i = fixUp cdf i := (same i).trans (if_pos le_rfl)
      have next : fixed (i + 1) = cdf (i + 1) := (same _).trans (if_neg (by omega))
      have inside : i ≤ 256 := by omega
      have le := fixUp_le small inside
      have one : (1 : UInt16).toNat = 1 := rfl
      unfold fixUpRound
      rw [here, next]
      by_cases collapsed : cdf (i + 1) ≤ fixUp cdf i
      · rw [if_pos collapsed, add16_of_lt (by omega), Result.ok_bind]
        refine ⟨_, rfl, ?_⟩
        intro j
        rw [Function.update_apply]
        by_cases last : j = i + 1
        · rw [if_pos last, last, if_pos le_rfl, fixUp, if_pos collapsed]
        · rw [if_neg last, same]
          exact if_congr (by omega) rfl rfl
      · rw [if_neg collapsed]
        refine ⟨_, rfl, ?_⟩
        intro j
        by_cases last : j = i + 1
        · rw [last, next, if_pos le_rfl, fixUp, if_neg collapsed]
        · rw [same]
          exact if_congr (by omega) rfl rfl)
    (by
      intro j
      by_cases first : j ≤ 0
      · rw [if_pos first, Nat.le_zero.mp first]
        rfl
      · rw [if_neg first])
  refine ⟨fixed, ran, fun i inside => (same i).trans (if_pos ?_)⟩
  omega

/-- **Handing out units overflows nowhere** while the frequencies leave room for them. -/
theorem spread_eq {indices : List Nat} {freqs : Nat → UInt16} {units : UInt64} {bound : Nat}
    (symbols : ∀ idx ∈ indices, idx < 256)
    (room : ∀ i < 256, (freqs i).toNat + units.toNat ≤ bound) (fits : bound < 2 ^ 16) :
    spread indices (freqs, units) = .ok (ProbsToCdf.spread indices (freqs, units)) := by
  induction indices generalizing freqs units with
  | nil => rfl
  | cons idx indices recurse =>
      unfold spread ProbsToCdf.spread
      by_cases none : units = 0
      · rw [if_pos none, if_pos none]
      · have positive : 1 ≤ units.toNat :=
          Nat.pos_of_ne_zero fun zero => none (UInt64.toNat_inj.mp zero)
        have one : (1 : UInt64).toNat = 1 := rfl
        have less : (units - 1).toNat = units.toNat - 1 :=
          UInt64.toNat_sub_of_le _ _ (UInt64.le_iff_toNat_le.mpr positive)
        have unit : (1 : UInt16).toNat = 1 := rfl
        have roomHere := room idx (symbols idx List.mem_cons_self)
        have raised : (freqs idx + 1).toNat = (freqs idx).toNat + 1 := toNat_add (by omega)
        rw [if_neg none, if_neg none, add16_of_lt (by omega), Result.ok_bind,
          sub64_of_le (by omega), Result.ok_bind]
        apply recurse (fun i member => symbols i (List.mem_cons_of_mem _ member))
        intro i inside
        have here := room i inside
        rw [less, Function.update_apply]
        split
        · rw [raised]
          omega
        · omega

/-- **Rebuilding the table overflows nowhere** when the frequencies sum up within a word. -/
theorem rebuild_ends {freqs cdf : Nat → UInt16} (zero : cdf 0 = 0)
    (fits : ∑ i ∈ Finset.range 256, (freqs i).toNat < 2 ^ 16) :
    ∃ rebuilt, forRange (rebuildRound freqs) 0 256 cdf = .ok rebuilt ∧
      ∀ i ≤ 256, rebuilt i = rebuild freqs i := by
  obtain ⟨rebuilt, ran, same⟩ := @forRange_ends AetherError (Nat → UInt16) (rebuildRound freqs)
    (fun i rebuilt => ∀ j ≤ i, rebuilt j = rebuild freqs j) 0 256 cdf (by
      intro i rebuilt _ below same
      have part : ∑ j ∈ Finset.range (i + 1), (freqs j).toNat ≤
          ∑ j ∈ Finset.range 256, (freqs j).toNat :=
        Finset.sum_le_sum_of_subset (Finset.range_mono (by omega))
      rw [Finset.sum_range_succ] at part
      have before : (rebuild freqs i).toNat = ∑ j ∈ Finset.range i, (freqs j).toNat :=
        toNat_rebuild (by omega)
      unfold rebuildRound
      rw [same i le_rfl, add16_of_lt (by omega), Result.ok_bind]
      refine ⟨_, rfl, ?_⟩
      intro j le
      rw [Function.update_apply]
      by_cases last : j = i + 1
      · rw [if_pos last, last]
        rfl
      · rw [if_neg last]
        exact same j (by omega))
    (by
      intro j le
      rw [Nat.le_zero.mp le, zero]
      rfl)
  exact ⟨rebuilt, ran, fun i inside => same i (by omega)⟩

section

variable {functions : FloatFormats.OpenFunctions} {weights : Nat → ℚ}

/-- **Summing up the shares overflows nowhere**, and the sum is within the mass. -/
theorem shares_end (positive : 0 < weighed weights) (nonneg : ∀ i, 0 ≤ weights i) :
    forRange (shareRound (exactWeights functions weights) (exactly (weighed weights))) 0 256
        (fun _ => 1, 0) =
      .ok (shared (exactWeights functions weights) (exactly (weighed weights)),
        distributed (exactWeights functions weights) (exactly (weighed weights)) 256) := by
  obtain ⟨⟨freqs, total⟩, ran, entries, sum⟩ := @forRange_ends AetherError
    ((Nat → UInt16) × UInt64)
    (shareRound (exactWeights functions weights) (exactly (weighed weights)))
    (fun i state => (∀ j, state.1 j = if j < i then
        1 + (share (exactWeights functions weights) (exactly (weighed weights)) j).toUInt16
        else 1) ∧
      state.2 = distributed (exactWeights functions weights) (exactly (weighed weights)) i)
    0 256 (fun _ => 1, 0) (by
      rintro i ⟨freqs, total⟩ - below ⟨entries, rfl⟩
      have inside : i < 256 := by omega
      have mass : REMAINING_MASS = 32512 := rfl
      have one : (1 : UInt16).toNat = 1 := rfl
      obtain ⟨narrow, le⟩ := @toNat_narrowShare functions weights positive nonneg i inside
      have before := @toNat_distributed functions weights positive nonneg i inside.le
      have after := @toNat_distributed functions weights positive nonneg (i + 1) inside
      have wide : (share (exactWeights functions weights) (exactly (weighed weights)) i).toNat =
          floorShare weights i := (toNat_share positive (weight_le_weighed nonneg inside)).1
      have part : ∑ j ∈ Finset.range i, floorShare weights j ≤
          ∑ j ∈ Finset.range 256, floorShare weights j :=
        Finset.sum_le_sum_of_subset (Finset.range_mono inside.le)
      have whole := (sum_floorShare positive nonneg).1
      have here : freqs i = 1 := (entries i).trans (if_neg (lt_irrefl i))
      unfold shareRound
      dsimp only
      rw [here, add16_of_lt (by omega), Result.ok_bind, add64_of_lt (by omega), Result.ok_bind]
      refine ⟨_, rfl, ?_, rfl⟩
      intro j
      dsimp only
      rw [Function.update_apply]
      by_cases last : j = i
      · rw [if_pos last, last, if_pos (Nat.lt_succ_self i)]
      · rw [if_neg last]
        refine (entries j).trans ?_
        exact if_congr (by omega) rfl rfl)
    ⟨fun j => (if_neg (Nat.not_lt_zero j)).symm, rfl⟩
  have same : freqs = shared (exactWeights functions weights) (exactly (weighed weights)) :=
    funext fun j => entries j
  rw [ran, ← same]
  exact congrArg (fun total => Except.ok (freqs, total)) sum

/-- **Quantisation is always valid** in exact arithmetic: no addition of table entries or of shares
overflows, no share is handed out that is not there, the table increases strictly from zero to the
total, and what rounding leaves over is handed out in full, so that the rebuilt table needs no
replacement. -/
theorem probsToCdf_exact (sorting : UnstableSort Nat)
    (probs : Nat → (FloatFormats.extended functions).F32) :
    probsToCdf sorting probs = .ok (AetherArch.probsToCdf sorting probs) ∧
      (AetherArch.probsToCdf sorting probs).Valid ∧
      (¬cumulate (fun i => clamp (probs i)) 256 ≤ 0.0 →
        (redistribute sorting (fun i => clamp (probs i))
            (cumulate (fun i => clamp (probs i)) 256)).2 = 0 ∧
          rebuild (redistribute sorting (fun i => clamp (probs i))
            (cumulate (fun i => clamp (probs i)) 256)).1 256 = UInt16.ofNat PROB_TOTAL) := by
  have clamped : (fun i => clamp (probs i)) =
      exactWeights functions fun i => weight (probs i) := funext fun i => clamp_eq (probs i)
  refine ⟨?_, probsToCdf_valid sorting probs, ?_⟩
  · unfold probsToCdf AetherArch.probsToCdf
    dsimp only
    rw [clamped, cumulate_eq, zero_eq]
    by_cases none : exactly (weighed fun i => weight (probs i)) ≤
        (exactly 0 : (FloatFormats.extended functions).F64)
    · rw [if_pos none, if_pos none]
    · have positive : 0 < weighed fun i => weight (probs i) :=
        not_le.mp fun le => none (exactly_le.mpr le)
      have nonneg (i : Nat) : 0 ≤ weight (probs i) := weight_nonneg _
      obtain ⟨fixed, lifts, fixedEq⟩ := fixUp_ends fun i inside =>
        @rounded_le functions _ positive nonneg i inside
      rw [if_neg none, if_neg none, lifts, Result.ok_bind, fixedEq 256 le_rfl]
      split
      · refine congrArg Except.ok (funext fun index => ?_)
        exact fixedEq index (Nat.le_of_lt_succ index.isLt)
      · have within := (sum_floorShare positive nonneg).1
        have total := @toNat_distributed functions _ positive nonneg 256 le_rfl
        have mass : (UInt64.ofNat REMAINING_MASS).toNat = REMAINING_MASS := rfl
        obtain ⟨spent, sum, -⟩ := @redistribute_spec functions _ positive nonneg sorting
        have spreads := @spread_eq _
          (shared (exactWeights functions fun i => weight (probs i)) _) _ PROB_TOTAL
          (fun idx member => mem_sortBy sorting
            (byProbability (exactWeights functions fun i => weight (probs i))) member)
          (fun i => @shared_room functions _ positive nonneg i) (by decide)
        obtain ⟨rebuilt, rebuilds, rebuiltEq⟩ := @rebuild_ends
          (redistribute sorting (exactWeights functions fun i => weight (probs i))
            (exactly (weighed fun i => weight (probs i)))).1
          (Function.update fixed 0 0) (Function.update_self ..) (by
            rw [sum]
            decide)
        rw [shares_end positive nonneg, Result.ok_bind]
        dsimp only
        rw [sub64_of_le (by rw [total, mass]; exact within), Result.ok_bind]
        refine (congrArg (· >>= _) spreads).trans ?_
        rw [Result.ok_bind]
        refine (congrArg (· >>= _) rebuilds).trans ?_
        rw [Result.ok_bind, rebuiltEq 256 le_rfl]
        split
        · refine congrArg Except.ok (funext fun index => ?_)
          exact rebuiltEq index (Nat.le_of_lt_succ index.isLt)
        · rfl
  · intro some
    rw [clamped, cumulate_eq] at some ⊢
    rw [zero_eq] at some
    have positive : 0 < weighed fun i => weight (probs i) :=
      not_le.mp fun le => some (exactly_le.mpr le)
    have nonneg (i : Nat) : 0 ≤ weight (probs i) := weight_nonneg _
    exact ⟨(redistribute_spec positive nonneg sorting).1,
      (rebuild_valid positive nonneg sorting).1⟩

end

end Machine

end AetherArch
