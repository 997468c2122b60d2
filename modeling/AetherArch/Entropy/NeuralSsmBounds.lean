import AetherArch.Entropy.SavedCounts

/-! # The neural predictor within the bounds of its loader

Over exact arithmetic the decay rates mix the hidden state with numbers between minus one and one,
and weights are clipped: what a predictor holds is always something that it would load.
-/

namespace AetherArch

namespace NeuralSsmPredictor

open NeuralSsm
variable {functions : ExactFunctions}

/-- In exact numbers, loadable means within the bound. -/
theorem loadable_exact_iff (bound x : ℚ) : @Loadable (.exact functions) bound x ↔ |x| ≤ bound := by
  have magnitude : (if decide (x < 0) = true then -x else x) = |x| := by
    split
    · rename_i negative
      exact (abs_of_neg (of_decide_eq_true negative)).symm
    · rename_i other
      exact (abs_of_nonneg (not_lt.mp fun negative => other (decide_eq_true negative))).symm
  have within : @Loadable (.exact functions) bound x ↔
      true = true ∧ decide ((if decide (x < 0) = true then -x else x) ≤ bound) = true := Iff.rfl
  rw [within, magnitude, decide_eq_true_eq]
  exact and_iff_right rfl

/-- A number restricted to a range around zero. -/
theorem abs_clamp_le (value : ℚ) {bound : ℚ} (nonneg : 0 ≤ bound) :
    |if decide (value < -bound) = true then -bound
      else if decide (bound < value) = true then bound else value| ≤ bound := by
  rw [abs_le]
  split
  · exact ⟨le_rfl, by linarith⟩
  · rename_i above
    split
    · exact ⟨by linarith, le_rfl⟩
    · rename_i below
      rw [decide_eq_true_eq, not_lt] at above below
      exact ⟨above, below⟩

/-- A clipped weight is within its bound. -/
theorem loadable_clipWeight (weight gradient : (SsmArithmetic.exact functions).F32) :
    Loadable (WEIGHT_BOUND _) (clipWeight weight gradient) := by
  have clipped (value : ℚ) := abs_clamp_le value (show (0 : ℚ) ≤ 10.0 by norm_num)
  exact (loadable_exact_iff _ _).mpr (clipped _)

/-- Hashing yields numbers between minus one and one. -/
theorem loadable_detHash (seed : UInt32) :
    @Loadable (.exact functions) (1 : ℚ) (detHash _ seed) := by
  have scaled (word : UInt32) : |((word >>> 9).toNat : ℚ) / 4194304.0 - 1.0| ≤ 1 := by
    have small : (word >>> 9).toNat ≤ 8388607 := by
      have lt := word.toNat_lt
      rw [UInt32.toNat_shiftRight, Nat.shiftRight_eq_div_pow]
      have shift : (9 : UInt32).toNat % 32 = 9 := rfl
      rw [shift]
      omega
    have cast : ((word >>> 9).toNat : ℚ) ≤ 8388607 := by exact_mod_cast small
    have nonneg : (0 : ℚ) ≤ ((word >>> 9).toNat : ℚ) := Nat.cast_nonneg _
    generalize ((word >>> 9).toNat : ℚ) = x at cast nonneg
    rw [abs_le]
    norm_num
    constructor
    · linarith
    · linarith
  exact (loadable_exact_iff _ _).mpr (scaled _)

/-- A rate between zero and one. -/
def IsRate (rate : ℚ) : Prop := 0 ≤ rate ∧ rate ≤ 1

/-- The decay rates are rates. -/
theorem isRate_decayRates (cfg : NeuralSsmConfig (SsmArithmetic.exact functions).toFloatFormats)
    {i : Nat} (inside : i < (validateConfig cfg).d) :
    IsRate (decayRates (validateConfig cfg) i) := by
  have clamped (value lo : ℚ) (ordered : lo ≤ 1) :
      lo ≤ (if decide (value < lo) = true then lo
        else if decide ((1.0 : ℚ) < value) = true then 1.0 else value) ∧
      (if decide (value < lo) = true then lo
        else if decide ((1.0 : ℚ) < value) = true then 1.0 else value) ≤ 1 := by
    have one : (1.0 : ℚ) = 1 := by norm_num
    split
    · exact ⟨le_rfl, ordered⟩
    · rename_i above
      split
      · exact ⟨one.symm ▸ ordered, one.le⟩
      · rename_i below
        rw [decide_eq_true_eq, not_lt] at above below
        exact ⟨above, one ▸ below⟩
  obtain ⟨lo, loEq, loNonneg, loLe⟩ : ∃ lo : ℚ, (validateConfig cfg).decayLo = lo ∧ 0 ≤ lo ∧
      lo ≤ 1 := by
    have bounds := clamped cfg.decayLo 0.0 (by norm_num)
    refine ⟨_, rfl, ?_, bounds.2⟩
    calc (0 : ℚ) = 0.0 := by norm_num
      _ ≤ _ := bounds.1
  obtain ⟨hi, hiEq, loLeHi, hiLe⟩ : ∃ hi : ℚ, (validateConfig cfg).decayHi = hi ∧ lo ≤ hi ∧
      hi ≤ 1 := by
    subst loEq
    exact ⟨_, rfl, clamped cfg.decayHi _ loLe⟩
  have spaced {lo hi : ℚ} (loEq : (validateConfig cfg).decayLo = lo)
      (hiEq : (validateConfig cfg).decayHi = hi) : decayRates (validateConfig cfg) i =
        lo + (i : ℚ) / ((max ((validateConfig cfg).d - 1) 1 : ℕ) : ℚ) * (hi - lo) := by
    subst loEq hiEq
    exact if_pos inside
  have place : (i : ℚ) / ((max ((validateConfig cfg).d - 1) 1 : ℕ) : ℚ) ≤ 1 := by
    rw [div_le_one (by positivity)]
    exact_mod_cast le_max_of_le_left (by omega)
  have nonneg : (0 : ℚ) ≤ (i : ℚ) / ((max ((validateConfig cfg).d - 1) 1 : ℕ) : ℚ) := by positivity
  rw [spaced loEq hiEq]
  generalize (i : ℚ) / ((max ((validateConfig cfg).d - 1) 1 : ℕ) : ℚ) = t at place nonneg
  have room : 0 ≤ hi - lo := by linarith
  have lower := mul_nonneg nonneg room
  have upper := mul_le_of_le_one_left room place
  have rate : 0 ≤ lo + t * (hi - lo) ∧ lo + t * (hi - lo) ≤ 1 := ⟨by linarith, by linarith⟩
  exact rate

/-- The hidden state stays within its bound. -/
theorem loadable_hidden {rate hidden inverse input : ℚ} (isRate : IsRate rate)
    (inverseEq : inverse = 1.0 - rate) (within : @Loadable (.exact functions) (5 : ℚ) hidden)
    (entry : @Loadable (.exact functions) (1 : ℚ) input) :
    @Loadable (.exact functions) (5 : ℚ) (rate * hidden + inverse * input : ℚ) := by
  have nonneg : 0 ≤ rate := isRate.1
  have rest : 0 ≤ 1 - rate := sub_nonneg.mpr isRate.2
  have mixed : inverse = 1 - rate := by
    rw [inverseEq]
    norm_num
  rw [loadable_exact_iff, abs_le] at within entry ⊢
  have hiddenLow := mul_le_mul_of_nonneg_left within.1 nonneg
  have hiddenHigh := mul_le_mul_of_nonneg_left within.2 nonneg
  have inputLow := mul_le_mul_of_nonneg_left entry.1 rest
  have inputHigh := mul_le_mul_of_nonneg_left entry.2 rest
  rw [mixed]
  exact ⟨by linarith, by linarith⟩

section

variable {arith : SsmArithmetic}

/-- What is learned is within the bounds of the loader. -/
structure LearnedBounded (d : Nat) (learned : SsmState arith.toFloatFormats) : Prop where
  numbers : NumbersBounded d learned
  wellFormed : LearnedWellFormed learned
  rle : learned.rle.Savable
  o2_le (ctx lit : Nat) : ctx < NUM_O2_CTX → lit < NUM_LITS →
    learned.o2LitCounts ctx lit ≤ MAX_O2_COUNT
  step_lt : learned.step < 2 ^ 32

/-- A savable run model leaves the learned state bounded. -/
theorem LearnedBounded.withRle {d : Nat} {learned : SsmState arith.toFloatFormats}
    (bounded : LearnedBounded d learned) {rle : RlePredictor} (savable : rle.Savable) :
    LearnedBounded d { learned with rle := rle } where
  numbers := ⟨bounded.numbers.h, bounded.numbers.wRun, bounded.numbers.bRun,
    bounded.numbers.wRuna, bounded.numbers.bRuna, bounded.numbers.ssmPerf, bounded.numbers.rlePerf⟩
  wellFormed := bounded.wellFormed.withRle savable.roomy.wellFormed
  rle := savable
  o2_le := bounded.o2_le
  step_lt := bounded.step_lt

/-- **Loading keeps the bounds**, whether or not the saved state is accepted. -/
theorem LearnedBounded.loadState {state : NeuralSsmPredictor arith}
    (bounded : LearnedBounded state.cfg.d state.toSsmState) (data : Bytes) :
    LearnedBounded state.cfg.d (state.loadState data).2.toSsmState := by
  refine loadState_induction data bounded
    (fun _ nested learned => learned.withRle (bounded.rle.loadState nested)) ?_
  intro parsed _ _ success
  obtain ⟨known, -, numbers⟩ := parseState_spec success
  exact
    { numbers := numbers
      wellFormed := ⟨known.rle ▸ bounded.wellFormed.rle, known.counted⟩
      rle := known.rle ▸ bounded.rle
      o2_le := fun ctx lit inside literal => known.count_le ctx inside lit literal
      step_lt := known.step_lt }

/-- What a predictor has learned and what it returns to is within the bounds. -/
structure Bounded (state : NeuralSsmPredictor arith) : Prop where
  learned : LearnedBounded state.cfg.d state.toSsmState
  baseline : ∀ baseline ∈ state.dictBaseline, LearnedBounded state.cfg.d baseline.toSsmState

/-- The same setup with bounded learning is bounded. -/
theorem Bounded.of_sameSetup {state other : NeuralSsmPredictor arith} (bounded : state.Bounded)
    (same : SameSetup state other) (learned : LearnedBounded state.cfg.d other.toSsmState) :
    other.Bounded :=
  ⟨same.cfg ▸ learned, same.cfg ▸ same.dictBaseline ▸ bounded.baseline⟩

/-- Installing a baseline keeps a state bounded. -/
theorem Bounded.setDictBaseline {state : NeuralSsmPredictor arith} (bounded : state.Bounded)
    (data : Bytes) : (state.setDictBaseline data).2.Bounded := by
  have loaded := bounded.of_sameSetup (sameSetup_loadState state data)
    (bounded.learned.loadState data)
  rw [NeuralSsmPredictor.setDictBaseline]
  split
  · rename_i rejected
    rw [rejected] at loaded
    exact loaded
  · rename_i accepted
    rw [accepted] at loaded
    refine ⟨loaded.learned, ?_⟩
    rintro _ ⟨⟩
    exact loaded.learned

end

/-- What nothing was learned into is bounded. -/
theorem LearnedBounded.fresh (d : Nat) :
    LearnedBounded d (SsmState.fresh (SsmArithmetic.exact functions).toFloatFormats) := by
  have zero {bound : ℚ} (nonneg : 0 ≤ bound) : @Loadable (.exact functions) bound (0.0 : ℚ) := by
    rw [loadable_exact_iff]
    norm_num
    exact nonneg
  have hidden := zero (show (0 : ℚ) ≤ 5.0 by norm_num)
  have weight := zero (show (0 : ℚ) ≤ 10.0 by norm_num)
  exact ⟨⟨fun _ _ => hidden, fun _ _ => weight, weight, fun _ _ => weight, weight, rfl, rfl⟩,
    .fresh _, RlePredictor.new_savable, fun _ _ _ _ => Nat.zero_le _, Nat.two_pow_pos 32⟩

theorem hidden_bound : HIDDEN_BOUND (.exact functions) = (5 : ℚ) := by
  change (5.0 : ℚ) = 5
  norm_num

/-- The next hidden state is within its bound. -/
theorem Configured.loadable_h {state : NeuralSsmPredictor (.exact functions)}
    (configured : state.Configured) {i : Nat} (inside : i < state.cfg.d)
    (within : Loadable (HIDDEN_BOUND _) (state.h i)) (byte : UInt8) :
    Loadable (HIDDEN_BOUND _)
      (state.a i * state.h i + state.aInv i * state.embed byte.toNat i) := by
  obtain ⟨cfg, checked⟩ := configured.checked
  have rate : IsRate (state.a i) := by
    rw [configured.a, checked]
    exact isRate_decayRates cfg (checked ▸ inside)
  have inverse : state.aInv i = 1.0 - state.a i := by
    rw [configured.aInv, configured.a]
    exact if_pos inside
  have entry : @Loadable (.exact functions) (1 : ℚ) (state.embed byte.toNat i) := by
    rw [configured.embed]
    dsimp only
    rw [if_pos inside]
    exact loadable_detHash _
  rw [hidden_bound] at within ⊢
  exact loadable_hidden rate inverse within entry

/-- A step keeps the weights within their bound. -/
theorem loadable_stepWeights {state : NeuralSsmPredictor (.exact functions)} {i : Nat}
    (inside : i < state.cfg.d) (lrErr : (SsmArithmetic.exact functions).F32)
    (weights : Nat → (SsmArithmetic.exact functions).F32) :
    Loadable (WEIGHT_BOUND _) (state.stepWeights lrErr weights i) := by
  rw [stepWeights, if_pos inside]
  exact loadable_clipWeight _ _

/-- **Counting a byte keeps the bounds.** -/
theorem LearnedBounded.update {state : NeuralSsmPredictor (.exact functions)}
    (bounded : LearnedBounded state.cfg.d state.toSsmState) (configured : state.Configured)
    (byte : UInt8) : LearnedBounded state.cfg.d (state.update byte).toSsmState := by
  obtain ⟨⟨h, -, -, wRuna, bRuna, -, -⟩, wellFormed, rle, o2Le, -⟩ := bounded
  refine ⟨⟨fun i inside => ?_, fun i inside => loadable_stepWeights inside _ _,
    loadable_clipWeight _ _, fun i inside => ?_, ?_, rfl, rfl⟩, wellFormed.update byte,
    rle.update byte, fun ctx lit within literal => ?_, Nat.mod_lt _ (Nat.two_pow_pos 32)⟩
  · change Loadable _ (if i < state.cfg.d then _ else _)
    rw [if_pos inside]
    exact configured.loadable_h inside (h i inside) byte
  · unfold NeuralSsmPredictor.update
    dsimp only
    split
    · exact loadable_stepWeights inside _ _
    · exact wRuna i inside
  · unfold NeuralSsmPredictor.update
    dsimp only
    split
    · exact loadable_clipWeight _ _
    · exact bRuna
  · have before := o2Le ctx lit within literal
    have counted := wellFormed.o2 _ (o2Context_lt state.prevByte state.prevPrevByte)
    unfold NeuralSsmPredictor.update
    dsimp only
    split
    · exact before
    · rw [Function.update_apply]
      split
      · exact counted.countLiteral_le (by decide) (by decide)
          (fun lit literal => o2Le _ lit (o2Context_lt _ _) literal) literal
      · exact before

/-- A reset leaves a state bounded. -/
theorem Bounded.reset {state : NeuralSsmPredictor (.exact functions)} (bounded : state.Bounded) :
    state.reset.Bounded := by
  refine bounded.of_sameSetup (sameSetup_reset state) ?_
  rw [NeuralSsmPredictor.reset]
  split
  · rename_i parsed found
    exact bounded.baseline parsed found
  · exact .fresh _

/-- **Coding keeps a state bounded.** -/
theorem Bounded.coded {start state : NeuralSsmPredictor (.exact functions)}
    (bounded : start.Bounded) (configured : start.Configured)
    (reached : ProbabilityPredictor.Reachable start state) : state.Bounded := by
  induction reached with
  | start => exact bounded
  | predict _ recurse => exact ⟨recurse.learned, recurse.baseline⟩
  | query _ _ recurse => exact ⟨recurse.learned, recurse.baseline⟩
  | decode _ _ _ recurse => exact ⟨recurse.learned, recurse.baseline⟩
  | update byte before recurse =>
      have fixed := (sameSetup_of_reachable before).sameConstants.configured configured
      exact ⟨recurse.learned.update fixed byte, recurse.baseline⟩
  | reset _ recurse => exact recurse.reset

/-- **Every predictor in use is within the bounds of the loader.** -/
theorem InUse.bounded {state : NeuralSsmPredictor (.exact functions)} (inUse : state.InUse) :
    state.Bounded := by
  induction inUse with
  | withConfig cfg =>
      refine ⟨.fresh _, ?_⟩
      rintro _ ⟨⟩
  | coded before reached recurse => exact recurse.coded before.configured reached
  | loadState data _ recurse =>
      exact recurse.of_sameSetup (sameSetup_loadState _ data) (recurse.learned.loadState data)
  | setDictBaseline data _ recurse => exact recurse.setDictBaseline data

end NeuralSsmPredictor

end AetherArch
