import AetherArch.Entropy.CountWords
import AetherArch.Entropy.RejectedStates
import AetherArch.Entropy.RlePrediction

/-! # What a loaded state can count to

Every saved state that is accepted leaves room for further counts: the loaders bound each
count, and a rescale halves whatever exceeds its limit. The step counter of the neural
predictor is taken as it is stored.
-/

namespace AetherArch

open CountWords

/-! ## The order-0 model -/

namespace Order0Model

variable {model : Order0Model}

/-- The additions of one use fit 32-bit words. -/
def Fits (model : Order0Model) : CodingStep → Prop
  | .predict => ScanFits 256 model.counts
  | .query byte => DescentFits model.counts model.fenwick byte.toNat
  | .decode freq =>
      SearchFits (· < 2 ^ 32) model.fenwick
        (fun candidate cum => quantizeBoundary (ExactDivisor.new model.total) cum candidate) 256
        freq { low := 0, sum := 0, lowValue := 0, highValue := PROB_TOTAL }
  | .update byte =>
      CountFits 256 1000000 (fun c => max (c >>> 1) 1) model.counts model.fenwick model.total
        byte.toNat

/-- The counts of a well-formed model are bounded words. -/
theorem WellFormed.counted (wellFormed : model.WellFormed) :
    CountWords.Bounded 256 model.counts model.fenwick model.total where
  represents := wellFormed.represents
  total_eq := wellFormed.total_eq
  total_lt := by
    have bounded := wellFormed.bounded
    have limit : MAX_COUNT = 2000000 := rfl
    omega

/-- Every addition of a step fits its word. -/
theorem WellFormed.fits (wellFormed : model.WellFormed) (step : CodingStep) : model.Fits step := by
  have bounded := wellFormed.counted
  cases step with
  | predict => exact bounded.scan
  | query byte => exact bounded.descentFits byte.toNat_lt
  | decode freq =>
      rw [Fits]
      refine searchFits_of_sums _ freq wellFormed.represents (Nat.le_succ 256)
        (.zero (by decide)) fun position inside => ?_
      rw [← cumulative_eq_sum]
      exact Nat.lt_of_succ_lt (bounded.cumulative_lt inside.le)
  | update byte =>
      refine bounded.countFits 1000000 byte.toNat_lt fun i inside => ?_
      have positive := wellFormed.positive i inside
      rw [Nat.shiftRight_one]
      by_cases same : i = byte.toNat
      · subst same
        rw [Function.update_self]
        omega
      · rw [Function.update_of_ne same]
        omega

/-- A step keeps a model well formed. -/
theorem WellFormed.run (wellFormed : model.WellFormed) (step : CodingStep) :
    (step.run model).WellFormed := by
  cases step with
  | predict => exact wellFormed
  | query byte => exact wellFormed
  | decode freq => exact wellFormed
  | update byte => exact update_wellFormed wellFormed byte

/-- **Every run fits** from a well-formed state. -/
theorem WellFormed.runFits (wellFormed : model.WellFormed) (steps : List CodingStep) :
    RunFits Fits model steps :=
  runFits_of_invariant (fun _ step holds => ⟨holds.fits step, holds.run step⟩) wellFormed steps

end Order0Model

/-! ## The context-class predictor -/

namespace BinaryModel

/-- Counting an outcome exceeds no word. -/
def Fits (model : BinaryModel) (isYes : Bool) : Prop :=
  (isYes = true → model.countYes + 1 < 2 ^ 32) ∧ model.countTotal + 1 < 2 ^ 32

/-- An ordered pair of bounded counts can be raised. -/
theorem fits_of_le {model : BinaryModel} (ordered : model.countYes ≤ model.countTotal)
    (bounded : model.countTotal ≤ RlePredictor.MAX_BINARY_COUNT) (isYes : Bool) :
    model.Fits isYes := by
  have limit : RlePredictor.MAX_BINARY_COUNT = 1000000 := rfl
  exact ⟨fun _ => by omega, by omega⟩

/-- An update keeps the total of a pair bounded. -/
theorem countTotal_update_le {model : BinaryModel}
    (bounded : model.countTotal ≤ RlePredictor.MAX_BINARY_COUNT) (isYes : Bool) :
    (model.update isYes).countTotal ≤ RlePredictor.MAX_BINARY_COUNT := by
  have limit : RlePredictor.MAX_BINARY_COUNT = 1000000 := rfl
  rw [update]
  split
  · dsimp only
    rw [Nat.shiftRight_one]
    omega
  · dsimp only
    omega

end BinaryModel

namespace RlePredictor

/-- Most that the literal counts of a context add up to. -/
def MAX_LIT_TOTAL : Nat := NUM_LITS * MAX_LIT_COUNT

/-- Halving at least halves the sum. -/
theorem cumulative_halved (counts : Nat → Nat) (symbol : Nat) :
    2 * Order0Model.cumulative (fun i => counts i >>> 1) symbol ≤
      Order0Model.cumulative counts symbol := by
  induction symbol with
  | zero => exact le_rfl
  | succ symbol ih =>
      rw [Order0Model.cumulative, Order0Model.cumulative, Nat.shiftRight_one]
      omega

/-- Counting a literal keeps the total below any bound that is not below the limit. -/
theorem countLiteral_total_le {counts fenwick : Nat → Nat} {total bound limit idx : Nat}
    (counted : Counted counts fenwick total) (inside : idx < NUM_LITS) (room : limit ≤ bound)
    (positive : 0 < bound) (bounded : total ≤ bound) :
    (countLiteral limit counts fenwick total idx).2.2 ≤ bound := by
  rw [countLiteral]
  split
  · have halved := cumulative_halved (Function.update counts idx (counts idx + 1)) NUM_LITS
    rw [Order0Model.cumulative_update counts idx 1 NUM_LITS inside, ← counted.total_eq] at halved
    dsimp only
    omega
  · dsimp only
    omega

/-- What loading and counting keep of one context class. -/
structure ContextBounded (model : RlePredictor) (ctx : Nat) : Prop where
  lits : model.litTotals ctx ≤ MAX_LIT_TOTAL
  run : (model.runVsLit ctx).countTotal ≤ MAX_BINARY_COUNT
  runa : (model.runaVsRunb ctx).countTotal ≤ MAX_BINARY_COUNT

/-- A well-formed state whose counts leave room in their words. -/
structure Roomy (model : RlePredictor) : Prop where
  wellFormed : model.WellFormed
  bounded (ctx : Nat) : ctx < NUM_CONTEXTS → model.ContextBounded ctx

theorem new_roomy : new.Roomy where
  wellFormed := new_wellFormed
  bounded _ _ := ⟨Nat.zero_le _, Nat.zero_le _, Nat.zero_le _⟩

/-- One of the binary models counted on among those of all contexts. -/
theorem countTotal_le_of_update {models : Nat → BinaryModel} {ctx : Nat}
    (bounded : (models ctx).countTotal ≤ MAX_BINARY_COUNT) (current : Nat) (isYes : Bool) :
    (Function.update models current ((models current).update isYes) ctx).countTotal ≤
      MAX_BINARY_COUNT := by
  by_cases same : ctx = current
  · subst same
    rw [Function.update_self]
    exact BinaryModel.countTotal_update_le bounded isYes
  · rw [Function.update_of_ne same]
    exact bounded

/-- An update keeps a model roomy. -/
theorem Roomy.update {model : RlePredictor} (roomy : model.Roomy) (byte : UInt8) :
    (model.update byte).Roomy where
  wellFormed := roomy.wellFormed.update byte
  bounded ctx inside := by
    obtain ⟨lits, run, runa⟩ := roomy.bounded ctx inside
    have counted := (roomy.wellFormed.context ctx inside).counted
    rw [RlePredictor.update]
    split
    · exact ⟨lits, countTotal_le_of_update run _ _, countTotal_le_of_update runa _ _⟩
    · refine ⟨?_, countTotal_le_of_update run _ _, runa⟩
      dsimp only
      by_cases same : ctx = model.ctx
      · subst same
        rw [Function.update_self]
        exact countLiteral_total_le counted (literal_lt byte) (by decide) (by decide) lits
      · rw [Function.update_of_ne same]
        exact lits

/-- An accepted state is its tag and accepted contexts. -/
theorem exists_of_acceptsState {data : Bytes} (accepted : acceptsState data = true) :
    ∃ contexts, data = 1 :: contexts ∧
      ∀ ctx < NUM_CONTEXTS, acceptsContext contexts ctx = true := by
  rw [acceptsState.eq_def] at accepted
  split at accepted
  · rename_i contexts
    rw [Bool.and_eq_true, List.all_eq_true] at accepted
    exact ⟨contexts, rfl, fun ctx inside => accepted.2 ctx (List.mem_range.mpr inside)⟩
  · cases accepted

/-- What an accepted state holds is roomy. -/
theorem storedState_roomy {data : Bytes} (accepted : acceptsState data = true) :
    (storedState data).Roomy := by
  have loaded := new_wellFormed.loadState data
  rw [loadState_eq, if_pos accepted] at loaded
  obtain ⟨contexts, rfl, accepts⟩ := exists_of_acceptsState accepted
  refine ⟨loaded, fun ctx inside => ?_⟩
  have context := accepts ctx inside
  unfold acceptsContext acceptsBinary at context
  simp only [Bool.and_eq_true, decide_eq_true_eq, List.all_eq_true, List.mem_range] at context
  obtain ⟨⟨⟨run, runa⟩, lits⟩, -, total⟩ := context
  refine ⟨?_, run.2, runa.2⟩
  change storedTotal contexts ctx ≤ _
  calc storedTotal contexts ctx
      = Order0Model.cumulative (storedLits contexts ctx) NUM_LITS := total
    _ ≤ Order0Model.cumulative (fun _ => MAX_LIT_COUNT) NUM_LITS := Order0Model.cumulative_le lits
    _ = MAX_LIT_TOTAL := Order0Model.cumulative_const _ _

/-- Loading a state keeps a model roomy. -/
theorem Roomy.loadState {model : RlePredictor} (roomy : model.Roomy) (data : Bytes) :
    (model.loadState data).2.Roomy := by
  rw [loadState_eq]
  split
  · rename_i accepted
    exact storedState_roomy accepted
  · exact roomy

/-- An accepted state leaves room, whatever the predictor was before. -/
theorem roomy_of_loadState {model loaded : RlePredictor} {data : Bytes}
    (accepted : model.loadState data = (true, loaded)) : loaded.Roomy := by
  rw [loadState_eq] at accepted
  split at accepted
  · rename_i accepts
    cases accepted
    exact storedState_roomy accepts
  · cases accepted

/-- Rebuilding the trees exceeds no word. -/
def RebuildFits (model : RlePredictor) : Prop :=
  ∀ ctx < NUM_CONTEXTS, BuildFits NUM_LITS (model.litCounts ctx)

/-- The additions that count one byte fit 32-bit words. -/
def CountsByte (model : RlePredictor) (byte : UInt8) : Prop :=
  (model.runVsLit model.ctx).Fits (byte ≤ 1) ∧
    if byte ≤ 1 then (model.runaVsRunb model.ctx).Fits (byte = 0)
    else CountFits NUM_LITS 500000 (· >>> 1) (model.litCounts model.ctx)
      (model.litFenwick model.ctx) (model.litTotals model.ctx) (byte.toNat - 2)

/-- The additions of one use fit 32-bit words. -/
def Fits (formats : FloatFormats) (model : RlePredictor) : CodingStep → Prop
  | .predict => ScanFits NUM_LITS (model.litCounts model.ctx)
  | .query byte => 2 ≤ byte.toNat →
      DescentFits (model.litCounts model.ctx) (model.litFenwick model.ctx) (byte.toNat - 2)
  | .decode freq =>
      SearchFits (· < 2 ^ 32) (model.litFenwick model.ctx) (model.weights formats).litBoundary
        NUM_LITS freq
        { low := 0, sum := 0
          lowValue := (model.weights formats).quantize (model.weights formats).w01 2
          highValue := PROB_TOTAL }
  | .update byte => model.CountsByte byte

/-- Halving makes no count larger. -/
theorem halved_le (count : Nat) : count >>> 1 ≤ count := by
  rw [Nat.shiftRight_one]
  exact Nat.div_le_self _ _

/-- Counts within the total limit are bounded words. -/
theorem Counted.counts_bounded {counts fenwick : Nat → Nat} {total : Nat}
    (counted : Counted counts fenwick total) (le : total ≤ MAX_LIT_TOTAL) :
    CountWords.Bounded NUM_LITS counts fenwick total where
  represents := counted.represents
  total_eq := counted.total_eq
  total_lt := by
    have limit : MAX_LIT_TOTAL = 254000000 := rfl
    omega

/-- The literal counts of a roomy model are bounded words. -/
theorem Roomy.lits_bounded {model : RlePredictor} (roomy : model.Roomy) {ctx : Nat}
    (inside : ctx < NUM_CONTEXTS) :
    CountWords.Bounded NUM_LITS (model.litCounts ctx) (model.litFenwick ctx)
      (model.litTotals ctx) :=
  (roomy.wellFormed.context ctx inside).counted.counts_bounded (roomy.bounded ctx inside).lits

theorem Roomy.rebuildFits {model : RlePredictor} (roomy : model.Roomy) : model.RebuildFits :=
  fun _ inside => (roomy.lits_bounded inside).build

/-- A byte is counted without overflow. -/
theorem Roomy.countsByte {model : RlePredictor} (roomy : model.Roomy) (byte : UInt8) :
    model.CountsByte byte := by
  have inside := roomy.wellFormed.ctx_lt
  obtain ⟨-, runLe, runaLe⟩ := roomy.wellFormed.context _ inside
  obtain ⟨-, run, runa⟩ := roomy.bounded _ inside
  refine ⟨BinaryModel.fits_of_le runLe run _, ?_⟩
  split
  · exact BinaryModel.fits_of_le runaLe runa _
  · exact (roomy.lits_bounded inside).countFits 500000 (literal_lt byte) fun _ _ => halved_le _

/-- Every addition of a step fits its word. -/
theorem Roomy.fits {model : RlePredictor} (roomy : model.Roomy) (formats : FloatFormats)
    (step : CodingStep) : model.Fits formats step := by
  have bounded := roomy.lits_bounded roomy.wellFormed.ctx_lt
  cases step with
  | predict => exact bounded.scan
  | query byte => exact fun _ => bounded.descentFits (literal_lt byte)
  | decode freq =>
      rw [Fits]
      refine searchFits_of_sums _ freq bounded.represents (Nat.le_succ _)
        (.zero (by decide)) fun position below => ?_
      rw [← Order0Model.cumulative_eq_sum]
      exact Nat.lt_of_succ_lt (bounded.cumulative_lt below.le)
  | update byte => exact roomy.countsByte byte

/-- **A step keeps a model roomy.** -/
theorem Roomy.run {model : RlePredictor} (roomy : model.Roomy) (formats : FloatFormats)
    (step : CodingStep) : (@CodingStep.run RlePredictor (predictor formats) model step).Roomy := by
  cases step with
  | predict => exact roomy
  | query byte => exact roomy
  | decode freq => exact roomy
  | update byte => exact roomy.update byte

/-- **Every run fits** from a state that leaves room. -/
theorem Roomy.runFits {model : RlePredictor} (roomy : model.Roomy) (formats : FloatFormats)
    (steps : List CodingStep) :
    @RunFits _ (predictor formats) (Fits formats) model steps :=
  letI := predictor formats
  runFits_of_invariant (fun _ step holds => ⟨holds.fits formats step, holds.run formats step⟩)
    roomy steps

end RlePredictor

end AetherArch
