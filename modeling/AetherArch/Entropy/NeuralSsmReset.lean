import AetherArch.Entropy.NeuralSsm

/-! # Resetting the neural predictor

What a reset returns to is determined by the configuration and the dictionary baseline,
up to the cached probabilities, and every prediction overwrites those first.
-/

namespace AetherArch

namespace NeuralSsmPredictor

variable {arith : SsmArithmetic}

open ProbabilityPredictor

/-- Two predictors with the same fixed parts. -/
structure SameSetup (first second : NeuralSsmPredictor arith) : Prop where
  cfg : first.cfg = second.cfg
  a : first.a = second.a
  aInv : first.aInv = second.aInv
  embed : first.embed = second.embed
  dictBaseline : first.dictBaseline = second.dictBaseline

theorem SameSetup.trans {first second third : NeuralSsmPredictor arith}
    (before : SameSetup first second) (after : SameSetup second third) : SameSetup first third where
  cfg := before.cfg.trans after.cfg
  a := before.a.trans after.a
  aInv := before.aInv.trans after.aInv
  embed := before.embed.trans after.embed
  dictBaseline := before.dictBaseline.trans after.dictBaseline

/-- A state with other cached probabilities. -/
def withLast (state : NeuralSsmPredictor arith) (last : LastPrediction arith.toFloatFormats) :
    NeuralSsmPredictor arith :=
  { state with last := last }

/-- Predicting does not depend on the cached probabilities. -/
theorem withLast_indistinguishable (state : NeuralSsmPredictor arith)
    (last : LastPrediction arith.toFloatFormats) :
    Indistinguishable (state.withLast last) state where
  predict_eq := rfl
  query_eq _ := rfl
  decode_eq _ := rfl

theorem sameSetup_withLast (state : NeuralSsmPredictor arith)
    (last : LastPrediction arith.toFloatFormats) : SameSetup state (state.withLast last) :=
  ⟨rfl, rfl, rfl, rfl, rfl⟩

theorem sameSetup_reset (state : NeuralSsmPredictor arith) : SameSetup state state.reset := by
  rw [reset]
  split
  · exact ⟨rfl, rfl, rfl, rfl, rfl⟩
  · exact ⟨rfl, rfl, rfl, rfl, rfl⟩

/-- Coding never changes the fixed parts. -/
theorem sameSetup_of_reachable {start state : NeuralSsmPredictor arith}
    (reached : Reachable start state) : SameSetup start state := by
  induction reached with
  | start => exact ⟨rfl, rfl, rfl, rfl, rfl⟩
  | predict _ recurse => exact recurse.trans (sameSetup_withLast _ _)
  | query byte _ recurse => exact recurse.trans (sameSetup_withLast _ _)
  | decode freq _ _ recurse => exact recurse.trans (sameSetup_withLast _ _)
  | update byte _ recurse => exact recurse.trans ⟨rfl, rfl, rfl, rfl, rfl⟩
  | reset _ recurse => exact recurse.trans (sameSetup_reset _)

/-- Predictors with the same fixed parts reset to the same state but for the cached
probabilities. -/
theorem SameSetup.reset_eq {first second : NeuralSsmPredictor arith}
    (same : SameSetup first second) : first.reset.withLast second.reset.last = second.reset := by
  obtain ⟨learned, cfg, a, aInv, embed, last, baseline⟩ := first
  obtain ⟨_, _, _, _, _, _, _⟩ := second
  obtain ⟨rfl, rfl, rfl, rfl, rfl⟩ := same
  cases baseline with
  | none => rfl
  | some baseline => rfl

/-- **A reset erases what was coded before it.** -/
theorem SameSetup.reset_indistinguishable {first second : NeuralSsmPredictor arith}
    (same : SameSetup first second) : Indistinguishable first.reset second.reset := by
  have overwritten := withLast_indistinguishable first.reset second.reset.last
  rw [same.reset_eq] at overwritten
  exact ⟨overwritten.predict_eq.symm, fun byte => (overwritten.query_eq byte).symm,
    fun freq => (overwritten.decode_eq freq).symm⟩

end NeuralSsmPredictor

end AetherArch
