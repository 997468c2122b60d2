import AetherArch.Coding.RansRoundTrip
import AetherArch.Entropy.CodingRuns
import AetherArch.Entropy.NeuralSsmWords

/-! # What a reset erases

Two neural predictors that agree on what they have learned and on their configuration code alike,
as long as a prediction comes before an update: the cached probabilities are the only other thing
an update reads. A reset makes predictors of one configuration and one baseline agree, whatever
they coded before.
-/

namespace AetherArch

open CountWords (CodingStep)
open ProbabilityPredictor

namespace NeuralSsmPredictor

variable {arith : SsmArithmetic}

/-- Two predictors agree on what coding reads; on the cached probabilities where an update may
come next. -/
structure SameCoding (ready : Bool) (first second : NeuralSsmPredictor arith) : Prop where
  learned : first.toSsmState = second.toSsmState
  cfg : first.cfg = second.cfg
  a : first.a = second.a
  aInv : first.aInv = second.aInv
  embed : first.embed = second.embed
  last : ready = true → first.last = second.last

/-- States that code alike differ in what coding does not read. -/
theorem SameCoding.exists_eq {ready : Bool} {first second : NeuralSsmPredictor arith}
    (same : SameCoding ready first second) :
    ∃ last baseline, second = { first with last := last, dictBaseline := baseline } ∧
      (ready = true → last = first.last) := by
  obtain ⟨learned, cfg, a, aInv, embed, last, baseline⟩ := first
  obtain ⟨_, _, _, _, _, otherLast, otherBaseline⟩ := second
  obtain ⟨rfl, rfl, rfl, rfl, rfl, cached⟩ := same
  exact ⟨otherLast, otherBaseline, rfl, fun ready => (cached ready).symm⟩

/-- **Coding keeps predictors in agreement**, and they answer the same. -/
theorem simulates_sameCoding : Simulates (@SameCoding arith) where
  answer step same := by
    obtain ⟨last, baseline, rfl, -⟩ := same.exists_eq
    cases step <;> rfl
  run step same allowed := by
    obtain ⟨last, baseline, rfl, cached⟩ := same.exists_eq
    cases step with
    | predict => exact ⟨rfl, rfl, rfl, rfl, rfl, fun _ => rfl⟩
    | query byte => exact ⟨rfl, rfl, rfl, rfl, rfl, fun _ => rfl⟩
    | decode freq => exact ⟨rfl, rfl, rfl, rfl, rfl, fun _ => rfl⟩
    | update byte =>
        cases cached (allowed rfl)
        exact ⟨rfl, rfl, rfl, rfl, rfl, nofun⟩

/-! ## Histories -/

/-- A predictor that coding starts from: of a configuration, and with a dictionary baseline
installed when it was new, if any. -/
inductive Prepared (cfg : NeuralSsmConfig arith.toFloatFormats) :
    Option Bytes → NeuralSsmPredictor arith → Prop where
  | plain : Prepared cfg none (withConfig cfg)
  | baseline {data : Bytes} {state : NeuralSsmPredictor arith} :
      (withConfig cfg).setDictBaseline data = (true, state) → Prepared cfg (some data) state

/-- Preparing yields states of one setup. -/
theorem Prepared.unique {cfg : NeuralSsmConfig arith.toFloatFormats} {baseline : Option Bytes}
    {first second : NeuralSsmPredictor arith} (prepared : Prepared cfg baseline first)
    (again : Prepared cfg baseline second) : first = second := by
  cases prepared with
  | plain =>
      cases again
      rfl
  | baseline installed =>
      cases again with
      | baseline reinstalled =>
          rw [installed] at reinstalled
          cases reinstalled
          rfl

/-- What may have been done with a predictor: steps of any runs, resets, whole blocks, and saved
states that it was offered. -/
inductive History (start : NeuralSsmPredictor arith) : NeuralSsmPredictor arith → Prop where
  | start : History start start
  | step {state : NeuralSsmPredictor arith} (step : CodingStep) : History start state →
      History start (step.run state)
  | reset {state : NeuralSsmPredictor arith} : History start state → History start state.reset
  | block {state : NeuralSsmPredictor arith} (data : Bytes) : History start state →
      History start (Rans.encodeBlock data state).2
  | offered {state : NeuralSsmPredictor arith} (data : Bytes) : History start state →
      History start (state.loadState data).2

/-- **No history changes the fixed parts.** -/
theorem History.sameSetup {start state : NeuralSsmPredictor arith}
    (history : History start state) : SameSetup start state := by
  induction history with
  | start => exact ⟨rfl, rfl, rfl, rfl, rfl⟩
  | step step _ recurse =>
      refine recurse.trans ?_
      cases step <;> exact ⟨rfl, rfl, rfl, rfl, rfl⟩
  | reset _ recurse => exact recurse.trans (sameSetup_reset _)
  | block data _ recurse =>
      exact recurse.trans (sameSetup_of_reachable (Rans.encodeBlock_reachable data .start))
  | offered data _ recurse => exact recurse.trans (sameSetup_loadState _ data)

theorem SameSetup.symm {first second : NeuralSsmPredictor arith} (same : SameSetup first second) :
    SameSetup second first :=
  ⟨same.cfg.symm, same.a.symm, same.aInv.symm, same.embed.symm, same.dictBaseline.symm⟩

/-- Predictors with the same fixed parts agree once they are reset. -/
theorem SameSetup.sameCoding_reset {first second : NeuralSsmPredictor arith}
    (same : SameSetup first second) : SameCoding false first.reset second.reset := by
  rw [← same.reset_eq]
  exact ⟨rfl, rfl, rfl, rfl, rfl, nofun⟩

/-- A block starts from a reset, after which the predictor goes on. -/
theorem encodeBlock_eq_continuing {σ : Type} [ProbabilityPredictor σ] (data : Bytes) (state : σ) :
    (Rans.encodeBlock data state).1 =
      (Rans.encodeBlockContinuing data (ProbabilityPredictor.reset state)).1 := by
  simp only [Rans.encodeBlock, Rans.encodeBlockContinuing, Rans.encodeBlockInner, Rans.blockStart,
    ↓reduceIte, Bool.false_eq_true]
  split
  · rfl
  · split <;> rfl

/-- The block decoder yields what the continuing one yields. -/
theorem decodeBlock_eq_continuing {σ : Type} [ProbabilityPredictor σ] (compressed : Bytes)
    (expectedLen : Nat) (state : σ) :
    (Rans.decodeBlock compressed expectedLen state).1 =
      (Rans.decodeBlockContinuing compressed expectedLen (ProbabilityPredictor.reset state)).1 := by
  simp only [Rans.decodeBlock, Rans.decodeBlockContinuing, Rans.decodeBlockInner, Rans.blockStart,
    ↓reduceIte, Bool.false_eq_true]
  split
  · rfl
  · split
    · rfl
    · split <;> rfl

/-- Nothing that two predictors coded before shows in what they code after a reset. -/
structure CodesAfresh (first second : NeuralSsmPredictor arith) : Prop where
  alike : CodesAlike first.reset second.reset
  encodes (data : Bytes) : (Rans.encodeBlockContinuing data first.reset).1 =
    (Rans.encodeBlockContinuing data second.reset).1
  encodesBlock (data : Bytes) :
    (Rans.encodeBlock data first).1 = (Rans.encodeBlock data second).1
  decodesBlock (compressed : Bytes) (expectedLen : Nat) :
    (Rans.decodeBlock compressed expectedLen first).1 =
      (Rans.decodeBlock compressed expectedLen second).1

/-- States of one setup code alike after a reset. -/
theorem SameSetup.codesAfresh {first second : NeuralSsmPredictor arith}
    (same : SameSetup first second) : CodesAfresh first second := by
  have alike := simulates_sameCoding.codesAlike same.sameCoding_reset
  refine ⟨alike, alike.encodeBlockContinuing_eq, ?_, ?_⟩
  · intro data
    rw [encodeBlock_eq_continuing, encodeBlock_eq_continuing]
    exact alike.encodeBlockContinuing_eq data
  · intro compressed expectedLen
    rw [decodeBlock_eq_continuing, decodeBlock_eq_continuing]
    exact alike.decodeBlockContinuing_eq compressed expectedLen

/-! ## Decoding what a scratch predictor coded -/

/-- A configured predictor is well formed. -/
theorem withConfig_wellFormed {functions : ExactFunctions}
    (cfg : NeuralSsmConfig (SsmArithmetic.exact functions).toFloatFormats) :
    (withConfig cfg : NeuralSsmPredictor (.exact functions)).WellFormed where
  learned := .fresh _
  baseline _ member := by cases member
  share_nonneg := (o2Share_validateConfig _).1
  share_le_one := (o2Share_validateConfig _).2

/-- A prepared predictor is well formed. -/
theorem Prepared.wellFormed {functions : ExactFunctions}
    {cfg : NeuralSsmConfig (SsmArithmetic.exact functions).toFloatFormats}
    {baseline : Option Bytes} {state : NeuralSsmPredictor (.exact functions)}
    (prepared : Prepared cfg baseline state) : state.WellFormed := by
  cases prepared with
  | plain => exact withConfig_wellFormed cfg
  | @baseline data _ installed =>
      have wellFormed := (withConfig_wellFormed cfg).setDictBaseline data
      rw [installed] at wellFormed
      exact wellFormed

/-- **A reset erases history**: predictors prepared alike code alike after it, and a block that
one of them coded, after whatever else, decodes with the other. -/
theorem reset_erases_history :
    (∀ (arith : SsmArithmetic) (cfg : NeuralSsmConfig arith.toFloatFormats)
      (baseline : Option Bytes) (start restart first second : NeuralSsmPredictor arith),
      Prepared cfg baseline start → Prepared cfg baseline restart →
      History start first → History restart second → CodesAfresh first second) ∧
    ∀ (functions : ExactFunctions)
      (cfg : NeuralSsmConfig (SsmArithmetic.exact functions).toFloatFormats)
      (baseline : Option Bytes) (start restart first second : NeuralSsmPredictor (.exact functions))
      (data bytes : Bytes), Prepared cfg baseline start → Prepared cfg baseline restart →
      History start first → History restart second → data.length ≤ MAX_DECOMPRESSED_BLOCK_SIZE →
      (Rans.encodeBlock data first).1 = .ok bytes →
        (Rans.decodeBlock bytes data.length second).1 = .ok data := by
  have fixed {arith : SsmArithmetic} {cfg : NeuralSsmConfig arith.toFloatFormats}
      {baseline : Option Bytes} {start restart first second : NeuralSsmPredictor arith}
      (prepared : Prepared cfg baseline start) (again : Prepared cfg baseline restart)
      (history : History start first) (other : History restart second) :
      SameSetup first second := by
    cases prepared.unique again
    exact history.sameSetup.symm.trans other.sameSetup
  refine ⟨?_, ?_⟩
  · intro arith cfg baseline start restart first second prepared again history other
    exact (fixed prepared again history other).codesAfresh
  · intro functions cfg baseline start restart first second data bytes prepared again history
      other bounded encoded
    have same := fixed prepared prepared history .start
    rw [(fixed again prepared other .start).codesAfresh.decodesBlock]
    rw [same.codesAfresh.encodesBlock] at encoded
    exact congrArg Prod.fst (Rans.decodeBlockInner_encodeBlockInner data start true
      (contract prepared.wellFormed) bounded bytes encoded).1

/-- A reset erases an update. -/
theorem reset_erases_history_after_update :
    let state : NeuralSsmPredictor (.exact flatFunctions) := withConfig {}
    CodesAfresh (update state 65) state ∧
      (Rans.decodeBlock [0, 159, 1, 176, 127, 0] 1 (update state 65)).1 = .ok [65] := by
  intro state
  have updated : History state (update state 65) := .step (.update 65) .start
  exact ⟨reset_erases_history.1 _ _ _ _ _ _ _ .plain .plain updated .start,
    reset_erases_history.2 _ _ _ _ _ _ _ [65] _ .plain .plain .start updated (by decide)
      (by decide +kernel)⟩

end NeuralSsmPredictor

end AetherArch
