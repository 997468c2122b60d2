import AetherArch.Coding.Rans
import AetherArch.Entropy.CountWords

/-! # Coding with two predictors

What a run of predictions, queries, decodings and updates shows of a predictor. Two predictors
that show the same in every run, whatever they hold, code the same blocks.
-/

namespace AetherArch

open CountWords (CodingStep)
open ProbabilityPredictor

/-- What one use of a predictor shows. -/
inductive CodingAnswer where
  | table (cdf : Cdf)
  | interval (low high : UInt16)
  | symbol (byte : UInt8) (low high : UInt16)
  | learned

variable {σ : Type} [ProbabilityPredictor σ]

/-- What a predictor answers to a step. -/
def CodingStep.answer (state : σ) : CodingStep → CodingAnswer
  | .predict => .table (predictCdf state).1
  | .query byte => .interval (queryCdf state byte).1.1 (queryCdf state byte).1.2
  | .decode freq => .symbol (decodeSymbol state freq).1.1 (decodeSymbol state freq).1.2.1
      (decodeSymbol state freq).1.2.2
  | .update _ => .learned

/-- What a run shows. -/
def answers : σ → List CodingStep → List CodingAnswer
  | _, [] => []
  | state, step :: steps => CodingStep.answer state step :: answers (step.run state) steps

/-- Whether the next update would follow a prediction, a query or a decoding. -/
def readyAfter : CodingStep → Bool
  | .update _ => false
  | _ => true

/-- Every update of a run follows a prediction, a query or a decoding. -/
def Disciplined : (ready : Bool) → List CodingStep → Prop
  | _, [] => True
  | ready, step :: steps =>
      (readyAfter step = false → ready = true) ∧ Disciplined (readyAfter step) steps

/-- Two predictors that no disciplined run tells apart. -/
def CodesAlike (first second : σ) : Prop :=
  ∀ steps, Disciplined false steps → answers first steps = answers second steps

/-- A relation that every step of a disciplined run keeps, with the same answers. -/
structure Simulates (related : Bool → σ → σ → Prop) : Prop where
  answer {ready : Bool} {first second : σ} (step : CodingStep) : related ready first second →
    CodingStep.answer first step = CodingStep.answer second step
  run {ready : Bool} {first second : σ} (step : CodingStep) : related ready first second →
    (readyAfter step = false → ready = true) →
      related (readyAfter step) (step.run first) (step.run second)

/-- **Related states answer every run alike.** -/
theorem Simulates.answers_eq {related : Bool → σ → σ → Prop} (simulates : Simulates related)
    {ready : Bool} {first second : σ} (start : related ready first second)
    {steps : List CodingStep} (disciplined : Disciplined ready steps) :
    answers first steps = answers second steps := by
  induction steps generalizing ready first second with
  | nil => rfl
  | cons step steps recurse =>
      obtain ⟨allowed, later⟩ := disciplined
      exact List.cons_eq_cons.mpr
        ⟨simulates.answer step start, recurse (simulates.run step start allowed) later⟩

/-- **Predictors in a simulation code alike.** -/
theorem Simulates.codesAlike {related : Bool → σ → σ → Prop} (simulates : Simulates related)
    {first second : σ} (start : related false first second) : CodesAlike first second :=
  fun _ disciplined => simulates.answers_eq start disciplined

namespace CodesAlike

variable {first second : σ}

theorem symm (alike : CodesAlike first second) : CodesAlike second first :=
  fun steps disciplined => (alike steps disciplined).symm

/-- Queries of states that code alike agree. -/
theorem query_eq (alike : CodesAlike first second) (byte : UInt8) :
    (queryCdf first byte).1 = (queryCdf second byte).1 := by
  have same := alike [.query byte] ⟨nofun, trivial⟩
  injection same with same
  injection same with low high
  exact Prod.ext low high

/-- So do the symbols they decode. -/
theorem decode_eq (alike : CodesAlike first second) (freq : Nat) :
    (decodeSymbol first freq).1 = (decodeSymbol second freq).1 := by
  have same := alike [.decode freq] ⟨nofun, trivial⟩
  injection same with same
  injection same with byte low high
  exact Prod.ext byte (Prod.ext low high)

/-- So do their tables. -/
theorem predict_eq (alike : CodesAlike first second) :
    (predictCdf first).1 = (predictCdf second).1 := by
  have same := alike [.predict] ⟨nofun, trivial⟩
  injection same with same
  injection same

/-- Coding one byte leaves predictors that code alike. -/
theorem coded (alike : CodesAlike first second) (step : CodingStep)
    (sets : readyAfter step = true) (byte : UInt8) :
    CodesAlike (update (step.run first) byte) (update (step.run second) byte) := by
  intro steps disciplined
  have same := alike (step :: .update byte :: steps)
    ⟨fun unset => absurd (sets.symm.trans unset) nofun, fun _ => sets, disciplined⟩
  injection same with _ same
  injection same

/-- One more byte is encoded first. -/
theorem encodeSymbols_cons (byte : UInt8) (data : Bytes) (encoder : RangeEncoder) (state : σ) :
    Rans.encodeSymbols (byte :: data) encoder state =
      Rans.encodeSymbols data
        (encoder.encodeInterval (queryCdf state byte).1.1 (queryCdf state byte).1.2)
        (update (queryCdf state byte).2 byte) := rfl

/-- One more symbol is decoded first. -/
theorem decodeSymbols_succ (count : Nat) (decoder : RangeDecoder) (state : σ) :
    Rans.decodeSymbols (count + 1) decoder state =
      let found := decodeSymbol state decoder.decodeFreq.2
      let rest := Rans.decodeSymbols count
        (decoder.advance decoder.decodeFreq.1 found.1.2.1 found.1.2.2) (update found.2 found.1.1)
      (found.1.1 :: rest.1, rest.2.1, rest.2.2) := rfl

/-- **The range coder emits the same bytes** for a block. -/
theorem encodeBlockContinuing_eq (alike : CodesAlike first second) (data : Bytes) :
    (Rans.encodeBlockContinuing data first).1 = (Rans.encodeBlockContinuing data second).1 := by
  have coded (encoder : RangeEncoder) : (Rans.encodeSymbols data encoder first).1 =
      (Rans.encodeSymbols data encoder second).1 := by
    induction data generalizing first second encoder with
    | nil => rfl
    | cons byte data recurse =>
        rw [encodeSymbols_cons, encodeSymbols_cons, alike.query_eq byte]
        exact recurse (alike.coded (.query byte) rfl byte) _
  have outcome (predictor : σ) : (Rans.encodeBlockContinuing data predictor).1 =
      if data.isEmpty then .ok []
      else (Rans.encodeSymbols data RangeEncoder.new predictor).1.finish.mapError .compression := by
    rw [Rans.encodeBlockContinuing, Rans.encodeBlockInner]
    split
    · rfl
    · dsimp only [Rans.blockStart]
      rw [if_neg Bool.false_ne_true]
      split
      · rename_i output finished
        rw [finished]
        rfl
      · rename_i message failed
        rw [failed]
        rfl
  rw [outcome, outcome, coded]

/-- **The range decoder reads the same bytes** from a block. -/
theorem decodeBlockContinuing_eq (alike : CodesAlike first second) (compressed : Bytes)
    (expectedLen : Nat) : (Rans.decodeBlockContinuing compressed expectedLen first).1 =
      (Rans.decodeBlockContinuing compressed expectedLen second).1 := by
  have decoded (count : Nat) (decoder : RangeDecoder) :
      (Rans.decodeSymbols count decoder first).1 = (Rans.decodeSymbols count decoder second).1 ∧
        (Rans.decodeSymbols count decoder first).2.1 =
          (Rans.decodeSymbols count decoder second).2.1 := by
    induction count generalizing first second decoder with
    | zero => exact ⟨rfl, rfl⟩
    | succ count recurse =>
        have same := alike.decode_eq decoder.decodeFreq.2
        have after := alike.coded (.decode decoder.decodeFreq.2) rfl
          (decodeSymbol second decoder.decodeFreq.2).1.1
        rw [decodeSymbols_succ, decodeSymbols_succ]
        dsimp only
        rw [same]
        exact ⟨congrArg (_ :: ·) (recurse after _).1, (recurse after _).2⟩
  rw [Rans.decodeBlockContinuing, Rans.decodeBlockContinuing, Rans.decodeBlockInner,
    Rans.decodeBlockInner]
  split
  · rfl
  · split
    · rfl
    · split
      · rfl
      · dsimp only [Rans.blockStart]
        rw [if_neg Bool.false_ne_true, if_neg Bool.false_ne_true,
          (decoded expectedLen _).1, (decoded expectedLen _).2]
        split <;> rfl

end CodesAlike

end AetherArch
