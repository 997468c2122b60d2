import AetherArch.Entropy.DeterminedStates
import AetherArch.Entropy.Order0Words
import AetherArch.Entropy.RlePrediction

/-! # Predictors with equal counts

Trees and totals are functions of the counts they belong to. Two predictors that keep them in step
and agree on their counts code alike, whatever their tables hold past their ends.
-/

namespace AetherArch

open CountWords (CodingStep)
open ProbabilityPredictor

/-- A sum depends on the counts below its bound alone. -/
theorem Order0Model.cumulative_congr {counts others : Nat → Nat} {symbol : Nat}
    (same : ∀ i < symbol, counts i = others i) :
    cumulative counts symbol = cumulative others symbol :=
  le_antisymm (cumulative_le fun i inside => (same i inside).le)
    (cumulative_le fun i inside => (same i inside).ge)

/-- The steps of a search for a byte. -/
theorem halving_pos : ∀ step ∈ [128, 64, 32, 16, 8, 4, 2, 1], 0 < step := by decide

/-! ## The order-0 model -/

namespace Order0Model

/-- Two well-formed models agree on their counts. -/
structure Agree (first second : Order0Model) : Prop where
  wellFormed : first.WellFormed
  other : second.WellFormed
  counts (symbol : Nat) : symbol < 256 → first.counts symbol = second.counts symbol

namespace Agree

variable {first second : Order0Model} (agree : Agree first second)

include agree

theorem cumulative_eq {symbol : Nat} (inside : symbol ≤ 256) :
    cumulative first.counts symbol = cumulative second.counts symbol :=
  cumulative_congr fun i below => agree.counts i (below.trans_le inside)

theorem total_eq : first.total = second.total := by
  rw [agree.wellFormed.total_eq, agree.other.total_eq, agree.cumulative_eq le_rfl]

/-- Equal counts have the same tree. -/
theorem fenwick_eq {node : Nat} (positive : 0 < node) (inside : node ≤ 256) :
    first.fenwick node = second.fenwick node := by
  refine agree.wellFormed.represents.unique agree.other.represents (fun i above le => ?_) positive
    inside
  exact agree.counts (i - 1) (by omega)

/-- Equal counts give the same table. -/
theorem predictCdf_eq : first.predictCdf = second.predictCdf := by
  funext index
  rw [predictCdf, predictCdf, agree.total_eq]
  split
  · rename_i inside
    rw [agree.cumulative_eq inside.le]
  · rfl

/-- Equal counts give every byte the same interval. -/
theorem queryCdf_eq (byte : UInt8) : first.queryCdf byte = second.queryCdf byte := by
  have inside : byte.toNat < 256 := byte.toNat_lt
  rw [queryCdf, queryCdf, agree.wellFormed.fenwickPrefix_eq inside.le,
    agree.other.fenwickPrefix_eq inside.le, agree.cumulative_eq inside.le, agree.total_eq,
    agree.counts _ inside]

/-- Equal counts find the same symbol. -/
theorem decodeSymbol_eq (freq : Nat) : first.decodeSymbol freq = second.decodeSymbol freq := by
  rw [decodeSymbol, decodeSymbol, agree.total_eq]
  rw [Fenwick.Search.foldl_congr _ _ (fun node positive inside =>
    agree.fenwick_eq positive inside.le) halving_pos]

/-- Equal counts stay equal. -/
theorem update (byte : UInt8) : Agree (first.update byte) (second.update byte) where
  wellFormed := update_wellFormed agree.wellFormed byte
  other := update_wellFormed agree.other byte
  counts symbol inside := by
    have counted : Function.update first.counts byte.toNat (first.counts byte.toNat + 1) symbol =
        Function.update second.counts byte.toNat (second.counts byte.toNat + 1) symbol := by
      rw [agree.counts _ byte.toNat_lt, Function.update_apply, Function.update_apply,
        agree.counts symbol inside]
    unfold Order0Model.update
    dsimp only
    rw [agree.total_eq]
    split
    · exact congrArg (fun count => max (count >>> 1) 1) counted
    · exact counted

end Agree

/-- Models of equal counts cannot be told apart. -/
theorem simulates_agree : Simulates fun _ => Agree where
  answer step agree := by
    cases step with
    | predict => exact congrArg CodingAnswer.table agree.predictCdf_eq
    | query byte =>
        have same := agree.queryCdf_eq byte
        exact congrArg (fun interval => CodingAnswer.interval interval.1 interval.2) same
    | decode freq =>
        have same := agree.decodeSymbol_eq freq
        exact congrArg (fun found => CodingAnswer.symbol found.1 found.2.1 found.2.2) same
    | update byte => rfl
  run step agree _ := by
    cases step with
    | predict => exact agree
    | query byte => exact agree
    | decode freq => exact agree
    | update byte => exact agree.update byte

end Order0Model

/-! ## The context-class predictor -/

namespace RlePredictor

section Counted

variable {counts fenwick others tree : Nat → Nat} {total sum : Nat}
  (counted : Counted counts fenwick total) (again : Counted others tree sum)
  (same : ∀ lit < NUM_LITS, counts lit = others lit)

include counted again same

theorem Counted.total_unique : total = sum := by
  rw [counted.total_eq, again.total_eq, Order0Model.cumulative_congr same]

/-- Every node of the tree is determined by the counts. -/
theorem Counted.fenwick_unique {node : Nat} (positive : 0 < node) (inside : node ≤ NUM_LITS) :
    fenwick node = tree node := by
  refine counted.represents.unique again.represents (fun i above le => ?_) positive inside
  exact same (i - 1) (by omega)

/-- So is every sum read from the tree. -/
theorem Counted.prefix_unique {len : Nat} (inside : len ≤ NUM_LITS) :
    fenwick254Prefix fenwick len = fenwick254Prefix tree len := by
  rw [counted.fenwick254Prefix_eq inside, again.fenwick254Prefix_eq inside]
  exact Order0Model.cumulative_congr fun lit below => same lit (below.trans_le inside)

/-- Counting a literal in both keeps the counts equal. -/
theorem Counted.countLiteral_congr (limit idx : Nat) {lit : Nat} (inside : lit < NUM_LITS)
    (literal : idx < NUM_LITS) :
    (RlePredictor.countLiteral limit counts fenwick total idx).1 lit =
      (RlePredictor.countLiteral limit others tree sum idx).1 lit := by
  have next : Function.update counts idx (counts idx + 1) lit =
      Function.update others idx (others idx + 1) lit := by
    rw [same idx literal, Function.update_apply, Function.update_apply, same lit inside]
  rw [RlePredictor.countLiteral, RlePredictor.countLiteral, counted.total_unique again same]
  split
  · exact congrArg (· >>> 1) next
  · exact next

end Counted

/-- Two well-formed predictors agree on their counts and on the context class. -/
structure Agree (first second : RlePredictor) : Prop where
  wellFormed : first.WellFormed
  other : second.WellFormed
  runVsLit (ctx : Nat) : ctx < NUM_CONTEXTS → first.runVsLit ctx = second.runVsLit ctx
  runaVsRunb (ctx : Nat) : ctx < NUM_CONTEXTS → first.runaVsRunb ctx = second.runaVsRunb ctx
  litCounts (ctx lit : Nat) : ctx < NUM_CONTEXTS → lit < NUM_LITS →
    first.litCounts ctx lit = second.litCounts ctx lit
  ctx : first.ctx = second.ctx

/-- What a table holds for every context class, after one of them changed in both. -/
theorem update_congr {α : Type} {tables others : Nat → α} {ctx changed : Nat} {entry other : α}
    (same : tables ctx = others ctx) (entries : entry = other) :
    Function.update tables changed entry ctx = Function.update others changed other ctx := by
  rw [Function.update_apply, Function.update_apply, same, entries]

namespace Agree

variable {first second : RlePredictor} (agree : Agree first second)

include agree

/-- The counts of the current context class. -/
theorem current : Counted (first.litCounts first.ctx) (first.litFenwick first.ctx)
      (first.litTotals first.ctx) ∧
    Counted (second.litCounts second.ctx) (second.litFenwick second.ctx)
      (second.litTotals second.ctx) ∧
    ∀ lit < NUM_LITS, first.litCounts first.ctx lit = second.litCounts second.ctx lit := by
  refine ⟨(agree.wellFormed.context _ agree.wellFormed.ctx_lt).counted,
    (agree.other.context _ agree.other.ctx_lt).counted, fun lit inside => ?_⟩
  rw [← agree.ctx]
  exact agree.litCounts _ lit agree.wellFormed.ctx_lt inside

theorem litTotal_eq : first.litTotals first.ctx = second.litTotals second.ctx :=
  have ⟨counted, again, same⟩ := agree.current
  counted.total_unique again same

theorem pRun_eq (formats : FloatFormats) :
    (first.modelParts formats).pRun = (second.modelParts formats).pRun := by
  rw [modelParts, modelParts, ← agree.ctx, agree.runVsLit _ agree.wellFormed.ctx_lt]

theorem pRuna_eq (formats : FloatFormats) :
    (first.modelParts formats).pRuna = (second.modelParts formats).pRuna := by
  rw [modelParts, modelParts, ← agree.ctx, agree.runaVsRunb _ agree.wellFormed.ctx_lt]

/-- The weights of all symbols agree. -/
theorem weights_eq (formats : FloatFormats) : first.weights formats = second.weights formats := by
  have total : (first.modelParts formats).litTotal = (second.modelParts formats).litTotal :=
    agree.litTotal_eq
  rw [weights, weights, agree.pRun_eq, agree.pRuna_eq, total]

/-- The tables agree. -/
theorem predictCdf_eq (formats : FloatFormats) :
    first.predictCdf formats = second.predictCdf formats := by
  obtain ⟨-, -, same⟩ := agree.current
  funext index
  rw [predictCdf, predictCdf, agree.weights_eq]
  dsimp only [modelParts]
  split
  · rfl
  · split
    · rfl
    · split
      · rename_i inside
        have lits : NUM_LITS = 254 := rfl
        rw [Order0Model.cumulative_congr fun lit below => same lit (by omega)]
      · rfl

/-- Every byte has the same interval. -/
theorem queryCdf_eq (formats : FloatFormats) (byte : UInt8) :
    first.queryCdf formats byte = second.queryCdf formats byte := by
  obtain ⟨counted, again, same⟩ := agree.current
  have literal := literal_lt byte
  rw [queryCdf, queryCdf, agree.weights_eq]
  dsimp only [modelParts]
  rw [counted.prefix_unique again same literal.le, same _ literal]

/-- Every frequency finds the same symbol. -/
theorem decodeSymbol_eq (formats : FloatFormats) (freq : Nat) :
    first.decodeSymbol formats freq = second.decodeSymbol formats freq := by
  obtain ⟨counted, again, same⟩ := agree.current
  rw [decodeSymbol, decodeSymbol, agree.weights_eq]
  dsimp only [modelParts]
  rw [Fenwick.Search.foldl_congr _ _ (fun node positive inside =>
    counted.fenwick_unique again same positive inside.le) halving_pos]

/-- Equal counts stay equal when a byte is seen. -/
theorem update (byte : UInt8) : Agree (first.update byte) (second.update byte) := by
  obtain ⟨counted, again, same⟩ := agree.current
  have inside := agree.wellFormed.ctx_lt
  refine ⟨agree.wellFormed.update byte, agree.other.update byte, fun ctx within => ?_,
    fun ctx within => ?_, fun ctx lit within literal => ?_, ?_⟩
  · have run := agree.runVsLit _ inside
    rw [RlePredictor.update, RlePredictor.update, ← agree.ctx]
    split
    · exact update_congr (agree.runVsLit ctx within) (congrArg (·.update true) run)
    · exact update_congr (agree.runVsLit ctx within) (congrArg (·.update false) run)
  · have runa := agree.runaVsRunb _ inside
    rw [RlePredictor.update, RlePredictor.update, ← agree.ctx]
    split
    · exact update_congr (agree.runaVsRunb ctx within) (congrArg (·.update (byte = 0)) runa)
    · exact agree.runaVsRunb ctx within
  · rw [RlePredictor.update, RlePredictor.update]
    split
    · exact agree.litCounts ctx lit within literal
    · have counts := counted.countLiteral_congr again same 500000 _ literal (literal_lt byte)
      dsimp only
      rw [← agree.ctx] at counts ⊢
      rw [Function.update_apply, Function.update_apply]
      split
      · exact counts
      · exact agree.litCounts ctx lit within literal
  · rw [RlePredictor.update, RlePredictor.update]
    split <;> rfl

end Agree

/-- Predictors of equal counts cannot be told apart. -/
theorem simulates_agree (formats : FloatFormats) :
    @Simulates RlePredictor (predictor formats) fun _ => Agree :=
  letI := predictor formats
  { answer := by
      intro _ first second step agree
      cases step with
      | predict => exact congrArg CodingAnswer.table (agree.predictCdf_eq formats)
      | query byte =>
          have same := agree.queryCdf_eq formats byte
          exact congrArg (fun interval => CodingAnswer.interval interval.1 interval.2) same
      | decode freq =>
          have same := agree.decodeSymbol_eq formats freq
          exact congrArg (fun found => CodingAnswer.symbol found.1 found.2.1 found.2.2) same
      | update byte => rfl
    run := by
      intro _ first second step agree _
      cases step with
      | predict => exact agree
      | query byte => exact agree
      | decode freq => exact agree
      | update byte => exact agree.update byte }

end RlePredictor

/-! ## The neural predictor -/

namespace NeuralSsmPredictor

open NeuralSsm
open RlePredictor (Counted)

variable {arith : SsmArithmetic}

/-- Two predictors of one configuration agree on what they have learned, and on the cached
probabilities where an update may come next. -/
structure Agree (ready : Bool) (first second : NeuralSsmPredictor arith) : Prop where
  constants : SameConstants first second
  wellFormed : LearnedWellFormed first.toSsmState
  other : LearnedWellFormed second.toSsmState
  rle : first.rle.Agree second.rle
  h (i : Nat) : i < first.cfg.d → first.h i = second.h i
  wRun (i : Nat) : i < first.cfg.d → first.wRun i = second.wRun i
  bRun : first.bRun = second.bRun
  wRuna (i : Nat) : i < first.cfg.d → first.wRuna i = second.wRuna i
  bRuna : first.bRuna = second.bRuna
  ssmPerf : first.ssmPerf = second.ssmPerf
  rlePerf : first.rlePerf = second.rlePerf
  o2LitCounts (ctx lit : Nat) : ctx < NUM_O2_CTX → lit < NUM_LITS →
    first.o2LitCounts ctx lit = second.o2LitCounts ctx lit
  prevByte : first.prevByte = second.prevByte
  prevPrevByte : first.prevPrevByte = second.prevPrevByte
  step : first.step = second.step
  last : ready = true → first.last = second.last

/-- The order-2 context that comes next. -/
def nextO2 (state : NeuralSsmPredictor arith) : Nat := o2Context state.prevByte state.prevPrevByte

namespace Agree

variable {ready : Bool} {first second : NeuralSsmPredictor arith} (agree : Agree ready first second)

include agree

/-- A dot product takes the weights of the dimension alone. -/
theorem dot_eq {weights others : Nat → arith.F32} (bias : arith.F32)
    (same : ∀ i < first.cfg.d, weights i = others i) :
    first.dot weights bias = second.dot others bias := by
  rw [dot, dot, ← agree.constants.cfg]
  refine List.foldl_ext _ _ _ fun sum i member => ?_
  have inside := List.mem_range.mp member
  rw [same i inside, agree.h i inside]

/-- The predictions of a step agree. -/
theorem stepPrediction_eq : first.stepPrediction = second.stepPrediction := by
  have run := agree.dot_eq first.bRun agree.wRun
  have runa := agree.dot_eq first.bRuna agree.wRuna
  rw [stepPrediction, stepPrediction, ssmBinaryPredict, ssmBinaryPredict, run, runa, agree.bRun,
    agree.bRuna, agree.rle.pRun_eq, agree.rle.pRuna_eq]

theorem mixingAlpha_eq : first.mixingAlpha = second.mixingAlpha := by
  rw [mixingAlpha, mixingAlpha, agree.step, agree.ssmPerf, agree.rlePerf, agree.constants.cfg]

theorem nextO2_eq : first.nextO2 = second.nextO2 := by
  rw [nextO2, nextO2, agree.prevByte, agree.prevPrevByte]

/-- The counts of the order-2 context that comes next. -/
theorem o2_next : Counted (first.o2LitCounts first.nextO2) (first.o2LitFenwick first.nextO2)
      (first.o2LitTotals first.nextO2) ∧
    Counted (second.o2LitCounts second.nextO2) (second.o2LitFenwick second.nextO2)
      (second.o2LitTotals second.nextO2) ∧
    ∀ lit < NUM_LITS,
      first.o2LitCounts first.nextO2 lit = second.o2LitCounts second.nextO2 lit := by
  refine ⟨agree.wellFormed.o2 _ (o2Context_lt _ _), agree.other.o2 _ (o2Context_lt _ _),
    fun lit inside => ?_⟩
  rw [← agree.nextO2_eq]
  exact agree.o2LitCounts _ lit (o2Context_lt _ _) inside

/-- The parameters of a step agree. -/
theorem stepParams_eq : first.stepParams = second.stepParams := by
  obtain ⟨counted, again, same⟩ := agree.o2_next
  have o2Total := counted.total_unique again same
  rw [nextO2, nextO2] at o2Total
  have litTotal := agree.rle.litTotal_eq
  have total : (first.rle.modelParts arith.toFloatFormats).litTotal =
      (second.rle.modelParts arith.toFloatFormats).litTotal := litTotal
  rw [stepParams, stepParams, agree.stepPrediction_eq, agree.mixingAlpha_eq, agree.constants.cfg,
    total, o2Total, agree.prevByte, agree.prevPrevByte]

/-- The tables of a step agree. -/
theorem stepCdf_eq : first.stepCdf first.stepParams = second.stepCdf second.stepParams := by
  obtain ⟨-, -, rleSame⟩ := agree.rle.current
  obtain ⟨-, -, o2Same⟩ := agree.o2_next
  have context : first.stepParams.o2Ctx = first.nextO2 := rfl
  have contextAgain : second.stepParams.o2Ctx = second.nextO2 := rfl
  funext index
  rw [stepCdf, stepCdf, context, contextAgain, agree.stepParams_eq]
  dsimp only [RlePredictor.modelParts]
  split
  · rfl
  · split
    · rfl
    · split
      · rename_i inside
        have lits : NUM_LITS = 254 := rfl
        have small : RlePredictor.NUM_LITS = 254 := rfl
        rw [Order0Model.cumulative_congr fun lit below => rleSame lit (by omega),
          Order0Model.cumulative_congr fun lit below => o2Same lit (by omega)]
      · rfl

/-- Every byte has the same interval in a step. -/
theorem stepInterval_eq (byte : UInt8) :
    first.stepInterval first.stepParams byte = second.stepInterval second.stepParams byte := by
  obtain ⟨rleCounted, rleAgain, rleSame⟩ := agree.rle.current
  obtain ⟨o2Counted, o2Again, o2Same⟩ := agree.o2_next
  have context : first.stepParams.o2Ctx = first.nextO2 := rfl
  have contextAgain : second.stepParams.o2Ctx = second.nextO2 := rfl
  have literal := RlePredictor.literal_lt byte
  rw [stepInterval, stepInterval, context, contextAgain, agree.stepParams_eq]
  dsimp only [RlePredictor.modelParts]
  rw [rleCounted.prefix_unique rleAgain rleSame literal.le,
    o2Counted.prefix_unique o2Again o2Same literal.le, rleSame _ literal, o2Same _ literal]

/-- Every frequency finds the same symbol in a step. -/
theorem stepSymbol_eq (freq : Nat) :
    first.stepSymbol first.stepParams freq = second.stepSymbol second.stepParams freq := by
  obtain ⟨rleCounted, rleAgain, rleSame⟩ := agree.rle.current
  obtain ⟨o2Counted, o2Again, o2Same⟩ := agree.o2_next
  have context : first.stepParams.o2Ctx = first.nextO2 := rfl
  have contextAgain : second.stepParams.o2Ctx = second.nextO2 := rfl
  have nodes (node : Nat) (positive : 0 < node) (inside : node < NUM_LITS) :
      (first.rle.litFenwick first.rle.ctx node, first.o2LitFenwick first.nextO2 node) =
        (second.rle.litFenwick second.rle.ctx node, second.o2LitFenwick second.nextO2 node) := by
    rw [rleCounted.fenwick_unique rleAgain rleSame positive inside.le,
      o2Counted.fenwick_unique o2Again o2Same positive inside.le]
  rw [stepSymbol, stepSymbol, context, contextAgain, agree.stepParams_eq]
  dsimp only [RlePredictor.modelParts]
  rw [Fenwick.Search.foldl_congr _ _ nodes halving_pos]

/-- Caching the probabilities of the step makes them agree too. -/
theorem prepared : Agree true first.prepareStepParams.2 second.prepareStepParams.2 :=
  { agree with
    constants :=
      ⟨agree.constants.cfg, agree.constants.a, agree.constants.aInv, agree.constants.embed⟩
    last := fun _ => agree.stepPrediction_eq }

/-- A step along the hidden state changes weights alike. -/
theorem stepWeights_eq {weights others : Nat → arith.F32} {i : Nat} (inside : i < first.cfg.d)
    (same : weights i = others i) (lrErr : arith.F32) :
    first.stepWeights lrErr weights i = second.stepWeights lrErr others i := by
  have insideAgain : i < second.cfg.d := agree.constants.cfg ▸ inside
  rw [stepWeights, stepWeights, if_pos inside, if_pos insideAgain, same, agree.h i inside]

end Agree

/-- **Counting a byte keeps predictors in agreement** that have cached the same probabilities. -/
theorem Agree.update {first second : NeuralSsmPredictor arith} (agree : Agree true first second)
    (byte : UInt8) : Agree false (first.update byte) (second.update byte) := by
  have cached := agree.last rfl
  have cfg := agree.constants.cfg
  obtain ⟨counted, again, same⟩ := agree.o2_next
  refine ⟨⟨cfg, agree.constants.a, agree.constants.aInv, agree.constants.embed⟩,
    agree.wellFormed.update byte, agree.other.update byte, agree.rle.update byte,
    fun i inside => ?_, fun i inside => ?_, ?_, fun i inside => ?_, ?_, ?_, ?_,
    fun ctx lit within inside => ?_, rfl, agree.prevByte, ?_, nofun⟩
  · have before : i < first.cfg.d := inside
    have after : i < second.cfg.d := cfg ▸ before
    change (if i < first.cfg.d then _ else _) = if i < second.cfg.d then _ else _
    rw [if_pos before, if_pos after, agree.constants.a, agree.constants.aInv,
      agree.constants.embed, agree.h i before]
  · change first.stepWeights (first.cfg.lr * _) first.wRun i =
      second.stepWeights (second.cfg.lr * _) second.wRun i
    rw [cached, cfg]
    exact agree.stepWeights_eq inside (agree.wRun i inside) _
  · change clipWeight first.bRun (first.cfg.lr * _) = clipWeight second.bRun (second.cfg.lr * _)
    rw [cached, cfg, agree.bRun]
  · change (if _ then first.stepWeights (first.cfg.lr * _) first.wRuna else first.wRuna) i =
      (if _ then second.stepWeights (second.cfg.lr * _) second.wRuna else second.wRuna) i
    rw [cached, cfg]
    split
    · exact agree.stepWeights_eq inside (agree.wRuna i inside) _
    · exact agree.wRuna i inside
  · change (if _ then clipWeight first.bRuna (first.cfg.lr * _) else first.bRuna) =
      if _ then clipWeight second.bRuna (second.cfg.lr * _) else second.bRuna
    rw [cached, cfg, agree.bRuna]
  · change trackPerf first.cfg.mixDecay first.ssmPerf _ =
      trackPerf second.cfg.mixDecay second.ssmPerf _
    rw [cached, cfg, agree.ssmPerf]
  · change trackPerf first.cfg.mixDecay first.rlePerf _ =
      trackPerf second.cfg.mixDecay second.rlePerf _
    rw [cached, cfg, agree.rlePerf]
  · have counts := counted.countLiteral_congr again same 100000 (byte.toNat - 2) inside
      (RlePredictor.literal_lt byte)
    have before := agree.o2LitCounts ctx lit within inside
    unfold NeuralSsmPredictor.update
    dsimp only
    split
    · exact before
    · rw [← agree.nextO2_eq] at counts
      rw [← nextO2, ← nextO2, ← agree.nextO2_eq, Function.update_apply, Function.update_apply]
      split
      · exact counts
      · exact before
  · change (first.step + 1) % 2 ^ 32 = (second.step + 1) % 2 ^ 32
    rw [agree.step]

/-- **Predictors that agree cannot be told apart.** -/
theorem simulates_agree : Simulates (@Agree arith) where
  answer step agree := by
    cases step with
    | predict => exact congrArg CodingAnswer.table agree.stepCdf_eq
    | query byte =>
        have same := agree.stepInterval_eq byte
        exact congrArg (fun interval => CodingAnswer.interval interval.1 interval.2) same
    | decode freq =>
        have same := agree.stepSymbol_eq freq
        exact congrArg (fun found => CodingAnswer.symbol found.1 found.2.1 found.2.2) same
    | update byte => rfl
  run step agree allowed := by
    cases step with
    | predict => exact agree.prepared
    | query byte => exact agree.prepared
    | decode freq => exact agree.prepared
    | update byte =>
        cases allowed rfl
        exact agree.update byte

end NeuralSsmPredictor

end AetherArch
