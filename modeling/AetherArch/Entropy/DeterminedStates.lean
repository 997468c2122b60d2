import AetherArch.Entropy.ErasedHistory

/-! # Which loaded states are determined by their bytes

A predictor that accepts a saved state takes everything it codes with from there, with one
exception: a neural state may end with an empty context-class part, and then the predictor keeps
its own.
-/

namespace AetherArch

open CountWords (CodingStep)
open ProbabilityPredictor

namespace NeuralSsmPredictor

open NeuralSsm
open RlePredictor (acceptsState storedState)

variable {arith : SsmArithmetic}

/-! ## What the configuration fixes -/

/-- The parts that coding never changes follow from the configuration, which is a checked one. -/
structure Configured (state : NeuralSsmPredictor arith) : Prop where
  checked : ∃ cfg, state.cfg = validateConfig cfg
  a : state.a = decayRates state.cfg
  aInv : state.aInv = fun i => if i < state.cfg.d then 1.0 - decayRates state.cfg i else 0.0
  embed : state.embed = fun sym i =>
    if i < state.cfg.d then
      detHash arith.toFloatFormats (UInt32.ofNat sym * 997 + UInt32.ofNat (i + 42))
    else 0.0

theorem configured_withConfig (cfg : NeuralSsmConfig arith.toFloatFormats) :
    (withConfig cfg : NeuralSsmPredictor arith).Configured :=
  ⟨⟨cfg, rfl⟩, rfl, rfl, rfl⟩

/-- Two predictors with the same constants. -/
structure SameConstants (first second : NeuralSsmPredictor arith) : Prop where
  cfg : first.cfg = second.cfg
  a : first.a = second.a
  aInv : first.aInv = second.aInv
  embed : first.embed = second.embed

theorem SameSetup.sameConstants {first second : NeuralSsmPredictor arith}
    (same : SameSetup first second) : SameConstants first second :=
  ⟨same.cfg, same.a, same.aInv, same.embed⟩

/-- Installing a baseline keeps the constants. -/
theorem sameConstants_setDictBaseline (state : NeuralSsmPredictor arith) (data : Bytes) :
    SameConstants state (state.setDictBaseline data).2 := by
  have loaded := (sameSetup_loadState state data).sameConstants
  rw [setDictBaseline]
  split
  · rename_i rejected
    rw [rejected] at loaded
    exact loaded
  · rename_i accepted
    rw [accepted] at loaded
    exact ⟨loaded.cfg, loaded.a, loaded.aInv, loaded.embed⟩

/-- Constants are all that a configuration fixes. -/
theorem SameConstants.configured {first second : NeuralSsmPredictor arith}
    (same : SameConstants first second) (configured : first.Configured) : second.Configured := by
  obtain ⟨cfg, a, aInv, embed⟩ := same
  obtain ⟨checked, aEq, aInvEq, embedEq⟩ := configured
  exact ⟨cfg ▸ checked, cfg ▸ a ▸ aEq, cfg ▸ aInv ▸ aInvEq, cfg ▸ embed ▸ embedEq⟩

/-- Configured predictors of one configuration have the same constants. -/
theorem Configured.sameConstants {first second : NeuralSsmPredictor arith}
    (configured : first.Configured) (other : second.Configured) (cfg : first.cfg = second.cfg) :
    SameConstants first second where
  cfg := cfg
  a := by rw [configured.a, other.a, cfg]
  aInv := by rw [configured.aInv, other.aInv, cfg]
  embed := by rw [configured.embed, other.embed, cfg]

/-- **Every predictor in use has the constants of its configuration.** -/
theorem InUse.configured {state : NeuralSsmPredictor arith} (inUse : state.InUse) :
    state.Configured := by
  induction inUse with
  | withConfig cfg => exact configured_withConfig cfg
  | coded _ reached recurse =>
      exact (sameSetup_of_reachable reached).sameConstants.configured recurse
  | loadState data _ recurse => exact (sameSetup_loadState _ data).sameConstants.configured recurse
  | setDictBaseline data _ recurse =>
      exact (sameConstants_setDictBaseline _ data).configured recurse

/-! ## What an accepted state overwrites -/

/-- A conversion behind every continuation is one behind the sequence. -/
theorem bind_eq_map {α β γ : Type} {convert : β → γ} {first : α → Option γ} {second : α → Option β}
    (value : Option α) (same : ∀ found, first found = (second found).map convert) :
    value >>= first = (value >>= second).map convert := by
  cases value with
  | none => rfl
  | some found => exact same found

/-- The context-class state is handed on by the parser as it is. -/
theorem parseState_rle (d : Nat) (rle : RlePredictor) (data : Bytes) :
    @parseState arith d rle data = (@parseState arith d .new data).map
      fun found => ({ found.1 with rle := rle }, found.2) := by
  rw [parseState.eq_def, parseState.eq_def]
  split
  · refine bind_eq_map _ fun dimension => ?_
    dsimp only
    split
    · rfl
    · split
      · rfl
      · refine bind_eq_map _ fun h => bind_eq_map _ fun wRun => bind_eq_map _ fun bRun =>
          bind_eq_map _ fun wRuna => bind_eq_map _ fun bRuna => bind_eq_map _ fun ssmPerf =>
          bind_eq_map _ fun rlePerf => bind_eq_map _ fun counts => bind_eq_map _ fun totals => ?_
        split
        · exact bind_eq_map _ fun step => bind_eq_map _ fun length => rfl
        · rfl
  · rfl

/-- A state without a nested part is taken over as it is parsed. -/
theorem loadState_eq_of_empty {state : NeuralSsmPredictor arith} {data : Bytes}
    {parsed : SsmState arith.toFloatFormats}
    (success : @parseState arith state.cfg.d state.rle data = some (parsed, 0, [])) :
    state.loadState data = (true, { state with toSsmState := parsed }) := by
  rw [loadState, success]
  rfl

/-- **A context-class part leaves nothing of the predictor** that loads it. -/
theorem learned_of_nested {first second loaded reloaded : NeuralSsmPredictor arith} {data : Bytes}
    (dimension : first.cfg.d = second.cfg.d) (nested : storedNestedLength first.cfg.d data ≠ 0)
    (accepted : first.loadState data = (true, loaded))
    (again : second.loadState data = (true, reloaded)) :
    loaded.toSsmState = reloaded.toSsmState := by
  obtain ⟨parsed, rest, parse, cases⟩ := loadState_accepted accepted
  obtain ⟨reparsed, other, reparse, recases⟩ := loadState_accepted again
  rw [← dimension] at reparse recases
  obtain ⟨-, loadedEq⟩ := cases.resolve_left fun empty => nested empty.1
  obtain ⟨-, reloadedEq⟩ := recases.resolve_left fun empty => nested empty.1
  rw [parseState_rle] at parse reparse
  obtain ⟨⟨base, after⟩, found, same⟩ := Option.map_eq_some_iff.mp parse
  rw [found] at reparse
  cases same
  cases reparse
  rw [loadedEq, reloadedEq]

/-- What was learned decides the coding, the constants being the same. -/
theorem SameConstants.sameCoding {first second : NeuralSsmPredictor arith}
    (same : SameConstants first second) (learned : first.toSsmState = second.toSsmState) :
    SameCoding false first second :=
  ⟨learned, same.cfg, same.a, same.aInv, same.embed, nofun⟩

theorem SameConstants.symm {first second : NeuralSsmPredictor arith}
    (same : SameConstants first second) : SameConstants second first :=
  ⟨same.cfg.symm, same.a.symm, same.aInv.symm, same.embed.symm⟩

/-- Having the same constants is transitive. -/
theorem SameConstants.trans {first second third : NeuralSsmPredictor arith}
    (before : SameConstants first second) (after : SameConstants second third) :
    SameConstants first third :=
  ⟨before.cfg.trans after.cfg, before.a.trans after.a, before.aInv.trans after.aInv,
    before.embed.trans after.embed⟩

/-- Predictors of one configuration agree once they have loaded a state with a context-class
part. -/
theorem InUse.sameCoding_loaded {first second loaded reloaded : NeuralSsmPredictor arith}
    {data : Bytes} (inUse : first.InUse) (other : second.InUse) (cfg : first.cfg = second.cfg)
    (nested : storedNestedLength first.cfg.d data ≠ 0)
    (accepted : first.loadState data = (true, loaded))
    (again : second.loadState data = (true, reloaded)) : SameCoding false loaded reloaded := by
  have kept := (sameSetup_loadState first data).sameConstants
  have keptAgain := (sameSetup_loadState second data).sameConstants
  rw [accepted] at kept
  rw [again] at keptAgain
  have same := inUse.configured.sameConstants other.configured cfg
  exact ((kept.symm.trans same).trans keptAgain).sameCoding
    (learned_of_nested (congrArg NeuralSsmConfig.d cfg) nested accepted again)

/-- They also agree on the baseline that they install. -/
theorem InUse.sameSetup_installed {first second installed reinstalled : NeuralSsmPredictor arith}
    {data : Bytes} (inUse : first.InUse) (other : second.InUse) (cfg : first.cfg = second.cfg)
    (nested : storedNestedLength first.cfg.d data ≠ 0)
    (accepted : first.setDictBaseline data = (true, installed))
    (again : second.setDictBaseline data = (true, reinstalled)) :
    SameCoding false installed reinstalled ∧ SameSetup installed reinstalled := by
  obtain ⟨loaded, found, rfl⟩ := setDictBaseline_accepted accepted
  obtain ⟨reloaded, refound, rfl⟩ := setDictBaseline_accepted again
  obtain ⟨learned, cfg, a, aInv, embed, -⟩ :=
    inUse.sameCoding_loaded other cfg nested found refound
  refine ⟨⟨learned, cfg, a, aInv, embed, nofun⟩, ⟨cfg, a, aInv, embed, ?_⟩⟩
  dsimp only
  rw [learned]

/-! ## What an empty context-class part leaves -/

section

variable {functions : ExactFunctions}

/-- A configuration that leaves every prediction to the context classes. -/
def contextOnly (functions : ExactFunctions) (d : Nat) :
    NeuralSsmConfig (SsmArithmetic.exact functions).toFloatFormats :=
  { d := d, mixSensitivity := 0, maxAlpha := 0, o2LitBlend := 0 }

/-- Without history, contexts are all that is mixed. -/
theorem mixingAlpha_contextOnly {state : NeuralSsmPredictor (.exact functions)} {d : Nat}
    (cfg : state.cfg = validateConfig (contextOnly functions d)) :
    state.mixingAlpha = (0 : ℚ) := by
  have sensitivity : state.cfg.mixSensitivity = (0 : ℚ) := by
    rw [cfg]
    change (if true = true ∧ decide ((0.0 : ℚ) ≤ 0) = true then min (0 : ℚ) 1000.0 else 100.0) = 0
    norm_num
  have weight : state.cfg.maxAlpha = (0 : ℚ) := by
    rw [cfg]
    change (if true = true then
      (if decide ((0 : ℚ) < 0.0) = true then (0.0 : ℚ)
        else if decide ((1.0 : ℚ) < 0) = true then 1.0 else 0) else (0.9 : ℚ)) = 0
    norm_num
  have capped (difference : ℚ) : min (difference * 0) 0 = 0 := by rw [mul_zero, min_self]
  rw [mixingAlpha, sensitivity, weight]
  split
  · change (0.0 : ℚ) = 0
    norm_num
  · dsimp only
    split
    · change (0.0 : ℚ) = 0
      norm_num
    · exact capped _

/-- Without history, the second context has no share. -/
theorem o2Share_contextOnly {state : NeuralSsmPredictor (.exact functions)} {d : Nat}
    (cfg : state.cfg = validateConfig (contextOnly functions d)) : o2Share state.cfg = 0 := by
  rw [cfg]
  change (if true = true then
      (if decide ((0 : ℚ) < 0.0) = true then (0.0 : ℚ)
        else if decide ((1.0 : ℚ) < 0) = true then 1.0 else 0) else (0.3 : ℚ)) = 0
  norm_num

/-- The context classes' own prediction of a run, from their two decisions. -/
theorem stepPrediction_rle (state : NeuralSsmPredictor (.exact functions)) {p q : ℚ}
    (run : (state.rle.modelParts (SsmArithmetic.exact functions).toFloatFormats).pRun = p)
    (runa : (state.rle.modelParts (SsmArithmetic.exact functions).toFloatFormats).pRuna = q)
    (sure : 1 / 1000000 < p) :
    state.stepPrediction.rlePRun = p ∧ state.stepPrediction.rlePRuna = q := by
  have whole : p * q + p * (1.0 - q) = p := by
    norm_num
    ring
  have share : (if decide ((1e-6 : ℚ) < p * q + p * (1.0 - q)) = true then
      p * q / (p * q + p * (1.0 - q)) else 0.5) = q := by
    rw [whole, if_pos (decide_eq_true (by norm_num; exact sure))]
    exact mul_div_cancel_left₀ q (by linarith)
  subst run runa
  exact ⟨whole, share⟩

/-- Without the classifiers and the order-2 model, the context classes decide alone. -/
theorem ratios_contextOnly {state : NeuralSsmPredictor (.exact functions)} {d : Nat}
    (cfg : state.cfg = validateConfig (contextOnly functions d)) {p q : ℚ}
    (run : state.stepPrediction.rlePRun = p) (runa : state.stepPrediction.rlePRuna = q)
    (empty : state.rle.litTotals state.rle.ctx = 0) :
    state.stepParams.ratios.w0 = max (p * q) 1e-6 ∧
      state.stepParams.ratios.total = max (p * q) 1e-6 + max (p * (1 - q)) 1e-6 +
        max (1 - p) 1e-6 := by
  have alpha := mixingAlpha_contextOnly cfg
  have share := o2Share_contextOnly cfg
  have mixed (own ssm : ℚ) : 0 * ssm + (1.0 - 0) * own = own := by
    norm_num
  have unshared (observed : ℚ) : (0 : ℚ) * (observed / (observed + 32.0)) = 0 := zero_mul _
  have formula {ssmRun ssmRuna alpha share : ℚ} {observed litTotal : Nat}
      (alphaEq : state.mixingAlpha = alpha) (shareEq : o2Share state.cfg = share)
      (runEq : state.stepPrediction.ssmPRun = ssmRun)
      (runaEq : state.stepPrediction.ssmPRuna = ssmRuna)
      (litTotalEq : state.rle.litTotals state.rle.ctx = litTotal)
      (observedEq : state.o2LitTotals (o2Context state.prevByte state.prevPrevByte) = observed) :
      state.stepParams.ratios =
        let pRun := alpha * ssmRun + (1.0 - alpha) * p
        let pRuna := alpha * ssmRuna + (1.0 - alpha) * q
        let effBlend := share * (observed / (observed + 32.0))
        let w0 := max (pRun * pRuna) 1e-6
        let w01 := w0 + max (pRun * (1.0 - pRuna)) 1e-6
        let pLit := max (1.0 - pRun) 1e-6
        let rleCoef := pLit * (1.0 - effBlend) / (litTotal + 254.0 * 0.1)
        let o2Coef := if decide (0.0 < effBlend) = true then
          pLit * effBlend / (observed + 254.0 * 0.5) else 0.0
        let baseLit := rleCoef * 0.1 + o2Coef * 0.5
        { w0 := w0, w01 := w01
          total := w01 + rleCoef * litTotal + o2Coef * observed + 254.0 * baseLit
          rleCoef := rleCoef, o2Coef := o2Coef, baseLit := baseLit } := by
    subst run runa alphaEq shareEq runEq runaEq litTotalEq observedEq
    rfl
  obtain ⟨ssmRun, ssmRunEq⟩ : ∃ value : ℚ, state.stepPrediction.ssmPRun = value := ⟨_, rfl⟩
  obtain ⟨ssmRuna, ssmRunaEq⟩ : ∃ value : ℚ, state.stepPrediction.ssmPRuna = value := ⟨_, rfl⟩
  rw [formula alpha share ssmRunEq ssmRunaEq empty rfl]
  dsimp only
  rw [mixed, mixed, unshared]
  norm_num
  ring

/-- The share of the first run symbol where both decisions stand alike. -/
theorem predictCdf_contextOnly {state : NeuralSsmPredictor (.exact functions)} {d : Nat}
    (cfg : state.cfg = validateConfig (contextOnly functions d)) {p : ℚ}
    (run : (state.rle.modelParts (SsmArithmetic.exact functions).toFloatFormats).pRun = p)
    (runa : (state.rle.modelParts (SsmArithmetic.exact functions).toFloatFormats).pRuna = p)
    (empty : state.rle.litTotals state.rle.ctx = 0) (low : 1 / 4 ≤ p) (high : p ≤ 3 / 4) :
    (ProbabilityPredictor.predictCdf state).1 1 =
      UInt16.ofNat (1 + ⌊p * p * (SCALABLE : ℚ)⌋₊) := by
  have scalable : SCALABLE = 32512 := by decide
  obtain ⟨runEq, runaEq⟩ := stepPrediction_rle state run runa (by linarith)
  obtain ⟨w0, total⟩ := ratios_contextOnly cfg runEq runaEq empty
  have squared : 1 / 16 ≤ p * p := by nlinarith
  have crossed : 1 / 16 ≤ p * (1 - p) := by nlinarith
  have floored {weight : ℚ} (enough : 1 / 16 ≤ weight) : max weight 1e-6 = weight := by
    apply max_eq_left
    norm_num
    linarith
  rw [floored squared] at w0
  rw [floored squared, floored crossed, floored (by linarith)] at total
  have whole : p * p + p * (1 - p) + (1 - p) = 1 := by ring
  have below : ⌊p * p * (SCALABLE : ℚ) / 1⌋₊ ≤ SCALABLE := by
    rw [div_one]
    apply Nat.floor_le_of_le
    rw [scalable]
    push_cast
    nlinarith
  have quantized := @quantizedBoundary_eq functions (p * p) 1 1 (by decide) below
  rw [div_one] at quantized
  rw [whole] at total
  have boundary : quantizedBoundary state.stepParams.w0 state.stepParams.total 1 =
      1 + ⌊p * p * (SCALABLE : ℚ)⌋₊ := by
    rw [← quantized, ← w0, ← total]
    rfl
  exact congrArg UInt16.ofNat boundary

/-- Two zeros have been counted in the context class of runs. -/
def afterZeros (functions : ExactFunctions) (d : Nat) : NeuralSsmPredictor (.exact functions) :=
  update (update (withConfig (contextOnly functions d)) 0) 0

/-- A new binary model predicts one half. -/
theorem pYes_zero (functions : ExactFunctions) :
    BinaryModel.new.pYes (SsmArithmetic.exact functions).toFloatFormats = (1 / 2 : ℚ) := by
  change (((0 : Nat) : ℚ) + 0.5) / (((0 : Nat) : ℚ) + 2.0 * 0.5) = 1 / 2
  norm_num

/-- One observation moves it to three quarters. -/
theorem pYes_one (functions : ExactFunctions) :
    (BinaryModel.new.update true).pYes (SsmArithmetic.exact functions).toFloatFormats =
      (3 / 4 : ℚ) := by
  change (((1 : Nat) : ℚ) + 0.5) / (((1 : Nat) : ℚ) + 2.0 * 0.5) = 3 / 4
  norm_num

/-- **The two keep telling each other apart** once they have loaded a state that leaves them
their context classes. -/
theorem not_codesAlike_of_rle {first second : NeuralSsmPredictor (.exact functions)} {d : Nat}
    (firstCfg : first.cfg = validateConfig (contextOnly functions d))
    (secondCfg : second.cfg = validateConfig (contextOnly functions d))
    (firstRle : first.rle = .new) (secondRle : second.rle = (afterZeros functions d).rle) :
    ¬CodesAlike first second := by
  intro alike
  have same := congrFun alike.predict_eq 1
  rw [predictCdf_contextOnly firstCfg (p := 1 / 2) (by rw [firstRle]; exact pYes_zero functions)
      (by rw [firstRle]; exact pYes_zero functions) (by rw [firstRle]; rfl) (by norm_num)
      (by norm_num),
    predictCdf_contextOnly secondCfg (p := 3 / 4) (by rw [secondRle]; exact pYes_one functions)
      (by rw [secondRle]; exact pYes_one functions) (by rw [secondRle]; rfl) (by norm_num)
      (by norm_num)] at same
  have scalable : SCALABLE = 32512 := by decide
  have half : ⌊(1 / 2 : ℚ) * (1 / 2) * (SCALABLE : ℚ)⌋₊ = 8128 := by
    rw [scalable, Nat.floor_eq_iff (by norm_num)]
    norm_num
  have quarters : ⌊(3 / 4 : ℚ) * (3 / 4) * (SCALABLE : ℚ)⌋₊ = 18288 := by
    rw [scalable, Nat.floor_eq_iff (by norm_num)]
    norm_num
  rw [half, quarters] at same
  exact absurd same (by decide)

/-- A state without a context-class part is accepted by predictors that go on differently. -/
theorem exists_not_codesAlike {state loaded : NeuralSsmPredictor (.exact functions)} {data : Bytes}
    (inUse : state.InUse) (accepted : state.loadState data = (true, loaded))
    (empty : storedNestedLength state.cfg.d data = 0) :
    ∃ d, ∃ first second : NeuralSsmPredictor (.exact functions),
      (withConfig (contextOnly functions d)).loadState data = (true, first) ∧
      (afterZeros functions d).loadState data = (true, second) ∧ ¬CodesAlike first second := by
  obtain ⟨cfg, checked⟩ := inUse.configured.checked
  have dimension : (validateConfig (contextOnly functions state.cfg.d)).d = state.cfg.d := by
    rw [checked]
    change min (max (min (max cfg.d 1) D_MAX) 1) D_MAX = min (max cfg.d 1) D_MAX
    have largest : D_MAX = 32 := rfl
    omega
  obtain ⟨parsed, rest, parse, cases⟩ := loadState_accepted accepted
  obtain ⟨-, rfl, -⟩ := cases.resolve_right fun nested => absurd empty nested.1.ne'
  rw [empty, parseState_rle] at parse
  obtain ⟨⟨base, length, after⟩, found, same⟩ := Option.map_eq_some_iff.mp parse
  cases same
  have parses (rle : RlePredictor) : @parseState (.exact functions)
      (validateConfig (contextOnly functions state.cfg.d)).d rle data =
        some ({ base with rle := rle }, 0, []) := by
    rw [dimension, parseState_rle, found]
    rfl
  exact ⟨state.cfg.d, _, _, loadState_eq_of_empty (parses _), loadState_eq_of_empty (parses _),
    not_codesAlike_of_rle rfl rfl rfl rfl⟩

end

end NeuralSsmPredictor

/-- What is loaded does not depend on the model before. -/
theorem Order0Model.loadState_congr {first second loaded reloaded : Order0Model} {data : Bytes}
    (accepted : first.loadState data = (true, loaded))
    (again : second.loadState data = (true, reloaded)) : loaded = reloaded := by
  obtain ⟨-, rfl⟩ := Order0Model.loadState_eq_true accepted
  obtain ⟨-, rfl⟩ := Order0Model.loadState_eq_true again
  rfl

/-- What is loaded does not depend on the predictor before. -/
theorem RlePredictor.loadState_congr {first second loaded reloaded : RlePredictor} {data : Bytes}
    (accepted : first.loadState data = (true, loaded))
    (again : second.loadState data = (true, reloaded)) : loaded = reloaded := by
  rw [RlePredictor.loadState_eq] at accepted again
  split at accepted
  · rename_i accepts
    rw [if_pos accepts] at again
    cases accepted
    cases again
    rfl
  · cases accepted

/-- Two predictors that both load a saved state code alike after it. -/
def LoadsAlike {σ : Type} [ProbabilityPredictor σ] (first second : σ) (data : Bytes) : Prop :=
  ∀ loaded reloaded, loadState first data = (true, loaded) →
    loadState second data = (true, reloaded) → CodesAlike loaded reloaded

/-- What two neural predictors code with once they have the same baseline installed, and once
they return to it. -/
structure InstallsAlike {arith : SsmArithmetic} (first second : NeuralSsmPredictor arith)
    (data : Bytes) : Prop where
  installed : ∀ installed reinstalled, first.setDictBaseline data = (true, installed) →
    second.setDictBaseline data = (true, reinstalled) → CodesAlike installed reinstalled
  reset : ∀ installed reinstalled, first.setDictBaseline data = (true, installed) →
    second.setDictBaseline data = (true, reinstalled) →
      ∀ later relater, NeuralSsmPredictor.History installed later →
        NeuralSsmPredictor.History reinstalled relater → CodesAlike later.reset relater.reset

/-- Whatever accepts the bytes codes with what they hold and with nothing it had before. -/
structure Determined (arith : SsmArithmetic) (formats : FloatFormats) (data : Bytes) : Prop where
  neural (first second : NeuralSsmPredictor arith) : first.InUse → second.InUse →
    first.cfg = second.cfg → LoadsAlike first second data
  baseline (first second : NeuralSsmPredictor arith) : first.InUse → second.InUse →
    first.cfg = second.cfg → InstallsAlike first second data
  rle (first second : RlePredictor) :
    @LoadsAlike RlePredictor (RlePredictor.predictor formats) first second data
  order0 (first second : Order0Model) : LoadsAlike first second data

/-- Where a neural predictor accepts the bytes, the length they give for the context-class part
is not zero. -/
def CarriesNested (arith : SsmArithmetic) (data : Bytes) : Prop :=
  ∀ state : NeuralSsmPredictor arith, state.InUse → (state.loadState data).1 = true →
    NeuralSsmPredictor.storedNestedLength state.cfg.d data ≠ 0

namespace NeuralSsmPredictor

/-- A state that carries its nested part determines the predictor. -/
theorem determined_of_carriesNested {arith : SsmArithmetic} (formats : FloatFormats) {data : Bytes}
    (carries : CarriesNested arith data) : Determined arith formats data where
  neural first second inUse other cfg loaded reloaded accepted again :=
    have nested := carries first inUse (congrArg Prod.fst accepted)
    simulates_sameCoding.codesAlike (inUse.sameCoding_loaded other cfg nested accepted again)
  baseline first second inUse other cfg := by
    have same {installed reinstalled : NeuralSsmPredictor arith}
        (accepted : first.setDictBaseline data = (true, installed))
        (again : second.setDictBaseline data = (true, reinstalled)) :
        SameCoding false installed reinstalled ∧ SameSetup installed reinstalled := by
      obtain ⟨loaded, found, -⟩ := setDictBaseline_accepted accepted
      have nested := carries first inUse (congrArg Prod.fst found)
      exact inUse.sameSetup_installed other cfg nested accepted again
    refine ⟨?_, ?_⟩
    · intro installed reinstalled accepted again
      exact simulates_sameCoding.codesAlike (same accepted again).1
    · intro installed reinstalled accepted again later relater history rehistory
      have setup := (same accepted again).2
      exact ((history.sameSetup.symm.trans setup).trans rehistory.sameSetup).codesAfresh.alike
  rle first second loaded reloaded accepted again := by
    cases RlePredictor.loadState_congr accepted again
    exact fun _ _ => rfl
  order0 first second loaded reloaded accepted again := by
    cases Order0Model.loadState_congr accepted again
    exact fun _ _ => rfl

end NeuralSsmPredictor

/-- **A loaded state is determined by its bytes** exactly if they do not leave the context-class
part out: over any arithmetic it suffices that they carry one, and over exact arithmetic two
predictors tell each other apart if they do not. -/
theorem loadedStates_determined_iff (formats : FloatFormats) (data : Bytes) :
    (∀ arith : SsmArithmetic, CarriesNested arith data → Determined arith formats data) ∧
      ∀ functions : ExactFunctions,
        Determined (.exact functions) formats data ↔ CarriesNested (.exact functions) data := by
  refine ⟨fun _ => NeuralSsmPredictor.determined_of_carriesNested formats, fun functions => ?_⟩
  refine ⟨?_, NeuralSsmPredictor.determined_of_carriesNested formats⟩
  intro determined state inUse accepted empty
  obtain ⟨d, first, second, loads, reloads, differ⟩ :=
    NeuralSsmPredictor.exists_not_codesAlike inUse (Prod.ext accepted rfl) empty
  have fresh : (NeuralSsmPredictor.withConfig (NeuralSsmPredictor.contextOnly functions d) :
      NeuralSsmPredictor (.exact functions)).InUse := .withConfig _
  have used : (NeuralSsmPredictor.afterZeros functions d).InUse :=
    .coded fresh (.update 0 (.update 0 .start))
  exact differ (determined.neural _ _ fresh used rfl _ _ loads reloads)

namespace NeuralSsmPredictor

/-- A saved state is parsed for its own dimension only. -/
theorem dimension_of_accepted {arith : SsmArithmetic} {state : NeuralSsmPredictor arith}
    {d step : Nat} {nested trailing : Bytes} (small : d ≤ NeuralSsm.D_MAX)
    (accepted : (state.loadState (savedZeros d step nested trailing)).1 = true) :
    state.cfg.d = d := by
  have word : d % 2 ^ 32 = d := by
    have largest : NeuralSsm.D_MAX = 32 := rfl
    exact Nat.mod_eq_of_lt (by omega)
  by_contra other
  have refused : @parseState arith state.cfg.d state.rle (savedZeros d step nested trailing) =
      none := by
    rw [savedZeros, parseState, readU32_toLittleEndian, word]
    exact if_pos (.inr fun same => other same.symm)
  rw [loadState, refused] at accepted
  cases accepted

/-- A complete state determines what is loaded. -/
theorem loadedStates_determined_savedZeros :
    let arith := SsmArithmetic.exact flatFunctions
    let data := savedZeros 32 5 (RlePredictor.savedZeros 0) []
    (∃ loaded, (new : NeuralSsmPredictor arith).loadState data = (true, loaded)) ∧
      Determined arith arith.toFloatFormats data := by
  intro arith data
  obtain ⟨loaded, accepted, -⟩ := loadState_savedZeros (show 5 < 2 ^ 32 by decide)
  refine ⟨⟨loaded, accepted⟩, (loadedStates_determined_iff _ data).1 arith ?_⟩
  intro state _ accepts
  rw [dimension_of_accepted (by decide) accepts]
  have length := RlePredictor.length_savedZeros 0
  obtain ⟨parsed, parse, -⟩ := parseState_savedZeros readsZero_flat
    (show 32 ≤ NeuralSsm.D_MAX by decide) .new 5
    (show (RlePredictor.savedZeros 0).length < 2 ^ 32 by omega) []
  rw [← (parseState_spec parse).2.1, length]
  decide

/-- A saved state without a context-class part is accepted, and as a baseline it keeps what the
predictor had counted. -/
theorem emptyNested_undetermined :
    let data := savedZeros 32 0 [] []
    let first : NeuralSsmPredictor (.exact flatFunctions) :=
      withConfig (contextOnly flatFunctions 32)
    let second := update (update first 0) 0
    ¬Determined (.exact flatFunctions) (SsmArithmetic.exact flatFunctions).toFloatFormats data ∧
      ∃ loaded reloaded installed reinstalled : NeuralSsmPredictor (.exact flatFunctions),
      first.loadState data = (true, loaded) ∧ second.loadState data = (true, reloaded) ∧
      ¬CodesAlike loaded reloaded ∧
      first.setDictBaseline data = (true, installed) ∧
      second.setDictBaseline data = (true, reinstalled) ∧
      ¬CodesAlike installed.reset reinstalled.reset := by
  intro data first second
  have parses (rle : RlePredictor) : ∃ parsed,
      @parseState (.exact flatFunctions) 32 rle data = some (parsed, 0, []) ∧ parsed.rle = rle := by
    obtain ⟨parsed, parse, -⟩ := parseState_savedZeros readsZero_flat
      (show 32 ≤ NeuralSsm.D_MAX by decide) rle 0 (show ([] : Bytes).length < 2 ^ 32 by decide) []
    exact ⟨parsed, parse, (parseState_eq_some parse).rle⟩
  obtain ⟨parsed, parse, kept⟩ := parses first.rle
  obtain ⟨reparsed, reparse, rekept⟩ := parses second.rle
  have loads := @loadState_eq_of_empty _ first data parsed parse
  have reloads := @loadState_eq_of_empty _ second data reparsed reparse
  have differ : ¬CodesAlike { first with toSsmState := parsed }
      { second with toSsmState := reparsed } :=
    not_codesAlike_of_rle (d := 32) rfl rfl kept rekept
  have fresh : first.InUse := .withConfig _
  refine ⟨fun determined => ?_, _, _, _, _, loads, reloads, differ,
    by rw [setDictBaseline, loads], by rw [setDictBaseline, reloads], ?_⟩
  · have used : second.InUse := .coded fresh (.update 0 (.update 0 .start))
    exact differ (determined.neural _ _ fresh used rfl _ _ loads reloads)
  · exact not_codesAlike_of_rle (d := 32) rfl rfl kept rekept

end NeuralSsmPredictor

end AetherArch
