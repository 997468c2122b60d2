import AetherArch.Entropy.RlePredictor

/-! # Neural state-space predictor

A diagonal linear state-space model with two online logistic classifiers, mixed with the
context-class predictor; literals blend the context-class counts with an order-2 model.
Arithmetic is over an arbitrary pair of floating-point formats. The logistic function is
a parameter too; `lookupSigmoid` is the table the program interpolates.
-/

namespace AetherArch

/-- The arithmetic the predictor runs on. -/
structure SsmArithmetic extends FloatFormats where
  sigmoid : toFloatFormats.F32 → toFloatFormats.F32

namespace NeuralSsm

/-- Maximum hidden state dimension. -/
def D_MAX : Nat := 32

/-- Number of order-2 context buckets for literal prediction. -/
def NUM_O2_CTX : Nat := 64

def NUM_LITS : Nat := RlePredictor.NUM_LITS

def SIGMOID_STEPS_PER_UNIT : Nat := 256

/-- Entries for arguments from -20 to 20. -/
def SIGMOID_LUT_LEN : Nat := 40 * SIGMOID_STEPS_PER_UNIT + 1

section Sigmoid

variable {formats : FloatFormats}

def sigmoidEntry (index : Nat) : formats.F32 :=
  let x : formats.F32 := -20.0 + (index : formats.F32) / (SIGMOID_STEPS_PER_UNIT : formats.F32)
  1.0 / (1.0 + formats.single.exp (-x))

/-- The logistic function, interpolated between the entries of a table. -/
def lookupSigmoid (x : formats.F32) : formats.F32 :=
  let scaled := (FloatFormat.clamp x (-20.0) 20.0 - -20.0) * (SIGMOID_STEPS_PER_UNIT : formats.F32)
  let index := formats.single.truncate 64 scaled
  if index + 1 ≥ SIGMOID_LUT_LEN then sigmoidEntry (SIGMOID_LUT_LEN - 1)
  else
    let fraction := scaled - (index : formats.F32)
    let lo : formats.F32 := sigmoidEntry index
    lo + (sigmoidEntry (index + 1) - lo) * fraction

end Sigmoid

/-- Deterministic pseudo-random hash for reproducible initialization. -/
def detHash (formats : FloatFormats) (seed : UInt32) : formats.F32 :=
  let mix (x : UInt32) : UInt32 := ((x >>> 16) ^^^ x) * 0x0045d9f3
  let x := mix (mix (seed + 0x9e3779b9))
  let x := (x >>> 16) ^^^ x
  ((x >>> 9).toNat : formats.F32) / 4194304.0 - 1.0

end NeuralSsm

open NeuralSsm

/-- Hyperparameters. -/
structure NeuralSsmConfig (formats : FloatFormats) where
  d : Nat := 32
  lr : formats.F32 := 0.01
  mixDecay : formats.F32 := 0.995
  warmup : Nat := 0
  mixSensitivity : formats.F32 := 100.0
  maxAlpha : formats.F32 := 0.9
  decayLo : formats.F32 := 0.5
  decayHi : formats.F32 := 0.999
  o2LitBlend : formats.F32 := 0.3
  o2MinObs : Nat := 10

/-- Everything the predictor learns. -/
structure SsmState (formats : FloatFormats) where
  rle : RlePredictor
  h : Nat → formats.F32
  wRun : Nat → formats.F32
  bRun : formats.F32
  wRuna : Nat → formats.F32
  bRuna : formats.F32
  ssmPerf : formats.F32
  rlePerf : formats.F32
  o2LitCounts : Nat → Nat → Nat
  o2LitFenwick : Nat → Nat → Nat
  o2LitTotals : Nat → Nat
  prevByte : UInt8
  prevPrevByte : UInt8
  step : Nat

/-- A state before any byte was seen. -/
def SsmState.fresh (formats : FloatFormats) : SsmState formats where
  rle := .new
  h := fun _ => 0.0
  wRun := fun _ => 0.0
  bRun := 0.0
  wRuna := fun _ => 0.0
  bRuna := 0.0
  ssmPerf := 0.0
  rlePerf := 0.0
  o2LitCounts := fun _ _ => 0
  o2LitFenwick := fun _ _ => 0
  o2LitTotals := fun _ => 0
  prevByte := 0xFF
  prevPrevByte := 0xFF
  step := 0

/-- Pre-parsed dictionary state that `reset` returns to. -/
structure ParsedSsmBaseline (formats : FloatFormats) extends SsmState formats where
  rawBytes : Bytes

/-- The four binary probabilities of the last prediction, which `update` scores. -/
structure LastPrediction (formats : FloatFormats) where
  ssmPRun : formats.F32
  ssmPRuna : formats.F32
  rlePRun : formats.F32
  rlePRuna : formats.F32

/-- Neural SSM predictor with adaptive mixing. -/
structure NeuralSsmPredictor (arith : SsmArithmetic) extends SsmState arith.toFloatFormats where
  cfg : NeuralSsmConfig arith.toFloatFormats
  a : Nat → arith.F32
  aInv : Nat → arith.F32
  embed : Nat → Nat → arith.F32
  last : LastPrediction arith.toFloatFormats
  dictBaseline : Option (ParsedSsmBaseline arith.toFloatFormats)

namespace NeuralSsmPredictor

variable {arith : SsmArithmetic}

def MIN_PROB (arith : SsmArithmetic) : arith.F32 := 1e-6

/-- Pseudocount per literal in the order-2 model. -/
def O2_ALPHA (arith : SsmArithmetic) : arith.F32 := 0.5

/-- Confidence constant of the order-2 blend. -/
def O2_CONF_K (arith : SsmArithmetic) : arith.F32 := 32.0

def WEIGHT_CLIP (arith : SsmArithmetic) : arith.F32 := 10.0

/-- A finite field restricted to a range, or its default. -/
def clampOr (value lo hi fallback : arith.F32) : arith.F32 :=
  if arith.single.isFinite value then FloatFormat.clamp value lo hi else fallback

/-- A finite non-negative field capped at a bound, or its default. -/
def capOr (value bound fallback : arith.F32) : arith.F32 :=
  if arith.single.isFinite value ∧ 0.0 ≤ value then min value bound else fallback

/-- Hyperparameters restricted to the ranges in which the model does not diverge. -/
def validateConfig (cfg : NeuralSsmConfig arith.toFloatFormats) :
    NeuralSsmConfig arith.toFloatFormats :=
  let decayLo := clampOr cfg.decayLo 0.0 1.0 0.5
  { d := min (max cfg.d 1) D_MAX
    lr := capOr cfg.lr 1.0 0.01
    mixDecay := clampOr cfg.mixDecay 0.0 1.0 0.995
    warmup := cfg.warmup
    mixSensitivity := capOr cfg.mixSensitivity 1000.0 100.0
    maxAlpha := clampOr cfg.maxAlpha 0.0 1.0 0.9
    decayLo := decayLo
    decayHi := clampOr cfg.decayHi decayLo 1.0 (max 0.999 decayLo)
    o2LitBlend := clampOr cfg.o2LitBlend 0.0 1.0 0.3
    o2MinObs := cfg.o2MinObs }

/-- Decay rates, linearly spaced. -/
def decayRates (cfg : NeuralSsmConfig arith.toFloatFormats) (i : Nat) : arith.F32 :=
  if i < cfg.d then
    let t : arith.F32 := (i : arith.F32) / ((max (cfg.d - 1) 1 : Nat) : arith.F32)
    cfg.decayLo + t * (cfg.decayHi - cfg.decayLo)
  else 0.0

/-- The probabilities cached before any prediction. -/
def initialLast (arith : SsmArithmetic) : LastPrediction arith.toFloatFormats where
  ssmPRun := 0.5
  ssmPRuna := 0.5
  rlePRun := 0.5
  rlePRuna := 0.5

def withConfig (cfg : NeuralSsmConfig arith.toFloatFormats) : NeuralSsmPredictor arith :=
  let cfg := validateConfig cfg
  { SsmState.fresh arith.toFloatFormats with
    cfg := cfg
    a := decayRates cfg
    aInv := fun i => if i < cfg.d then 1.0 - decayRates cfg i else 0.0
    embed := fun sym i =>
      if i < cfg.d then
        detHash arith.toFloatFormats (UInt32.ofNat sym * 997 + UInt32.ofNat (i + 42))
      else 0.0
    last := initialLast arith
    dictBaseline := none }

def new : NeuralSsmPredictor arith := withConfig {}

/-! ## Prediction -/

/-- The dot product of weights with the hidden state, added to a bias in index order. -/
def dot (state : NeuralSsmPredictor arith) (weights : Nat → arith.F32) (bias : arith.F32) :
    arith.F32 :=
  (List.range state.cfg.d).foldl (fun sum i => sum + weights i * state.h i) bias

/-- The binary predictions of the hidden state. -/
def ssmBinaryPredict (state : NeuralSsmPredictor arith) : arith.F32 × arith.F32 :=
  (arith.sigmoid (state.dot state.wRun state.bRun),
    arith.sigmoid (state.dot state.wRuna state.bRuna))

/-- Exact buckets for the low ranks, logarithmic ones above. -/
def rankBucket (b : UInt8) : Nat :=
  if b ≤ 3 then b.toNat
  else if b ≤ 5 then 4
  else if b ≤ 9 then 5
  else if b ≤ 19 then 6
  else 7

/-- The order-2 context of the previous two bytes. -/
def o2Context (prev prevPrev : UInt8) : Nat := rankBucket prev * 8 + rankBucket prevPrev

/-- Mixing weight of the state-space model: zero when it predicts worse. -/
def mixingAlpha (state : NeuralSsmPredictor arith) : arith.F32 :=
  if state.step < state.cfg.warmup then 0.0
  else
    let diff := state.ssmPerf - state.rlePerf
    if diff ≤ 0.0 then 0.0 else min (diff * state.cfg.mixSensitivity) state.cfg.maxAlpha

/-- The mixing and normalization parameters of one step. -/
structure StepParams (arith : SsmArithmetic) where
  w0 : arith.F64
  w01 : arith.F64
  total : arith.F64
  rleCoef : arith.F64
  o2Coef : arith.F64
  baseLit : arith.F64
  o2Ctx : Nat

/-- The weight below literal `m`, given the counts below it. -/
def StepParams.litCumulative (params : StepParams arith) (m rleCum o2Cum : Nat) : arith.F64 :=
  params.w01 + params.rleCoef * (rleCum : arith.F64) + params.o2Coef * (o2Cum : arith.F64) +
    (m : arith.F64) * params.baseLit

/-- The probabilities a step caches. -/
def stepPrediction (state : NeuralSsmPredictor arith) : LastPrediction arith.toFloatFormats :=
  let parts := state.rle.modelParts arith.toFloatFormats
  let rleP0 := parts.pRun * parts.pRuna
  let rleP1 := parts.pRun * (1.0 - parts.pRuna)
  let rlePRun := rleP0 + rleP1
  let rlePRuna := if MIN_PROB arith < rlePRun then rleP0 / rlePRun else 0.5
  let (ssmPRun, ssmPRuna) := state.ssmBinaryPredict
  { ssmPRun := ssmPRun, ssmPRuna := ssmPRuna, rlePRun := rlePRun, rlePRuna := rlePRuna }

/-- The parameters of a step whose probabilities are cached. -/
def stepParams (state : NeuralSsmPredictor arith) : StepParams arith :=
  let parts := state.rle.modelParts arith.toFloatFormats
  let last := state.stepPrediction
  let alpha := state.mixingAlpha
  let pRun := alpha * last.ssmPRun + (1.0 - alpha) * last.rlePRun
  let pRuna := alpha * last.ssmPRuna + (1.0 - alpha) * last.rlePRuna
  let o2Ctx := o2Context state.prevByte state.prevPrevByte
  let o2Obs := state.o2LitTotals o2Ctx
  let effBlend :=
    state.cfg.o2LitBlend * ((o2Obs : arith.F32) / ((o2Obs : arith.F32) + O2_CONF_K arith))
  let rleWeight := 1.0 - effBlend
  let alphaLit := arith.widen (RlePredictor.ALPHA_LIT arith.toFloatFormats)
  let o2Alpha := arith.widen (O2_ALPHA arith)
  let w0 := arith.widen (max (pRun * pRuna) (MIN_PROB arith))
  let w1 := arith.widen (max (pRun * (1.0 - pRuna)) (MIN_PROB arith))
  let w01 := w0 + w1
  let pLit := arith.widen (max (1.0 - pRun) (MIN_PROB arith))
  let rleDenom := (parts.litTotal : arith.F64) + 254.0 * alphaLit
  let rleCoef := pLit * arith.widen rleWeight / rleDenom
  let o2Coef :=
    if 0.0 < effBlend then
      let o2Denom := (o2Obs : arith.F64) + 254.0 * o2Alpha
      pLit * arith.widen effBlend / o2Denom
    else 0.0
  let baseLit := rleCoef * alphaLit + o2Coef * o2Alpha
  let total := w01 + rleCoef * (parts.litTotal : arith.F64) + o2Coef * (o2Obs : arith.F64) +
    254.0 * baseLit
  { w0 := w0, w01 := w01, total := total, rleCoef := rleCoef, o2Coef := o2Coef
    baseLit := baseLit, o2Ctx := o2Ctx }

/-- Cache the probabilities of a step and compute its parameters. -/
def prepareStepParams (state : NeuralSsmPredictor arith) :
    StepParams arith × NeuralSsmPredictor arith :=
  (state.stepParams, { state with last := state.stepPrediction })

def RESERVED : Nat := 256

def SCALABLE : Nat := PROB_TOTAL - RESERVED

/-- Quantize cumulative mass while reserving one count per symbol. -/
def quantizedBoundary (cumulative total : arith.F64) (symbolIndex : Nat) : Nat :=
  let value := (symbolIndex + arith.double.truncate 32
    (arith.double.floor (cumulative * (SCALABLE : arith.F64) / total))) % 2 ^ 32
  min value PROB_TOTAL

/-- The boundary below literal `m`, from the counts below it in both models. -/
def StepParams.litBoundary (params : StepParams arith) (m : Nat) (cum : Nat × Nat) : Nat :=
  quantizedBoundary (params.litCumulative m cum.1 cum.2) params.total (2 + m)

/-- The table of a step. -/
def stepCdf (state : NeuralSsmPredictor arith) (params : StepParams arith) : Cdf := fun index =>
  let rleLitCounts := (state.rle.modelParts arith.toFloatFormats).litCounts
  let o2Counts := state.o2LitCounts params.o2Ctx
  if index.val = 0 then 0
  else if index.val = 1 then UInt16.ofNat (quantizedBoundary params.w0 params.total 1)
  else if index.val < 256 then
    let m := index.val - 2
    UInt16.ofNat (params.litBoundary m
      (Order0Model.cumulative rleLitCounts m, Order0Model.cumulative o2Counts m))
  else UInt16.ofNat PROB_TOTAL

/-- The interval of one byte in a step: constant time for the run symbols, logarithmic for
literals. -/
def stepInterval (state : NeuralSsmPredictor arith) (params : StepParams arith) (byte : UInt8) :
    UInt16 × UInt16 :=
  let b1 := UInt16.ofNat (quantizedBoundary params.w0 params.total 1)
  if byte = 0 then (0, b1)
  else if byte = 1 then (b1, UInt16.ofNat (quantizedBoundary params.w01 params.total 2))
  else
    let m := byte.toNat - 2
    let parts := state.rle.modelParts arith.toFloatFormats
    let rleCum := fenwick254Prefix parts.litFenwick m
    let o2Cum := fenwick254Prefix (state.o2LitFenwick params.o2Ctx) m
    let lo := UInt16.ofNat (params.litBoundary m (rleCum, o2Cum))
    let hi :=
      if byte = 255 then UInt16.ofNat PROB_TOTAL
      else UInt16.ofNat (params.litBoundary (m + 1)
        (rleCum + parts.litCounts m, o2Cum + state.o2LitCounts params.o2Ctx m))
    (lo, hi)

/-- Resolve a cumulative frequency in a step, descending both trees at once for a literal. -/
def stepSymbol (state : NeuralSsmPredictor arith) (params : StepParams arith) (freq : Nat) :
    UInt8 × UInt16 × UInt16 :=
  let b1 := quantizedBoundary params.w0 params.total 1
  let b2 := quantizedBoundary params.w01 params.total 2
  if freq < b1 then (0, 0, UInt16.ofNat b1)
  else if freq < b2 then (1, UInt16.ofNat b1, UInt16.ofNat b2)
  else
    let rleFenwick := (state.rle.modelParts arith.toFloatFormats).litFenwick
    let o2Fenwick := state.o2LitFenwick params.o2Ctx
    let found := [128, 64, 32, 16, 8, 4, 2, 1].foldl
      (Fenwick.Search.step (fun node => (rleFenwick node, o2Fenwick node)) params.litBoundary
        NUM_LITS freq)
      { low := 0, sum := (0, 0), lowValue := b2, highValue := PROB_TOTAL }
    (UInt8.ofNat (2 + found.low), UInt16.ofNat found.lowValue, UInt16.ofNat found.highValue)

def predictCdf (state : NeuralSsmPredictor arith) : Cdf × NeuralSsmPredictor arith :=
  let (params, state) := state.prepareStepParams
  (state.stepCdf params, state)

def queryCdf (state : NeuralSsmPredictor arith) (byte : UInt8) :
    (UInt16 × UInt16) × NeuralSsmPredictor arith :=
  let (params, state) := state.prepareStepParams
  (state.stepInterval params byte, state)

def decodeSymbol (state : NeuralSsmPredictor arith) (freq : Nat) :
    (UInt8 × UInt16 × UInt16) × NeuralSsmPredictor arith :=
  let (params, state) := state.prepareStepParams
  (state.stepSymbol params freq, state)

/-! ## Learning -/

/-- The log-likelihood two binary probabilities give to a byte. -/
def logLikelihood (pRun pRuna : arith.F32) (byte : UInt8) : arith.F32 :=
  let ln (p : arith.F32) := arith.single.ln (max p (MIN_PROB arith))
  if byte ≤ 1 then ln pRun + (if byte = 0 then ln pRuna else ln (1.0 - pRuna))
  else ln (1.0 - pRun)

/-- A weight after a gradient step, clipped. -/
def clipWeight (weight gradient : arith.F32) : arith.F32 :=
  FloatFormat.clamp (weight - gradient) (-WEIGHT_CLIP arith) (WEIGHT_CLIP arith)

/-- The weights of a classifier after a gradient step along the hidden state. -/
def stepWeights (state : NeuralSsmPredictor arith) (lrErr : arith.F32)
    (weights : Nat → arith.F32) (i : Nat) : arith.F32 :=
  if i < state.cfg.d then clipWeight (weights i) (lrErr * state.h i) else weights i

/-- Average a new observation into a performance track. -/
def trackPerf (decay perf observed : arith.F32) : arith.F32 :=
  decay * perf + (1.0 - decay) * observed

def update (state : NeuralSsmPredictor arith) (byte : UInt8) : NeuralSsmPredictor arith :=
  let decay := state.cfg.mixDecay
  let isRun : Bool := byte ≤ 1
  let lrErrRun := state.cfg.lr * (state.last.ssmPRun - if isRun then 1.0 else 0.0)
  let lrErrRuna := state.cfg.lr * (state.last.ssmPRuna - if byte = 0 then 1.0 else 0.0)
  let o2Ctx := o2Context state.prevByte state.prevPrevByte
  let (counts, fenwick, total) := RlePredictor.countLiteral 100000 (state.o2LitCounts o2Ctx)
    (state.o2LitFenwick o2Ctx) (state.o2LitTotals o2Ctx) (byte.toNat - 2)
  { state with
    ssmPerf := trackPerf decay state.ssmPerf
      (logLikelihood state.last.ssmPRun state.last.ssmPRuna byte)
    rlePerf := trackPerf decay state.rlePerf
      (logLikelihood state.last.rlePRun state.last.rlePRuna byte)
    rle := state.rle.update byte
    wRun := state.stepWeights lrErrRun state.wRun
    bRun := clipWeight state.bRun lrErrRun
    wRuna := if isRun then state.stepWeights lrErrRuna state.wRuna else state.wRuna
    bRuna := if isRun then clipWeight state.bRuna lrErrRuna else state.bRuna
    o2LitCounts :=
      if isRun then state.o2LitCounts else Function.update state.o2LitCounts o2Ctx counts
    o2LitFenwick :=
      if isRun then state.o2LitFenwick else Function.update state.o2LitFenwick o2Ctx fenwick
    o2LitTotals :=
      if isRun then state.o2LitTotals else Function.update state.o2LitTotals o2Ctx total
    h := fun i =>
      if i < state.cfg.d then
        state.a i * state.h i + state.aInv i * state.embed byte.toNat i
      else state.h i
    prevPrevByte := state.prevByte
    prevByte := byte
    step := (state.step + 1) % 2 ^ 32 }

/-- Return to the dictionary baseline, or to the initial conditions without one. -/
def reset (state : NeuralSsmPredictor arith) : NeuralSsmPredictor arith :=
  match state.dictBaseline with
  | some baseline => { state with toSsmState := baseline.toSsmState }
  | none => { state with toSsmState := .fresh _, last := initialLast arith }

/-! ## Saved states -/

/-- A number in single precision, as stored. -/
def storeF32 (x : arith.F32) : Bytes := Numeral.toLittleEndian 4 (arith.single.toBits x)

/-- Version byte, dimension, weights, order-2 counts and the context-class state. -/
def saveState (state : NeuralSsmPredictor arith) : Bytes :=
  let row (values : Nat → arith.F32) :=
    (List.range state.cfg.d).flatMap fun i => storeF32 (values i)
  let rleState := state.rle.saveState
  1 :: (Numeral.toLittleEndian 4 state.cfg.d ++ row state.h ++ row state.wRun ++
    storeF32 state.bRun ++ row state.wRuna ++ storeF32 state.bRuna ++ storeF32 state.ssmPerf ++
    storeF32 state.rlePerf ++
    ((List.range NUM_O2_CTX).flatMap fun ctx => (List.range NUM_LITS).flatMap fun lit =>
      Numeral.toLittleEndian 4 (state.o2LitCounts ctx lit)) ++
    ((List.range NUM_O2_CTX).flatMap fun ctx =>
      Numeral.toLittleEndian 4 (state.o2LitTotals ctx)) ++
    [state.prevByte, state.prevPrevByte] ++ Numeral.toLittleEndian 4 state.step ++
    Numeral.toLittleEndian 4 rleState.length ++ rleState)

/-- Maximum magnitude of a loaded weight. -/
def WEIGHT_BOUND (arith : SsmArithmetic) : arith.F32 := 10.0

/-- Maximum magnitude of a loaded hidden state. -/
def HIDDEN_BOUND (arith : SsmArithmetic) : arith.F32 := 5.0

/-- Maximum loaded count of one literal. -/
def MAX_O2_COUNT : Nat := 200000

def readU32 (data : Bytes) : Option (Nat × Bytes) :=
  if data.length < 4 then none else some (Numeral.littleEndian (data.take 4), data.drop 4)

def readFiniteF32 (data : Bytes) : Option (arith.F32 × Bytes) := do
  let (bits, data) ← readU32 data
  let v := arith.single.ofBits bits
  if arith.single.isFinite v then some (v, data) else none

def readBoundedF32 (data : Bytes) (bound : arith.F32) : Option (arith.F32 × Bytes) := do
  let (v, data) ← readFiniteF32 data
  if FloatFormat.abs v ≤ bound then some (v, data) else none

/-- Read a row of bounded numbers into the leading entries of an array. -/
def readRow (bound : arith.F32) : (count : Nat) → Bytes → Option ((Nat → arith.F32) × Bytes)
  | 0, data => some (fun _ => 0.0, data)
  | count + 1, data => do
      let (row, data) ← readRow bound count data
      let (v, data) ← readBoundedF32 data bound
      some (Function.update row count v, data)

/-- Read literal counts, each within its bound, into the leading entries of an array. -/
def readCounts : (count : Nat) → Bytes → Option ((Nat → Nat) × Bytes)
  | 0, data => some (fun _ => 0, data)
  | count + 1, data => do
      let (counts, data) ← readCounts count data
      let (c, data) ← readU32 data
      if c > MAX_O2_COUNT then none else some (Function.update counts count c, data)

/-- Read the literal counts of the leading contexts. -/
def readContexts : (count : Nat) → Bytes → Option ((Nat → Nat → Nat) × Bytes)
  | 0, data => some (fun _ _ => 0, data)
  | count + 1, data => do
      let (contexts, data) ← readContexts count data
      let (counts, data) ← readCounts NUM_LITS data
      some (Function.update contexts count counts, data)

/-- Read the totals of the leading contexts, each the sum of the context's counts. -/
def readTotals (contexts : Nat → Nat → Nat) : (count : Nat) → Bytes →
    Option ((Nat → Nat) × Bytes)
  | 0, data => some (fun _ => 0, data)
  | count + 1, data => do
      let (totals, data) ← readTotals contexts count data
      let (total, data) ← readU32 data
      let computed := Order0Model.cumulative (contexts count) NUM_LITS
      if computed > 2 ^ 32 - 1 ∨ total ≠ computed then none
      else some (Function.update totals count total, data)

/-- The size of a saved state without its context-class part. -/
def minSize (d : Nat) : Nat :=
  1 + 4 + d * 4 * 3 + 4 * 4 + NUM_O2_CTX * 254 * 4 + NUM_O2_CTX * 4 + 2 + 4 + 4

/-- Parse the part of a saved state before the context-class state: what is learned over
the given one, the length of the context-class state, and the bytes left. -/
def parseState (d : Nat) (rle : RlePredictor) (data : Bytes) :
    Option (SsmState arith.toFloatFormats × Nat × Bytes) :=
  match data with
  | 1 :: rest => do
      let (storedD, rest) ← readU32 rest
      if storedD > D_MAX ∨ storedD ≠ d then none
      else if data.length < minSize d then none
      else
        let (h, rest) ← readRow (HIDDEN_BOUND arith) d rest
        let (wRun, rest) ← readRow (WEIGHT_BOUND arith) d rest
        let (bRun, rest) ← readBoundedF32 rest (WEIGHT_BOUND arith)
        let (wRuna, rest) ← readRow (WEIGHT_BOUND arith) d rest
        let (bRuna, rest) ← readBoundedF32 rest (WEIGHT_BOUND arith)
        let (ssmPerf, rest) ← readFiniteF32 rest
        let (rlePerf, rest) ← readFiniteF32 rest
        let (o2LitCounts, rest) ← readContexts NUM_O2_CTX rest
        let (o2LitTotals, rest) ← readTotals o2LitCounts NUM_O2_CTX rest
        match rest with
        | prevByte :: prevPrevByte :: rest =>
            let (step, rest) ← readU32 rest
            let (rleLen, rest) ← readU32 rest
            some ({ rle := rle, h := h, wRun := wRun, bRun := bRun, wRuna := wRuna
                    bRuna := bRuna, ssmPerf := ssmPerf, rlePerf := rlePerf
                    o2LitCounts := o2LitCounts
                    o2LitFenwick := fun ctx => fenwick254Rebuild (o2LitCounts ctx)
                    o2LitTotals := o2LitTotals, prevByte := prevByte
                    prevPrevByte := prevPrevByte, step := step }, rleLen, rest)
        | _ => none
  | _ => none

/-- Load a saved state. The context-class state is committed before trailing bytes are
rejected, and kept when the saved state holds none. -/
def loadState (state : NeuralSsmPredictor arith) (data : Bytes) :
    Bool × NeuralSsmPredictor arith :=
  match parseState state.cfg.d state.rle data with
  | none => (false, state)
  | some (parsed, rleLen, rest) =>
      if rleLen > 0 then
        if rleLen > rest.length then (false, state)
        else
          match state.rle.loadState (rest.take rleLen) with
          | (false, rle) => (false, { state with rle := rle })
          | (true, rle) =>
              if rleLen ≠ rest.length then (false, { state with rle := rle })
              else (true, { state with toSsmState := { parsed with rle := rle } })
      else if rest.length ≠ 0 then (false, state)
      else (true, { state with toSsmState := parsed })

/-- Install a dictionary state as the per-block reset baseline. -/
def setDictBaseline (state : NeuralSsmPredictor arith) (data : Bytes) :
    Bool × NeuralSsmPredictor arith :=
  match state.loadState data with
  | (false, state) => (false, state)
  | (true, state) =>
      (true, { state with
        dictBaseline := some { toSsmState := state.toSsmState, rawBytes := data } })

instance : ProbabilityPredictor (NeuralSsmPredictor arith) where
  predictCdf := predictCdf
  queryCdf := queryCdf
  decodeSymbol := decodeSymbol
  update := update
  reset := reset
  name _ := "neural-ssm"
  predictorId _ := .neuralSsm
  saveState state := some state.saveState
  loadState := loadState
  codingBaseline state := state.dictBaseline.map (·.rawBytes)
  setCodingBaseline := setDictBaseline

end NeuralSsmPredictor

end AetherArch
