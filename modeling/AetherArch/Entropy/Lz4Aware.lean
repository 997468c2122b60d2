import AetherArch.Entropy.ContextMixer
import AetherArch.Entropy.DefaultRoutes

/-! # LZ-aware predictor

A state machine tracks where in the token format of an LZ stream the next byte stands, and a
model of its own predicts the bytes of each place. The model of literals sees literals only.
-/

namespace AetherArch

/-- Position within the LZ byte stream. -/
inductive Lz4ParseState where
  | sizePrefix (byteIndex : Fin 4)
  | token
  | litLenExt
  | literals (remaining : Nat)
  | matchOffsetLow
  | matchOffsetHigh
  | matchLenExt
  deriving DecidableEq

/-- Simple order-0 frequency model. -/
structure FreqModel where
  counts : Nat → Nat
  total : Nat

namespace FreqModel

def new : FreqModel where
  counts := fun _ => 1
  total := 256

def rescale (model : FreqModel) : FreqModel :=
  let counts := fun i => max (model.counts i >>> 1) 1
  { counts := counts
    total := (List.range 256).foldl (fun total i => total + counts i) 0 }

def update (model : FreqModel) (byte : UInt8) : FreqModel :=
  let counted : FreqModel :=
    { counts := Function.update model.counts byte.toNat (model.counts byte.toNat + 1)
      total := model.total + 1 }
  if counted.total > 500000 then counted.rescale else counted

def predict (formats : FloatFormats) (model : FreqModel) : Nat → formats.F32 :=
  let inv : formats.F32 := 1.0 / (model.total : formats.F32)
  fun i => (model.counts i : formats.F32) * inv

def reset (_ : FreqModel) : FreqModel := new

end FreqModel

/-- Mixer of the literal models, by one weight each. -/
structure LiteralMixer (formats : FloatFormats) where
  weights : List formats.F64

namespace LiteralMixer

variable {formats : FloatFormats}

/-- Higher orders weigh more. -/
def new : LiteralMixer formats where
  weights := [1.0, 3.0, 6.0]

/-- Mix the predictions there are. -/
def mix (mixer : LiteralMixer formats) (preds : List (Option (Nat → formats.F32))) :
    Nat → formats.F32 :=
  let weighed := preds.zip mixer.weights
  let sum := weighed.foldl (fun sum entry => if entry.1.isSome then sum + entry.2 else sum) 0.0
  if 0.0 < sum then
    let inv : formats.F32 := 1.0 / formats.narrow sum
    fun j =>
      weighed.foldl (fun result entry =>
        match entry.1 with
        | some p => result + formats.narrow entry.2 * p j
        | none => result) 0.0 * inv
  else fun _ => 1.0 / 256.0

/-- Weigh each model by how well it predicted a byte, and normalize. -/
def update (mixer : LiteralMixer formats) (preds : List (Option (Nat → formats.F32)))
    (actual : UInt8) : LiteralMixer formats :=
  let rewarded := mixer.weights.mapIdx fun i weight =>
    match preds[i]? with
    | some (some p) => weight * max (formats.widen (p actual.toNat)) 1e-8
    | _ => weight
  let sum := rewarded.foldl (· + ·) 0.0
  if 0.0 < sum ∧ formats.double.isFinite sum = true then
    let inv := 1.0 / sum
    { weights := rewarded.map (· * inv) }
  else { weights := rewarded.map fun _ => 1.0 / (rewarded.length : formats.F64) }

def reset (_ : LiteralMixer formats) : LiteralMixer formats := new

end LiteralMixer

/-- Predictor that follows the state machine of LZ streams. Tables count bytes by the slot of
their context. -/
structure Lz4AwarePredictor (formats : FloatFormats) where
  state : Lz4ParseState
  litLenAccum : Nat
  matchLenNibble : UInt8
  lastToken : UInt8
  sizeModels : Fin 4 → FreqModel
  tokenTable : Nat → Nat → Nat
  litExtModel : FreqModel
  litOrder1 : Nat → Nat → Nat
  litOrder2 : Nat → Nat → Nat
  litOrder3 : Nat → Nat → Nat
  /-- The last literals, without the control bytes between them. -/
  litContext : Bytes
  litMixer : LiteralMixer formats
  cachedLitPreds : List (Option (Nat → formats.F32))
  predictCalled : Bool
  offsetLowModel : FreqModel
  offsetHighModel : FreqModel
  matchExtModel : FreqModel

namespace Lz4AwarePredictor

variable {formats : FloatFormats}

def LIT_ORDER1_BITS : Nat := 14

def LIT_ORDER2_BITS : Nat := 14

def LIT_ORDER3_BITS : Nat := 13

/-- Counts of a table entry are halved at this one. -/
def HASH_TABLE_RESCALE : Nat := 8000

/-- Number of literals kept as context. -/
def LIT_CONTEXT_LEN : Nat := 4

/-- Largest literal length the state machine follows. -/
def MAX_LIT_LEN : Nat := 256 * 1024 * 1024

def new : Lz4AwarePredictor formats where
  state := .sizePrefix 0
  litLenAccum := 0
  matchLenNibble := 0
  lastToken := 0
  sizeModels := fun _ => .new
  tokenTable := fun _ _ => 1
  litExtModel := .new
  litOrder1 := fun _ _ => 1
  litOrder2 := fun _ _ => 1
  litOrder3 := fun _ _ => 1
  litContext := []
  litMixer := .new
  cachedLitPreds := [none, none, none]
  predictCalled := false
  offsetLowModel := .new
  offsetHighModel := .new
  matchExtModel := .new

/-! ## Predictions -/

/-- The probabilities of the bytes counted in a table entry. -/
def entryPredict (entry : Nat → Nat) : Nat → formats.F32 :=
  let total := (List.range 256).foldl (fun total i => total + entry i) 0
  let inv : formats.F32 := 1.0 / (total : formats.F32)
  fun i => (entry i : formats.F32) * inv

def predictSizePrefix (predictor : Lz4AwarePredictor formats) (idx : Fin 4) :
    Nat → formats.F32 :=
  (predictor.sizeModels idx).predict formats

def predictToken (predictor : Lz4AwarePredictor formats) : Nat → formats.F32 :=
  entryPredict (predictor.tokenTable predictor.lastToken.toNat)

def hashContext (data : Bytes) : Nat := OrderNModel.hashContext data

/-- The slot of a context in a table. -/
def slot (hashBits : Nat) (ctx : Bytes) : Nat := hashContext ctx &&& (1 <<< hashBits - 1)

def hashEntryPredict (table : Nat → Nat → Nat) (hashBits : Nat) (ctx : Bytes) :
    Nat → formats.F32 :=
  entryPredict (table (slot hashBits ctx))

/-- The last bytes of the context, if there are as many. -/
def suffix (order : Nat) (ctx : Bytes) : Option Bytes :=
  if ctx.length ≥ order then some (ctx.drop (ctx.length - order)) else none

/-- The predictions of the three literal models. -/
def literalPreds (predictor : Lz4AwarePredictor formats) : List (Option (Nat → formats.F32)) :=
  let ctx := predictor.litContext
  [(suffix 1 ctx).map (hashEntryPredict predictor.litOrder1 LIT_ORDER1_BITS),
    (suffix 2 ctx).map (hashEntryPredict predictor.litOrder2 LIT_ORDER2_BITS),
    (suffix 3 ctx).map (hashEntryPredict predictor.litOrder3 LIT_ORDER3_BITS)]

def predictLiteral (predictor : Lz4AwarePredictor formats) :
    (Nat → formats.F32) × Lz4AwarePredictor formats :=
  let preds := predictor.literalPreds
  (predictor.litMixer.mix preds, { predictor with cachedLitPreds := preds })

def predict (predictor : Lz4AwarePredictor formats) :
    (Nat → formats.F32) × Lz4AwarePredictor formats :=
  let predictor := { predictor with predictCalled := true }
  match predictor.state with
  | .sizePrefix byteIndex => (predictor.predictSizePrefix byteIndex, predictor)
  | .token => (predictor.predictToken, predictor)
  | .litLenExt => (predictor.litExtModel.predict formats, predictor)
  | .literals _ => predictor.predictLiteral
  | .matchOffsetLow => (predictor.offsetLowModel.predict formats, predictor)
  | .matchOffsetHigh => (predictor.offsetHighModel.predict formats, predictor)
  | .matchLenExt => (predictor.matchExtModel.predict formats, predictor)

/-! ## Updates -/

/-- Count a byte in a table entry, halving the entry when the count gets too high. -/
def entryUpdate (entry : Nat → Nat) (byte : UInt8) : Nat → Nat :=
  let counted := Function.update entry byte.toNat (min (entry byte.toNat + 1) (2 ^ 16 - 1))
  if counted byte.toNat ≥ HASH_TABLE_RESCALE then fun i => max (counted i >>> 1) 1 else counted

def updateToken (predictor : Lz4AwarePredictor formats) (byte : UInt8) :
    Lz4AwarePredictor formats :=
  let last := predictor.lastToken.toNat
  { predictor with
    tokenTable :=
      Function.update predictor.tokenTable last (entryUpdate (predictor.tokenTable last) byte) }

def hashEntryUpdate (table : Nat → Nat → Nat) (hashBits : Nat) (byte : UInt8) (ctx : Bytes) :
    Nat → Nat → Nat :=
  let idx := slot hashBits ctx
  Function.update table idx (entryUpdate (table idx) byte)

/-- Count a byte in a table of literals, if there is enough context. -/
def countLiteral (table : Nat → Nat → Nat) (order hashBits : Nat) (ctx : Bytes) (byte : UInt8) :
    Nat → Nat → Nat :=
  ((suffix order ctx).map (hashEntryUpdate table hashBits byte)).getD table

def updateLiteral (predictor : Lz4AwarePredictor formats) (byte : UInt8) :
    Lz4AwarePredictor formats :=
  let cached := if predictor.predictCalled then predictor.cachedLitPreds else [none, none, none]
  let preds := if cached.any Option.isSome then cached else predictor.literalPreds
  let ctx := predictor.litContext
  let pushed := ctx ++ [byte]
  { predictor with
    cachedLitPreds :=
      if predictor.predictCalled then [none, none, none] else predictor.cachedLitPreds
    litMixer := predictor.litMixer.update preds byte
    litOrder1 := countLiteral predictor.litOrder1 1 LIT_ORDER1_BITS ctx byte
    litOrder2 := countLiteral predictor.litOrder2 2 LIT_ORDER2_BITS ctx byte
    litOrder3 := countLiteral predictor.litOrder3 3 LIT_ORDER3_BITS ctx byte
    litContext := if pushed.length > LIT_CONTEXT_LEN then pushed.drop 1 else pushed }

/-- The state after a byte. -/
def nextState (predictor : Lz4AwarePredictor formats) (byte : UInt8) : Lz4ParseState :=
  match predictor.state with
  | .sizePrefix byteIndex =>
      if more : byteIndex.val < 3 then .sizePrefix ⟨byteIndex + 1, by omega⟩ else .token
  | .token =>
      let litLenNibble := byte >>> 4
      if litLenNibble = 15 then .litLenExt
      else if litLenNibble > 0 then .literals litLenNibble.toNat
      else .matchOffsetLow
  | .litLenExt =>
      if byte = 255 then .litLenExt
      else if predictor.litLenAccum > 0 then .literals predictor.litLenAccum
      else .matchOffsetLow
  | .literals remaining => if remaining > 1 then .literals (remaining - 1) else .matchOffsetLow
  | .matchOffsetLow => .matchOffsetHigh
  | .matchOffsetHigh => if predictor.matchLenNibble = 15 then .matchLenExt else .token
  | .matchLenExt => if byte = 255 then .matchLenExt else .token

/-- Feed a byte to the model of the place it stands in. -/
def learn (predictor : Lz4AwarePredictor formats) (byte : UInt8) : Lz4AwarePredictor formats :=
  match predictor.state with
  | .sizePrefix byteIndex =>
      { predictor with
        sizeModels := Function.update predictor.sizeModels byteIndex
          ((predictor.sizeModels byteIndex).update byte) }
  | .token =>
      let counted := predictor.updateToken byte
      { counted with
        matchLenNibble := byte &&& 0x0F
        litLenAccum := if byte >>> 4 = 15 then 15 else counted.litLenAccum
        lastToken := byte }
  | .litLenExt =>
      { predictor with
        litExtModel := predictor.litExtModel.update byte
        litLenAccum := min (min (predictor.litLenAccum + byte.toNat) (2 ^ 64 - 1)) MAX_LIT_LEN }
  | .literals _ => predictor.updateLiteral byte
  | .matchOffsetLow => { predictor with offsetLowModel := predictor.offsetLowModel.update byte }
  | .matchOffsetHigh => { predictor with offsetHighModel := predictor.offsetHighModel.update byte }
  | .matchLenExt => { predictor with matchExtModel := predictor.matchExtModel.update byte }

def update (predictor : Lz4AwarePredictor formats) (byte : UInt8) : Lz4AwarePredictor formats :=
  let learned := predictor.learn byte
  { learned with
    state := learned.nextState byte
    predictCalled := false }

def reset (predictor : Lz4AwarePredictor formats) : Lz4AwarePredictor formats where
  state := .sizePrefix 0
  litLenAccum := 0
  matchLenNibble := 0
  lastToken := 0
  sizeModels := fun index => (predictor.sizeModels index).reset
  tokenTable := fun _ _ => 1
  litExtModel := predictor.litExtModel.reset
  litOrder1 := fun _ _ => 1
  litOrder2 := fun _ _ => 1
  litOrder3 := fun _ _ => 1
  litContext := []
  litMixer := predictor.litMixer.reset
  cachedLitPreds := [none, none, none]
  predictCalled := false
  offsetLowModel := predictor.offsetLowModel.reset
  offsetHighModel := predictor.offsetHighModel.reset
  matchExtModel := predictor.matchExtModel.reset

/-- The predictor with the default routes of its trait. -/
@[reducible] def probabilityPredictor (formats : FloatFormats) (sorting : UnstableSort Nat) :
    ProbabilityPredictor (Lz4AwarePredictor formats) :=
  .ofTable (ProbabilityPredictor.tableOf sorting predict) update reset "lz4-aware" .lz4Aware

/-- **The predictor keeps the contract of the range coder** in every state. -/
theorem contract {functions : FloatFormats.OpenFunctions} (sorting : UnstableSort Nat)
    (start : Lz4AwarePredictor (.extended functions)) :
    @ProbabilityPredictor.Contract _ (probabilityPredictor (.extended functions) sorting) start :=
  ProbabilityPredictor.ofTable_contract
    (fun state => ProbabilityPredictor.tableOf_valid sorting predict state) update reset _ _ start

end Lz4AwarePredictor

end AetherArch
