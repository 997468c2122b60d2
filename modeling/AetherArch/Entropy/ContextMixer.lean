import AetherArch.Library.FloatFormat
import AetherArch.Library.Numeral
import AetherArch.Format

/-! # Context mixing

Models of several orders count bytes by the hash of their context. Their predictions are
mixed by weights in log-odds space, and the weights adapt to how well each model predicted.
-/

namespace AetherArch

/-- A single order-N context model: a table of byte counts by the hash of the context. -/
structure OrderNModel where
  order : Nat
  tableMask : Nat
  table : Nat → Nat → Nat

namespace OrderNModel

/-- Largest table size, as a power of two. -/
def MAX_TABLE_BITS : Nat := 20

def new (order tableBits : Nat) : OrderNModel where
  order := order
  tableMask := 2 ^ min tableBits MAX_TABLE_BITS - 1
  table := fun _ _ => 1

/-- FNV-1a hash of a context. -/
def hashContext (ctx : Bytes) : Nat :=
  (ctx.foldl (fun h b => (h ^^^ b.toUInt64) * 0x100000001b3) (0xcbf29ce484222325 : UInt64)).toNat

/-- The entry of the table for the last bytes of a context. -/
def slot (model : OrderNModel) (context : Bytes) : Nat :=
  hashContext (context.drop (context.length - model.order)) &&& model.tableMask

/-- The probability of every byte in a context. -/
def predict (formats : FloatFormats) (model : OrderNModel) (context : Bytes) :
    Nat → formats.F32 :=
  if context.length < model.order then fun _ => 1.0 / 256.0
  else
    let counts := model.table (model.slot context)
    let total := (List.range 256).foldl (fun total i => total + counts i) 0
    let invTotal : formats.F32 := 1.0 / (total : formats.F32)
    fun i => (counts i : formats.F32) * invTotal

/-- Count a byte in a context, halving the entry when the count gets too high. -/
def update (model : OrderNModel) (context : Bytes) (byte : UInt8) : OrderNModel :=
  if context.length < model.order then model
  else
    let slot := model.slot context
    let counts := model.table slot
    let counted := Function.update counts byte.toNat (min (counts byte.toNat + 1) (2 ^ 16 - 1))
    let kept := if counted byte.toNat ≥ 8000 then fun i => max (counted i >>> 1) 1 else counted
    { model with table := Function.update model.table slot kept }

def reset (model : OrderNModel) : OrderNModel := { model with table := fun _ _ => 1 }

end OrderNModel

/-- Configuration of a context mixer: order and table size of every sub-model. -/
structure ContextMixerConfig (formats : FloatFormats) where
  orders : List (Nat × Nat)
  isLightweight : Bool
  learningRate : formats.F64
  maxContext : Nat

namespace ContextMixerConfig

variable {formats : FloatFormats}

/-- Orders one to six. -/
def default : ContextMixerConfig formats where
  orders := [(1, 14), (2, 16), (3, 16), (4, 15), (5, 14), (6, 13)]
  isLightweight := false
  learningRate := 0.002
  maxContext := 8

def lightweight : ContextMixerConfig formats where
  orders := [(1, 12), (2, 12), (3, 11)]
  isLightweight := true
  learningRate := 0.005
  maxContext := 4

end ContextMixerConfig

/-- Predictor that mixes context models. -/
structure ContextMixer (formats : FloatFormats) where
  models : List OrderNModel
  weights : List formats.F64
  learningRate : formats.F64
  contextBuf : Bytes
  maxContext : Nat
  isLightweight : Bool
  /-- The predictions of the sub-models in the last prediction. -/
  cachedPredictions : List (Nat → formats.F32)
  predictCalled : Bool

namespace ContextMixer

variable {formats : FloatFormats}

/-- Most sub-models in a mixer. -/
def MAX_NUM_MODELS : Nat := 16

/-- Largest memory of all tables. -/
def MAX_TOTAL_MEMORY : Nat := 512 * 1024 * 1024

/-- The weights before anything is learned. -/
def uniformWeights (formats : FloatFormats) (n : Nat) : List formats.F64 :=
  List.replicate n (1.0 / (n : formats.F64))

/-- A new mixer; a configuration beyond the limits is replaced by the lightweight one. -/
def withConfig (config : ContextMixerConfig formats) : ContextMixer formats :=
  let config :=
    if config.orders.length > MAX_NUM_MODELS ∨ config.orders.isEmpty then .lightweight else config
  let memory := (config.orders.map fun order =>
    2 ^ min order.2 OrderNModel.MAX_TABLE_BITS * 256 * 2).sum
  let config := if memory > MAX_TOTAL_MEMORY then .lightweight else config
  let models := config.orders.map fun order => OrderNModel.new order.1 order.2
  { models := models
    weights := uniformWeights formats models.length
    learningRate := config.learningRate
    contextBuf := []
    maxContext := config.maxContext
    isLightweight := config.isLightweight
    cachedPredictions := []
    predictCalled := false }

def new : ContextMixer formats := withConfig .default

/-- The weighted sum of the log-odds of one byte. -/
def mixedLogit (mixer : ContextMixer formats) (predictions : List (Nat → formats.F32)) (i : Nat) :
    formats.F64 :=
  (predictions.zip mixer.weights).foldl (fun mixed entry =>
    let p := FloatFormat.clamp (formats.widen (entry.1 i)) 1e-12 (1.0 - 1e-12)
    mixed + entry.2 * formats.double.ln (p / (1.0 - p))) 0.0

/-- Combine the predictions of all models in log-odds space, with a least probability for
every byte. -/
def mixPredictions (mixer : ContextMixer formats) (predictions : List (Nat → formats.F32)) :
    Nat → formats.F32 :=
  let p (i : Nat) : formats.F64 :=
    1.0 / (1.0 + formats.double.exp
      (-FloatFormat.clamp (mixer.mixedLogit predictions i) (-20.0) 20.0))
  let probs (i : Nat) : formats.F32 := formats.narrow (p i)
  let sum := (List.range 256).foldl (fun sum i => sum + p i) 0.0
  if 0.0 < sum then
    let invSum : formats.F32 := 1.0 / formats.narrow sum
    let floored (i : Nat) : formats.F32 :=
      if probs i * invSum < 1e-7 then 1e-7 else probs i * invSum
    let flooredSum := (List.range 256).foldl (fun sum i => sum + floored i) 0.0
    if 0.0 < flooredSum then
      let inv : formats.F32 := 1.0 / flooredSum
      fun i => floored i * inv
    else floored
  else probs

/-- The weights after a byte was seen: better predictions gain. -/
def updateWeights (mixer : ContextMixer formats) (predictions : List (Nat → formats.F32))
    (actualByte : UInt8) : List formats.F64 :=
  let rewarded := mixer.weights.mapIdx fun i weight =>
    match predictions[i]? with
    | some pred =>
        let p := FloatFormat.clamp (formats.widen (pred actualByte.toNat)) 1e-12 1.0
        weight * max (1.0 + mixer.learningRate * formats.double.ln p) 0.01
    | none => weight
  let sum := rewarded.foldl (· + ·) 0.0
  if 0.0 < sum then rewarded.map (· / sum) else rewarded

def predict (mixer : ContextMixer formats) : (Nat → formats.F32) × ContextMixer formats :=
  let predictions := mixer.models.map fun model => model.predict formats mixer.contextBuf
  (mixer.mixPredictions predictions,
    { mixer with cachedPredictions := predictions, predictCalled := true })

def update (mixer : ContextMixer formats) (byte : UInt8) : ContextMixer formats :=
  let cached := mixer.predictCalled && !mixer.cachedPredictions.isEmpty
  let predictions :=
    if cached then mixer.cachedPredictions
    else mixer.models.map fun model => model.predict formats mixer.contextBuf
  let pushed := mixer.contextBuf ++ [byte]
  { mixer with
    cachedPredictions := if cached then [] else mixer.cachedPredictions
    predictCalled := false
    weights := mixer.updateWeights predictions byte
    models := mixer.models.map fun model => model.update mixer.contextBuf byte
    contextBuf := if pushed.length > mixer.maxContext then pushed.drop 1 else pushed }

def reset (mixer : ContextMixer formats) : ContextMixer formats :=
  { mixer with
    models := mixer.models.map OrderNModel.reset
    weights := uniformWeights formats mixer.models.length
    contextBuf := []
    cachedPredictions := []
    predictCalled := false }

/-- Version byte, variant, number of models, and the weights; the tables are left out. -/
def saveState (mixer : ContextMixer formats) : Bytes :=
  1 :: (if mixer.isLightweight then 1 else 0) ::
    (Numeral.toLittleEndian 4 mixer.weights.length ++
      mixer.weights.flatMap fun weight => Numeral.toLittleEndian 8 (formats.double.toBits weight))

/-- The weight of a model in a saved state, unless it is no finite number or negative. -/
def storedWeight (formats : FloatFormats) (data : Bytes) (i : Nat) : Option formats.F64 :=
  let w := formats.double.ofBits (Numeral.littleEndian ((data.drop (6 + i * 8)).take 8))
  if ¬formats.double.isFinite w ∨ w < 0.0 then none else some w

def loadState (mixer : ContextMixer formats) (data : Bytes) : Bool × ContextMixer formats :=
  if data.length < 6 ∨ data.head? ≠ some 1 then (false, mixer)
  else if decide (data.getD 1 0 ≠ 0) ≠ mixer.isLightweight then (false, mixer)
  else
    let numModels := Numeral.littleEndian ((data.drop 2).take 4)
    if numModels ≠ mixer.models.length then (false, mixer)
    else if data.length ≠ 6 + numModels * 8 then (false, mixer)
    else
      match (List.range numModels).mapM (storedWeight formats data) with
      | none => (false, mixer)
      | some weights => (true, { mixer with weights := weights })

/-- A rejected state leaves the mixer as it was. -/
theorem loadState_rejected {mixer : ContextMixer formats} {data : Bytes}
    (rejected : (mixer.loadState data).1 = false) : (mixer.loadState data).2 = mixer := by
  rw [loadState] at rejected ⊢
  dsimp only at rejected ⊢
  split
  · rfl
  · rename_i long
    rw [if_neg long] at rejected
    split
    · rfl
    · rename_i variant
      rw [if_neg variant] at rejected
      split
      · rfl
      · rename_i fits
        rw [if_neg fits] at rejected
        split
        · rfl
        · rename_i size
          rw [if_neg size] at rejected
          split
          · rfl
          · rename_i weights read
            rw [read] at rejected
            cases rejected

end ContextMixer

end AetherArch
