import AetherArch.Library.Fenwick
import AetherArch.Library.FloatFormat
import AetherArch.Library.Numeral
import AetherArch.Entropy.Traits
import AetherArch.Entropy.Order0

/-! # Context-class predictor for transformed streams

Every byte is predicted in three decisions: run symbol or literal, which of the two run
symbols, which literal. The decisions are counted apart for every context class.
-/

namespace AetherArch

namespace RlePredictor

/-- First byte, no previous context. -/
def CTX_START : Nat := 0

/-- The previous byte was a run symbol. -/
def CTX_IN_RUN : Nat := 1

/-- The previous byte was a literal. -/
def CTX_AFTER_LIT : Nat := 2

def NUM_CONTEXTS : Nat := 3

def NUM_LITS : Nat := 254

/-- Virtual pseudocount for binary models. -/
def ALPHA_BIN (formats : FloatFormats) : formats.F32 := 0.5

/-- Virtual pseudocount per literal. -/
def ALPHA_LIT (formats : FloatFormats) : formats.F32 := 0.1

/-- Total virtual mass of the literal model. -/
def ALPHA_LIT_TOTAL (formats : FloatFormats) : formats.F32 := 254.0 * ALPHA_LIT formats

end RlePredictor

/-- The trees over the literal counts have 254 nodes; entry `i` of a tree is node `i`. -/
def fenwick254Add (tree : Nat → Nat) (i delta : Nat) : Nat → Nat :=
  Fenwick.add RlePredictor.NUM_LITS tree (i + 1) delta

def fenwick254Prefix (tree : Nat → Nat) (len : Nat) : Nat := Fenwick.prefixSum tree len

@[irreducible] def fenwick254Rebuild (counts : Nat → Nat) : Nat → Nat :=
  Fenwick.build RlePredictor.NUM_LITS fun position => counts (position - 1)

/-- Simple binary counter with virtual pseudocounts. -/
structure BinaryModel where
  countYes : Nat
  countTotal : Nat

namespace BinaryModel

def new : BinaryModel where
  countYes := 0
  countTotal := 0

/-- Probability of the "yes" outcome. -/
def pYes (formats : FloatFormats) (model : BinaryModel) : formats.F32 :=
  ((model.countYes : formats.F32) + RlePredictor.ALPHA_BIN formats) /
    ((model.countTotal : formats.F32) + 2.0 * RlePredictor.ALPHA_BIN formats)

def update (model : BinaryModel) (isYes : Bool) : BinaryModel :=
  let yes := if isYes then model.countYes + 1 else model.countYes
  let total := model.countTotal + 1
  if total > 500000 then
    { countTotal := total >>> 1, countYes := min (yes >>> 1) (total >>> 1) }
  else { countTotal := total, countYes := yes }

end BinaryModel

/-- Predictor for transformed streams: the models of every context class. -/
structure RlePredictor where
  runVsLit : Nat → BinaryModel
  runaVsRunb : Nat → BinaryModel
  /-- Literal `i` stands for byte `i + 2`. -/
  litCounts : Nat → Nat → Nat
  litFenwick : Nat → Nat → Nat
  litTotals : Nat → Nat
  ctx : Nat

namespace RlePredictor

def new : RlePredictor where
  runVsLit := fun _ => .new
  runaVsRunb := fun _ => .new
  litCounts := fun _ _ => 0
  litFenwick := fun _ _ => 0
  litTotals := fun _ => 0
  ctx := CTX_START

def contextOf (byte : UInt8) : Nat := if byte ≤ 1 then CTX_IN_RUN else CTX_AFTER_LIT

/-- The prediction of the current context in decomposed form. -/
structure ModelParts (formats : FloatFormats) where
  pRun : formats.F32
  pRuna : formats.F32
  litTotal : Nat
  litCounts : Nat → Nat
  litFenwick : Nat → Nat

def modelParts (formats : FloatFormats) (model : RlePredictor) : ModelParts formats where
  pRun := (model.runVsLit model.ctx).pYes formats
  pRuna := (model.runaVsRunb model.ctx).pYes formats
  litTotal := model.litTotals model.ctx
  litCounts := model.litCounts model.ctx
  litFenwick := model.litFenwick model.ctx

/-- Count a literal in a context, halving all its counts past the limit. -/
def countLiteral (limit : Nat) (counts fenwick : Nat → Nat) (total idx : Nat) :
    (Nat → Nat) × (Nat → Nat) × Nat :=
  let counted := Function.update counts idx (counts idx + 1)
  if total + 1 > limit then
    let halved := fun i => counted i >>> 1
    (halved, fenwick254Rebuild halved, Order0Model.cumulative halved NUM_LITS)
  else (counted, fenwick254Add fenwick idx 1, total + 1)

def update (model : RlePredictor) (byte : UInt8) : RlePredictor :=
  let c := model.ctx
  if byte ≤ 1 then
    { model with
      runVsLit := Function.update model.runVsLit c ((model.runVsLit c).update true)
      runaVsRunb := Function.update model.runaVsRunb c ((model.runaVsRunb c).update (byte = 0))
      ctx := contextOf byte }
  else
    let (counts, fenwick, total) := countLiteral 500000 (model.litCounts c) (model.litFenwick c)
      (model.litTotals c) (byte.toNat - 2)
    { model with
      runVsLit := Function.update model.runVsLit c ((model.runVsLit c).update false)
      litCounts := Function.update model.litCounts c counts
      litFenwick := Function.update model.litFenwick c fenwick
      litTotals := Function.update model.litTotals c total
      ctx := contextOf byte }

/-- Version byte, the models of every context, and the context. -/
def saveState (model : RlePredictor) : Bytes :=
  1 :: ((List.range NUM_CONTEXTS).flatMap fun i =>
    Numeral.toLittleEndian 4 (model.runVsLit i).countYes ++
      Numeral.toLittleEndian 4 (model.runVsLit i).countTotal ++
      Numeral.toLittleEndian 4 (model.runaVsRunb i).countYes ++
      Numeral.toLittleEndian 4 (model.runaVsRunb i).countTotal ++
      ((List.range NUM_LITS).flatMap fun lit =>
        Numeral.toLittleEndian 4 (model.litCounts i lit)) ++
      Numeral.toLittleEndian 4 (model.litTotals i)) ++
    [UInt8.ofNat model.ctx]

def MAX_BINARY_COUNT : Nat := 1000000

def MAX_LIT_COUNT : Nat := 1000000

/-- Bytes of one context in a saved state. -/
def PER_CTX : Nat := 4 + 4 + 4 + 4 + 254 * 4 + 4

/-- The number stored at an offset of a saved state. -/
def storedU32 (data : Bytes) (off : Nat) : Nat := Numeral.littleEndian ((data.drop off).take 4)

/-- The binary model stored at an offset. -/
def storedBinary (data : Bytes) (off : Nat) : BinaryModel where
  countYes := storedU32 data off
  countTotal := storedU32 data (off + 4)

/-- Whether a stored binary model is accepted. -/
def acceptsBinary (model : BinaryModel) : Bool :=
  model.countYes ≤ model.countTotal ∧ model.countTotal ≤ MAX_BINARY_COUNT

/-- The literal counts stored for a context. -/
def storedLits (data : Bytes) (i lit : Nat) : Nat := storedU32 data (i * PER_CTX + 16 + lit * 4)

/-- The literal total stored for a context. -/
def storedTotal (data : Bytes) (i : Nat) : Nat :=
  storedU32 data (i * PER_CTX + 16 + NUM_LITS * 4)

/-- Whether the stored models of a context are accepted. -/
def acceptsContext (data : Bytes) (i : Nat) : Bool :=
  acceptsBinary (storedBinary data (i * PER_CTX)) &&
    acceptsBinary (storedBinary data (i * PER_CTX + 8)) &&
    ((List.range NUM_LITS).all fun lit => storedLits data i lit ≤ MAX_LIT_COUNT) &&
    (Order0Model.cumulative (storedLits data i) NUM_LITS ≤ 2 ^ 32 - 1 ∧
      storedTotal data i = Order0Model.cumulative (storedLits data i) NUM_LITS)

def loadState (model : RlePredictor) (data : Bytes) : Bool × RlePredictor :=
  match data with
  | 1 :: data =>
      if data.length ≠ NUM_CONTEXTS * PER_CTX + 1 then (false, model)
      else if (List.range NUM_CONTEXTS).all (acceptsContext data) then
        let ctx := (data.getD (NUM_CONTEXTS * PER_CTX) 0).toNat
        (true,
          { runVsLit := fun i => storedBinary data (i * PER_CTX)
            runaVsRunb := fun i => storedBinary data (i * PER_CTX + 8)
            litCounts := storedLits data
            litFenwick := fun i => fenwick254Rebuild (storedLits data i)
            litTotals := storedTotal data
            ctx := if ctx ≥ NUM_CONTEXTS then 0 else ctx })
      else (false, model)
  | _ => (false, model)

end RlePredictor

end AetherArch
