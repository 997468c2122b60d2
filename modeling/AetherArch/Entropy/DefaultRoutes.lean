import AetherArch.Machine.SymbolSearch

/-! # Predictors with the default routes

A predictor that only says how probable each byte is gets its table from the conversion, its query
from two entries of the table, and its decoding from a search in it. The three agree in every
state, whatever the probabilities are.
-/

namespace AetherArch

namespace ProbabilityPredictor

variable {σ : Type}

/-- The default query and decoding of a predictor that gives its table. -/
@[reducible] def ofTable (table : σ → Cdf × σ) (update : σ → UInt8 → σ) (reset : σ → σ)
    (name : String) (predictorId : PredictorId) : ProbabilityPredictor σ where
  predictCdf := table
  queryCdf state byte := (((table state).1.lower byte, (table state).1.upper byte), (table state).2)
  decodeSymbol state freq :=
    let symbol := UInt8.ofNat (findSymbol (table state).1 freq)
    ((symbol, (table state).1.lower symbol, (table state).1.upper symbol), (table state).2)
  update := update
  reset := reset
  name _ := name
  predictorId _ := predictorId

/-- **The default routes keep the contract** of valid tables. -/
theorem ofTable_contract {table : σ → Cdf × σ} (valid : ∀ state, (table state).1.Valid)
    (update : σ → UInt8 → σ) (reset : σ → σ) (name : String) (predictorId : PredictorId)
    (start : σ) : @Contract σ (ofTable table update reset name predictorId) start := by
  intro state _
  refine @Coherent.mk σ (ofTable table update reset name predictorId) state (valid state)
    (fun _ => rfl) ?_ (fun _ _ _ _ => rfl)
  intro freq symbol inside above below
  obtain ⟨found, foundEq, foundAbove, foundBelow⟩ := (valid state).findSymbol inside
  have same : found = symbol := (valid state).symbol_unique foundAbove foundBelow above below
  change (UInt8.ofNat (findSymbol (table state).1 freq), _, _) = _
  rw [← foundEq, UInt8.ofNat_toNat, same]
  rfl

variable {formats : FloatFormats}

/-- The default table of a predictor that gives probabilities. -/
def tableOf (sorting : UnstableSort Nat) (predict : σ → (Nat → formats.F32) × σ) (state : σ) :
    Cdf × σ :=
  (probsToCdf sorting (predict state).1, (predict state).2)

/-- **Whatever is predicted**, its default table is valid. -/
theorem tableOf_valid {functions : FloatFormats.OpenFunctions} (sorting : UnstableSort Nat)
    (predict : σ → (Nat → (FloatFormats.extended functions).F32) × σ) (state : σ) :
    (@tableOf σ (.extended functions) sorting predict state).1.Valid := by
  unfold tableOf
  dsimp only
  exact @ProbsToCdf.probsToCdf_valid functions sorting (predict state).1

end ProbabilityPredictor

end AetherArch
