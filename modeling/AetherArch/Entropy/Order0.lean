import AetherArch.Library.Fenwick
import AetherArch.Library.Numeral
import AetherArch.Entropy.Traits

/-! # Order-0 adaptive frequency model

Counts every byte seen so far. A Fenwick tree beside the counts answers prefix
sums in logarithmic time, and boundaries are quantized with one count reserved
for every symbol.
-/

namespace AetherArch

/-- Largest `total` for which `ExactDivisor` multiplies and shifts. -/
def MAX_MAGIC_TOTAL : Nat := 1 <<< 20

/-- Exact `n / total` by multiply-and-shift, for a `total` that stays fixed across
a whole CDF sweep. -/
structure ExactDivisor where
  total : Nat
  magic : Nat
  exact : Bool

namespace ExactDivisor

def SHIFT : Nat := 56

def new (total : Nat) : ExactDivisor :=
  let exact := total > 0 ∧ total ≤ MAX_MAGIC_TOTAL
  { total := total
    magic := if exact then (1 <<< SHIFT) / total + 1 else 0
    exact := decide exact }

def div (divisor : ExactDivisor) (n : Nat) : Nat :=
  if divisor.exact then ((n * divisor.magic) >>> SHIFT) % 2 ^ 64 else n / divisor.total

end ExactDivisor

/-- Adaptive order-0 frequency model with Laplace smoothing. Entry `i` of `counts`
is the count of byte `i`, and entry `i` of `fenwick` is node `i` of a tree over
positions `1 … 256`. -/
structure Order0Model where
  counts : Nat → Nat
  fenwick : Nat → Nat
  total : Nat

namespace Order0Model

/-- Rebuild the tree over the counts. -/
@[irreducible] def rebuildFenwick (counts : Nat → Nat) : Nat → Nat :=
  Fenwick.build 256 fun position => counts (position - 1)

def new : Order0Model where
  counts := fun _ => 1
  fenwick := rebuildFenwick fun _ => 1
  total := 256

def fenwickAdd (model : Order0Model) (i delta : Nat) : Order0Model :=
  { model with fenwick := Fenwick.add 256 model.fenwick (i + 1) delta }

def fenwickPrefix (model : Order0Model) (len : Nat) : Nat :=
  Fenwick.prefixSum model.fenwick len

def RESERVED : Nat := 256

def SCALABLE : Nat := PROB_TOTAL - RESERVED

def quantizeBoundary (divisor : ExactDivisor) (cum symbolIndex : Nat) : Nat :=
  symbolIndex + divisor.div (cum * SCALABLE) % 2 ^ 32

/-- The sum of the counts below a symbol. -/
def cumulative (counts : Nat → Nat) : Nat → Nat
  | 0 => 0
  | symbol + 1 => cumulative counts symbol + counts symbol

def predictCdf (model : Order0Model) : Cdf := fun index =>
  if index.val < 256 then
    UInt16.ofNat (quantizeBoundary (ExactDivisor.new model.total)
      (cumulative model.counts index.val) index.val)
  else UInt16.ofNat PROB_TOTAL

/-- Halve all counts, keeping each at least one. -/
def rescale (model : Order0Model) : Order0Model :=
  let counts := fun symbol => max (model.counts symbol >>> 1) 1
  { counts := counts, fenwick := rebuildFenwick counts, total := cumulative counts 256 }

def update (model : Order0Model) (byte : UInt8) : Order0Model :=
  let b := byte.toNat
  let counted := { model with
    counts := Function.update model.counts b (model.counts b + 1)
    total := model.total + 1 }
  if counted.total > 1000000 then counted.rescale else counted.fenwickAdd b 1

def reset (_ : Order0Model) : Order0Model := new

/-- The interval of one byte. -/
def queryCdf (model : Order0Model) (byte : UInt8) : UInt16 × UInt16 :=
  let s := byte.toNat
  let divisor := ExactDivisor.new model.total
  let cum := model.fenwickPrefix s
  let lo := UInt16.ofNat (quantizeBoundary divisor cum s)
  let hi :=
    if s = 255 then UInt16.ofNat PROB_TOTAL
    else UInt16.ofNat (quantizeBoundary divisor (cum + model.counts s) (s + 1))
  (lo, hi)

/-- Resolve a cumulative frequency in eight halving steps through the tree. -/
def decodeSymbol (model : Order0Model) (freq : Nat) : UInt8 × UInt16 × UInt16 :=
  let divisor := ExactDivisor.new model.total
  let found := [128, 64, 32, 16, 8, 4, 2, 1].foldl
    (Fenwick.Search.step model.fenwick
      (fun candidate cum => quantizeBoundary divisor cum candidate) 256 freq)
    { low := 0, sum := 0, lowValue := 0, highValue := PROB_TOTAL }
  (UInt8.ofNat found.low, UInt16.ofNat found.lowValue, UInt16.ofNat found.highValue)

/-- Version byte and the counts, in little-endian. -/
def saveState (model : Order0Model) : Bytes :=
  1 :: (List.range 256).flatMap fun symbol => Numeral.toLittleEndian 4 (model.counts symbol)

/-- Maximum count a loaded state may hold for one symbol. -/
def MAX_COUNT : Nat := 2000000

/-- The count of a symbol in a saved state. -/
def storedCount (data : Bytes) (symbol : Nat) : Nat :=
  Numeral.littleEndian ((data.drop (symbol * 4)).take 4)

def loadState (model : Order0Model) (data : Bytes) : Bool × Order0Model :=
  if data.length ≠ 1 + 256 * 4 then (false, model)
  else if data.head? ≠ some 1 then (false, model)
  else
    let counts := storedCount data.tail
    if (List.range 256).any fun symbol => counts symbol = 0 ∨ counts symbol > MAX_COUNT then
      (false, model)
    else if cumulative counts 256 > 2 ^ 32 - 1 then (false, model)
    else
      (true, { counts := counts
               fenwick := rebuildFenwick counts
               total := cumulative counts 256 })

instance : ProbabilityPredictor Order0Model where
  predictCdf model := (model.predictCdf, model)
  queryCdf model byte := (model.queryCdf byte, model)
  decodeSymbol model freq := (model.decodeSymbol freq, model)
  update := update
  reset := reset
  name _ := "order-0"
  predictorId _ := .order0
  saveState model := some model.saveState
  loadState := loadState

end Order0Model

end AetherArch
