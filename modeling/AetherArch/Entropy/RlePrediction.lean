import AetherArch.Entropy.RleInvariant
import AetherArch.Library.Quantize

/-! # Predictions of the context-class predictor

The table, the point query and the search recompute the same mixture: the two run symbols
by their probabilities, the literals by their counts in the context. Over exact arithmetic
all three read the same boundaries.
-/

namespace AetherArch

namespace RlePredictor

section Predicting

variable (formats : FloatFormats)

/-- Least probability of a decision. -/
def MIN_PROB : formats.F32 := 1e-6

def RESERVED : Nat := 256

def SCALABLE : Nat := PROB_TOTAL - RESERVED

/-- The weights of the run symbols and the coefficients of the literals in one prediction. -/
structure Weights where
  w0 : formats.F64
  w01 : formats.F64
  litCoef : formats.F64
  baseLit : formats.F64
  total : formats.F64

def weights (model : RlePredictor) : Weights formats :=
  let parts := model.modelParts formats
  let w0 := formats.widen (max (parts.pRun * parts.pRuna) (MIN_PROB formats))
  let w1 := formats.widen (max (parts.pRun * (1.0 - parts.pRuna)) (MIN_PROB formats))
  let w01 := w0 + w1
  let pLit := formats.widen (max (1.0 - parts.pRun) (MIN_PROB formats))
  let litCoef := pLit /
    ((parts.litTotal : formats.F64) + formats.widen (ALPHA_LIT_TOTAL formats))
  let baseLit := litCoef * formats.widen (ALPHA_LIT formats)
  let total := w01 + litCoef * (parts.litTotal : formats.F64) +
    (NUM_LITS : formats.F64) * baseLit
  { w0 := w0, w01 := w01, litCoef := litCoef, baseLit := baseLit, total := total }

variable {formats}

/-- The boundary below a symbol, from the weight below it. -/
def Weights.quantize (weights : Weights formats) (cum : formats.F64) (sym : Nat) : Nat :=
  let value := (sym + formats.double.truncate 32
    (formats.double.floor (cum * (SCALABLE : formats.F64) / weights.total))) % 2 ^ 32
  min value PROB_TOTAL

/-- The boundary below literal `m`, from the counts below it. -/
def Weights.litBoundary (weights : Weights formats) (m rleCum : Nat) : Nat :=
  weights.quantize (weights.w01 + weights.litCoef * (rleCum : formats.F64) +
    (m : formats.F64) * weights.baseLit) (2 + m)

variable (formats)

def predictCdf (model : RlePredictor) : Cdf := fun index =>
  let weights := model.weights formats
  let litCounts := (model.modelParts formats).litCounts
  if index.val = 0 then 0
  else if index.val = 1 then UInt16.ofNat (weights.quantize weights.w0 1)
  else if index.val < 256 then
    let m := index.val - 2
    UInt16.ofNat (weights.litBoundary m (Order0Model.cumulative litCounts m))
  else UInt16.ofNat PROB_TOTAL

/-- The interval of one byte. -/
def queryCdf (model : RlePredictor) (byte : UInt8) : UInt16 × UInt16 :=
  let weights := model.weights formats
  let parts := model.modelParts formats
  if byte = 0 then (0, UInt16.ofNat (weights.quantize weights.w0 1))
  else if byte = 1 then
    (UInt16.ofNat (weights.quantize weights.w0 1), UInt16.ofNat (weights.quantize weights.w01 2))
  else
    let m := byte.toNat - 2
    let rleCum := fenwick254Prefix parts.litFenwick m
    let lo := UInt16.ofNat (weights.litBoundary m rleCum)
    let hi :=
      if byte = 255 then UInt16.ofNat PROB_TOTAL
      else UInt16.ofNat (weights.litBoundary (m + 1) (rleCum + parts.litCounts m))
    (lo, hi)

/-- Resolve a cumulative frequency, descending the tree of the context for a literal. -/
def decodeSymbol (model : RlePredictor) (freq : Nat) : UInt8 × UInt16 × UInt16 :=
  let weights := model.weights formats
  let b1 := weights.quantize weights.w0 1
  let b2 := weights.quantize weights.w01 2
  if freq < b1 then (0, 0, UInt16.ofNat b1)
  else if freq < b2 then (1, UInt16.ofNat b1, UInt16.ofNat b2)
  else
    let found := [128, 64, 32, 16, 8, 4, 2, 1].foldl
      (Fenwick.Search.step (model.modelParts formats).litFenwick weights.litBoundary NUM_LITS freq)
      { low := 0, sum := 0, lowValue := b2, highValue := PROB_TOTAL }
    (UInt8.ofNat (2 + found.low), UInt16.ofNat found.lowValue, UInt16.ofNat found.highValue)

def reset (_ : RlePredictor) : RlePredictor := new

/-- The predictor over a pair of floating-point formats. -/
@[reducible] def predictor : ProbabilityPredictor RlePredictor where
  predictCdf model := (model.predictCdf formats, model)
  queryCdf model byte := (model.queryCdf formats byte, model)
  decodeSymbol model freq := (model.decodeSymbol formats freq, model)
  update := update
  reset := reset
  name _ := "rle-ctx"
  predictorId _ := .rle
  saveState model := some model.saveState
  loadState := loadState

end Predicting

/-! ## The mass below a byte -/

/-- The weights of a prediction, as rationals. -/
structure Shares where
  w0 : ℚ
  w01 : ℚ
  litCoef : ℚ
  baseLit : ℚ
  total : ℚ

open FloatFormats

variable {functions : OpenFunctions}

def Weights.shares (weights : Weights (exactWith functions)) : Shares where
  w0 := weights.w0
  w01 := weights.w01
  litCoef := weights.litCoef
  baseLit := weights.baseLit
  total := weights.total

/-- What makes shares weigh the run symbols and the literals. -/
structure Shares.Proper (shares : Shares) (litTotal : Nat) : Prop where
  w0_pos : 0 < shares.w0
  w0_lt : shares.w0 < shares.w01
  litCoef_nonneg : 0 ≤ shares.litCoef
  baseLit_nonneg : 0 ≤ shares.baseLit
  total_eq : shares.total =
    shares.w01 + shares.litCoef * litTotal + 254 * shares.baseLit

/-- The shares, up to the probabilities that the counters contribute. -/
theorem shares_weights (model : RlePredictor) :
    ∃ p0 p1 pLit : ℚ, (model.weights (exactWith functions)).shares =
      let w0 := max p0 1e-6
      let w01 := w0 + max p1 1e-6
      let litCoef := max pLit 1e-6 / (model.litTotals model.ctx + 254.0 * 0.1)
      let baseLit := litCoef * 0.1
      { w0 := w0, w01 := w01, litCoef := litCoef, baseLit := baseLit
        total := w01 + litCoef * model.litTotals model.ctx + ((254 : ℕ) : ℚ) * baseLit } :=
  ⟨_, _, _, rfl⟩

/-- The weights of a model are proper shares. -/
theorem proper_shares (model : RlePredictor) :
    (model.weights (exactWith functions)).shares.Proper
      (model.litTotals model.ctx) := by
  obtain ⟨p0, p1, pLit, sharesEq⟩ :=
    @shares_weights functions model
  generalize model.litTotals model.ctx = litTotal at sharesEq ⊢
  norm_num at sharesEq
  have floorPos (p : ℚ) : 0 < max p (1 / 1000000) := lt_max_of_lt_right (by norm_num)
  have litPos := floorPos pLit
  rw [sharesEq]
  refine ⟨floorPos p0, ?_, by positivity, by positivity, rfl⟩
  have := floorPos p1
  dsimp only
  linarith

/-- The mass below a byte, from the literal counts. -/
def Shares.mass (shares : Shares) (counts : Nat → Nat) : Nat → ℚ
  | 0 => 0
  | 1 => shares.w0
  | m + 2 => shares.w01 + shares.litCoef * Order0Model.cumulative counts m + m * shares.baseLit

variable {shares : Shares} {counts : Nat → Nat}

/-- The mass grows along the symbols. -/
theorem Shares.Proper.mass_monotone {litTotal : Nat} (proper : shares.Proper litTotal) :
    Monotone (shares.mass counts) := by
  obtain ⟨w0Pos, w0Lt, litNonneg, baseNonneg, -⟩ := proper
  apply monotone_nat_of_le_succ
  intro symbol
  match symbol with
  | 0 => exact w0Pos.le
  | 1 =>
      simp only [mass, Order0Model.cumulative, Nat.cast_zero, mul_zero, add_zero, zero_mul]
      exact w0Lt.le
  | m + 2 =>
      simp only [mass, Order0Model.cumulative, Nat.cast_add]
      gcongr
      · exact le_add_of_nonneg_right (Nat.cast_nonneg _)
      · exact le_add_of_nonneg_right zero_le_one

/-- The mass of all symbols is the total. -/
theorem Shares.Proper.mass_total
    (proper : shares.Proper (Order0Model.cumulative counts NUM_LITS)) :
    shares.mass counts 256 = shares.total := by
  rw [proper.total_eq]
  rfl

/-- The total is positive. -/
theorem Shares.Proper.total_pos {litTotal : Nat} (proper : shares.Proper litTotal) :
    0 < shares.total := by
  obtain ⟨w0Pos, w0Lt, litNonneg, baseNonneg, totalEq⟩ := proper
  have w01Pos := w0Pos.trans w0Lt
  rw [totalEq]
  positivity

/-- The table entry below a byte. -/
def Shares.boundary (shares : Shares) (counts : Nat → Nat) : Nat → Nat :=
  Quantize.boundary SCALABLE 256 (shares.mass counts)

theorem Shares.boundary_zero : shares.boundary counts 0 = 0 := Quantize.boundary_zero rfl

section Boundary

variable (proper : shares.Proper (Order0Model.cumulative counts NUM_LITS))

include proper

/-- The boundaries strictly increase. -/
theorem Shares.Proper.boundary_strictMonoOn :
    StrictMonoOn (shares.boundary counts) (Set.Iic 256) := by
  have positive := proper.total_pos
  rw [← proper.mass_total] at positive
  exact Quantize.boundary_strictMonoOn (proper.mass_monotone.monotoneOn _) positive

/-- The last boundary is the whole of the range. -/
theorem Shares.Proper.boundary_total : shares.boundary counts 256 = PROB_TOTAL := by
  have positive := proper.total_pos
  rw [← proper.mass_total] at positive
  exact Quantize.boundary_size positive

/-- **Quantizing loses nothing** to saturation, to the word width or to the final cap. -/
theorem Shares.Proper.quantize_mass {weights : Weights (exactWith functions)}
    (same : weights.shares = shares) {symbol : Nat} (inside : symbol ≤ 256) :
    weights.quantize (shares.mass counts symbol) symbol = shares.boundary counts symbol := by
  have scalable : SCALABLE = 32512 := by decide
  have probTotal : PROB_TOTAL = 32768 := by decide
  have positive := proper.total_pos
  rw [← proper.mass_total] at positive
  have share : ⌊shares.mass counts symbol * (SCALABLE : ℚ) / shares.mass counts 256⌋₊ ≤ SCALABLE :=
    Quantize.share_le (proper.mass_monotone.monotoneOn _) positive inside
  change min ((symbol + min ⌊((⌊shares.mass counts symbol * (SCALABLE : ℚ) /
    weights.shares.total⌋ : ℤ) : ℚ)⌋.toNat (2 ^ 32 - 1)) % 2 ^ 32) PROB_TOTAL = _
  rw [same, ← proper.mass_total, Int.floor_intCast, Int.floor_toNat, Shares.boundary,
    Quantize.boundary]
  omega

end Boundary

/-! ## One boundary for all three readers -/

variable {model : RlePredictor}

/-- The table entry below a byte. -/
def boundary (functions : OpenFunctions) (model : RlePredictor) : Nat → Nat :=
  (model.weights (exactWith functions)).shares.boundary (model.litCounts model.ctx)

namespace WellFormed

variable (wellFormed : model.WellFormed)

include wellFormed

theorem counted : Counted (model.litCounts model.ctx) (model.litFenwick model.ctx)
    (model.litTotals model.ctx) :=
  (wellFormed.context _ wellFormed.ctx_lt).counted

/-- The weights of a well-formed model are proper shares. -/
theorem proper : (model.weights (exactWith functions)).shares.Proper
    (Order0Model.cumulative (model.litCounts model.ctx) NUM_LITS) := by
  rw [← wellFormed.counted.total_eq]
  exact proper_shares model

theorem boundary_strictMonoOn : StrictMonoOn (model.boundary functions) (Set.Iic 256) :=
  wellFormed.proper.boundary_strictMonoOn

theorem boundary_total : model.boundary functions 256 = PROB_TOTAL :=
  wellFormed.proper.boundary_total

theorem runBoundary_eq : (model.weights (exactWith functions)).quantize
    (model.weights (exactWith functions)).w0 1 = model.boundary functions 1 :=
  wellFormed.proper.quantize_mass rfl (by decide)

/-- The boundaries of the literals are the quantized ones. -/
theorem litBoundary_eq {m : Nat} (inside : m ≤ NUM_LITS) :
    (model.weights (exactWith functions)).litBoundary m
        (Order0Model.cumulative (model.litCounts model.ctx) m) =
      model.boundary functions (m + 2) := by
  rw [Weights.litBoundary, Nat.add_comm 2 m]
  exact wellFormed.proper.quantize_mass rfl (Nat.add_le_add_right inside 2)

/-- The second boundary is the quantized one. -/
theorem secondBoundary_eq : (model.weights (exactWith functions)).quantize
    (model.weights (exactWith functions)).w01 2 = model.boundary functions 2 := by
  have quantized := @Shares.Proper.quantize_mass functions _ _ wellFormed.proper _ rfl 2 (by decide)
  simp only [Shares.mass, Order0Model.cumulative, Nat.cast_zero, mul_zero, add_zero,
    zero_mul] at quantized
  exact quantized

/-- The table holds the boundaries. -/
theorem predictCdf_eq (index : Fin 257) :
    model.predictCdf (exactWith functions) index =
      UInt16.ofNat (model.boundary functions index) := by
  unfold predictCdf
  dsimp only
  split
  · rename_i zero
    rw [zero]
    exact (congrArg UInt16.ofNat Shares.boundary_zero).symm
  · split
    · rename_i one
      rw [one, wellFormed.runBoundary_eq]
    · split
      · rename_i positive other inside
        obtain ⟨m, rest⟩ : ∃ m, index.val = m + 2 := ⟨index.val - 2, by omega⟩
        have lit : m ≤ NUM_LITS := by
          have : NUM_LITS = 254 := rfl
          omega
        rw [rest, Nat.add_sub_cancel]
        exact congrArg UInt16.ofNat (wellFormed.litBoundary_eq lit)
      · have last : index.val = 256 := by omega
        rw [last, wellFormed.boundary_total]

/-- **The predicted table is valid.** -/
theorem predictCdf_valid : (model.predictCdf (exactWith functions)).Valid :=
  Cdf.valid_of_boundary wellFormed.predictCdf_eq Shares.boundary_zero wellFormed.boundary_total
    wellFormed.boundary_strictMonoOn

/-- The point query reads the table. -/
theorem queryCdf_eq (byte : UInt8) : model.queryCdf (exactWith functions) byte =
    ((model.predictCdf (exactWith functions)).lower byte,
      (model.predictCdf (exactWith functions)).upper byte) := by
  rw [Cdf.lower, Cdf.upper, wellFormed.predictCdf_eq, wellFormed.predictCdf_eq]
  unfold queryCdf
  dsimp only
  split
  · rename_i zero
    subst zero
    rw [wellFormed.runBoundary_eq]
    exact congrArg (Prod.mk · _) (congrArg UInt16.ofNat Shares.boundary_zero).symm
  · split
    · rename_i one
      subst one
      rw [wellFormed.runBoundary_eq, wellFormed.secondBoundary_eq]
      rfl
    · rename_i notZero notOne
      obtain ⟨m, rest⟩ := exists_literal notZero notOne
      have lits : NUM_LITS = 254 := rfl
      have inside : m < NUM_LITS := by
        have := byte.toNat_lt
        omega
      have rleCum : fenwick254Prefix (model.litFenwick model.ctx) m =
          Order0Model.cumulative (model.litCounts model.ctx) m :=
        wellFormed.counted.fenwick254Prefix_eq inside.le
      have lower := @litBoundary_eq functions model wellFormed m inside.le
      have upper := @litBoundary_eq functions model wellFormed (m + 1) (Nat.succ_le_of_lt inside)
      simp only [rest, Nat.add_sub_cancel, modelParts, rleCum, lower]
      split
      · rename_i last
        have : m + 2 = 255 := by rw [← rest, last]; rfl
        rw [this, wellFormed.boundary_total]
      · exact congrArg (Prod.mk _) (congrArg UInt16.ofNat upper)

/-- The descent meets the boundaries of the table. -/
theorem boundaryAt_eq {position : Nat} (inside : position ≤ NUM_LITS) :
    Fenwick.boundaryAt (fun position => model.litCounts model.ctx (position - 1))
        (model.weights (exactWith functions)).litBoundary NUM_LITS PROB_TOTAL position =
      model.boundary functions (position + 2) := by
  rw [Fenwick.boundaryAt]
  split
  · rw [← Order0Model.cumulative_eq_sum]
    exact wellFormed.litBoundary_eq inside
  · have last : position = NUM_LITS := by omega
    rw [last]
    exact wellFormed.boundary_total.symm

/-- **The descent** of the tree ends at a literal whose interval holds the frequency. -/
theorem litSearch_brackets {freq : Nat} (above : model.boundary functions 2 ≤ freq)
    (inside : freq < PROB_TOTAL) :
    ([128, 64, 32, 16, 8, 4, 2, 1].foldl
      (Fenwick.Search.step (model.litFenwick model.ctx)
        (model.weights (exactWith functions)).litBoundary NUM_LITS freq)
      { low := 0, sum := 0, lowValue := model.boundary functions 2
        highValue := PROB_TOTAL }).Brackets
        (fun position => model.litCounts model.ctx (position - 1))
        (model.weights (exactWith functions)).litBoundary NUM_LITS PROB_TOTAL freq 0 := by
  have start : Fenwick.Search.Brackets (fun position => model.litCounts model.ctx (position - 1))
      (model.weights (exactWith functions)).litBoundary NUM_LITS PROB_TOTAL freq 8
      { low := 0, sum := 0, lowValue := model.boundary functions 2, highValue := PROB_TOTAL } :=
    ⟨dvd_zero _, Nat.succ_pos 253, rfl, (wellFormed.boundaryAt_eq (Nat.zero_le _)).symm, rfl,
      above, inside⟩
  have steps : Fenwick.halvings 8 = [128, 64, 32, 16, 8, 4, 2, 1] := by decide
  rw [← steps]
  exact start.foldl wellFormed.counted.represents (Nat.le_succ _)

/-- The search ends at the symbol whose interval contains the frequency. -/
theorem decodeSymbol_eq {freq : Nat} {symbol : UInt8} (inside : freq < PROB_TOTAL)
    (above : ((model.predictCdf (exactWith functions)).lower symbol).toNat ≤ freq)
    (below : freq < ((model.predictCdf (exactWith functions)).upper symbol).toNat) :
    model.decodeSymbol (exactWith functions) freq =
      (symbol, (model.predictCdf (exactWith functions)).lower symbol,
        (model.predictCdf (exactWith functions)).upper symbol) := by
  -- Whatever byte is found, it is the one whose interval holds the frequency.
  have finish (found : UInt8) (low high : Nat)
      (lowEq : low = model.boundary functions found.toNat)
      (highEq : high = model.boundary functions (found.toNat + 1)) (lowLe : low ≤ freq)
      (ltHigh : freq < high) :=
    Cdf.interval_of_boundary wellFormed.predictCdf_eq Shares.boundary_zero
      wellFormed.boundary_total wellFormed.boundary_strictMonoOn above below lowEq highEq lowLe
      ltHigh
  unfold decodeSymbol
  dsimp only
  rw [wellFormed.runBoundary_eq, wellFormed.secondBoundary_eq]
  split
  · rename_i first
    exact finish 0 0 _ Shares.boundary_zero.symm rfl (Nat.zero_le _) first
  · split
    · rename_i notFirst second
      exact finish 1 _ _ rfl rfl (not_lt.mp notFirst) second
    · rename_i _ notSecond
      have found := @litSearch_brackets functions model wellFormed freq (not_lt.mp notSecond) inside
      dsimp only [modelParts]
      generalize List.foldl _ _ _ = search at found ⊢
      obtain ⟨-, low, -, lowEq, highEq, lowLe, ltHigh⟩ := found
      have lits : NUM_LITS = 254 := rfl
      have next : search.low + 1 ≤ NUM_LITS := low
      rw [wellFormed.boundaryAt_eq low.le] at lowEq
      rw [pow_zero, wellFormed.boundaryAt_eq next] at highEq
      have byte : (UInt8.ofNat (2 + search.low)).toNat = search.low + 2 := by
        rw [UInt8.toNat_ofNat_of_lt' (by rw [UInt8.size]; omega), Nat.add_comm]
      exact finish _ _ _ (byte ▸ lowEq) (byte ▸ highEq) lowLe ltHigh

end WellFormed

/-! ## Every reachable state -/

/-- The states reached from a new predictor by coding bytes, resetting and loading. -/
inductive Reached : RlePredictor → Prop where
  | new : Reached new
  | update {model : RlePredictor} (byte : UInt8) : Reached model → Reached (model.update byte)
  | reset {model : RlePredictor} : Reached model → Reached model.reset
  | load {model loaded : RlePredictor} {data : Bytes} : Reached model →
      model.loadState data = (true, loaded) → Reached loaded

/-- **Every model that coding reaches is well formed.** -/
theorem Reached.wellFormed (reached : model.Reached) : model.WellFormed := by
  induction reached with
  | new => exact new_wellFormed
  | update byte _ ih => exact ih.update byte
  | reset _ _ => exact new_wellFormed
  | @load _ _ data _ accepted ih =>
      have loaded := ih.loadState data
      rw [accepted] at loaded
      exact loaded

/-- The routes of a well-formed model agree. -/
theorem WellFormed.coherent (wellFormed : model.WellFormed) :
    @ProbabilityPredictor.Coherent RlePredictor (predictor (exactWith functions)) model :=
  @ProbabilityPredictor.Coherent.mk RlePredictor (predictor (exactWith functions)) model
    wellFormed.predictCdf_valid wellFormed.queryCdf_eq (fun _ _ => wellFormed.decodeSymbol_eq)
    fun _ _ _ _ => rfl

/-- **The context-class predictor in every state it reaches**, over exact arithmetic: the three
routes agree on one valid table, and in every context the total is the sum of the literal counts,
the tree is their prefix-sum tree, and no counter has more successes than trials. -/
theorem rle_routesAgree (functions : OpenFunctions) (reached : model.Reached) :
    @ProbabilityPredictor.RoutesAgree RlePredictor (predictor (exactWith functions)) model ∧
      ∀ ctx < NUM_CONTEXTS,
        model.litTotals ctx = Order0Model.cumulative (model.litCounts ctx) NUM_LITS ∧
        Fenwick.Represents (model.litFenwick ctx)
          (fun position => model.litCounts ctx (position - 1)) NUM_LITS ∧
        (model.runVsLit ctx).countYes ≤ (model.runVsLit ctx).countTotal ∧
        (model.runaVsRunb ctx).countYes ≤ (model.runaVsRunb ctx).countTotal := by
  have wellFormed := reached.wellFormed
  refine ⟨@ProbabilityPredictor.Coherent.routesAgree _ (predictor (exactWith functions)) _
    wellFormed.coherent, fun ctx inside => ?_⟩
  obtain ⟨counted, runLe, runaLe⟩ := wellFormed.context ctx inside
  exact ⟨counted.total_eq, counted.represents, runLe, runaLe⟩

/-- Functions that tell no two inputs apart. -/
def constantFunctions : OpenFunctions where
  exp _ := 1
  ln _ := 0
  log2 _ := 0
  ofBits _ := 0
  toBits _ := 0

/-- The routes agree after an update, a reset and two more updates. -/
theorem rle_routesAgree_counted :
    let model := ((new.update 65).reset.update 0).update 200
    @ProbabilityPredictor.RoutesAgree RlePredictor (predictor (exactWith constantFunctions)) model ∧
      ∀ ctx < NUM_CONTEXTS,
        model.litTotals ctx = Order0Model.cumulative (model.litCounts ctx) NUM_LITS ∧
        Fenwick.Represents (model.litFenwick ctx)
          (fun position => model.litCounts ctx (position - 1)) NUM_LITS ∧
        (model.runVsLit ctx).countYes ≤ (model.runVsLit ctx).countTotal ∧
        (model.runaVsRunb ctx).countYes ≤ (model.runaVsRunb ctx).countTotal :=
  rle_routesAgree constantFunctions (.update 200 (.update 0 (.reset (.update 65 .new))))

end RlePredictor

end AetherArch
