import AetherArch.Entropy.NeuralSsmReset
import AetherArch.Entropy.RleInvariant
import AetherArch.Library.Quantize

/-! # The neural predictor keeps the predictor contract

Over exact arithmetic the mass below every symbol is the same in the table, the point
query and the search, whatever the classifiers predict: the weights of the run symbols
are bounded below, and the literal weights are blended from counts.
-/

namespace AetherArch

/-- The functions that exact arithmetic leaves open. -/
structure ExactFunctions where
  exp : ℚ → ℚ
  ln : ℚ → ℚ
  log2 : ℚ → ℚ
  ofBits : Nat → ℚ
  toBits : ℚ → Nat
  sigmoid : ℚ → ℚ

/-- Exact rational arithmetic. -/
def SsmArithmetic.exact (functions : ExactFunctions) : SsmArithmetic where
  toFloatFormats :=
    .exact functions.exp functions.ln functions.log2 functions.ofBits functions.toBits
  sigmoid := functions.sigmoid

namespace NeuralSsmPredictor

open NeuralSsm
open RlePredictor (Counted)

/-- The parameters of a step over exact arithmetic. -/
structure StepRatios where
  w0 : ℚ
  w01 : ℚ
  total : ℚ
  rleCoef : ℚ
  o2Coef : ℚ
  baseLit : ℚ

variable {functions : ExactFunctions}

/-- The parameters of a step, as rationals. -/
def StepParams.ratios (params : StepParams (.exact functions)) : StepRatios where
  w0 := params.w0
  w01 := params.w01
  total := params.total
  rleCoef := params.rleCoef
  o2Coef := params.o2Coef
  baseLit := params.baseLit

/-- What makes the parameters of a step weigh the literals and the run symbols. -/
structure StepRatios.Proper (ratios : StepRatios) (rleTotal o2Total : Nat) : Prop where
  w0_pos : 0 < ratios.w0
  w0_lt : ratios.w0 < ratios.w01
  rleCoef_nonneg : 0 ≤ ratios.rleCoef
  o2Coef_nonneg : 0 ≤ ratios.o2Coef
  baseLit_nonneg : 0 ≤ ratios.baseLit
  total_eq : ratios.total = ratios.w01 + ratios.rleCoef * rleTotal + ratios.o2Coef * o2Total +
    254 * ratios.baseLit

/-- The share of the order-2 model is a proper blend. -/
theorem blend_bounds {blend : ℚ} (nonneg : 0 ≤ blend) (le : blend ≤ 1) (observed : Nat) :
    0 ≤ blend * (observed / (observed + 32)) ∧ blend * (observed / (observed + 32)) ≤ 1 := by
  have shareNonneg : (0 : ℚ) ≤ observed / (observed + 32) := by positivity
  have shareLe : (observed : ℚ) / (observed + 32) ≤ 1 := by
    rw [div_le_one (by positivity)]
    linarith
  exact ⟨mul_nonneg nonneg shareNonneg, mul_le_one₀ le shareNonneg shareLe⟩

/-- The configured share of the order-2 model. -/
def o2Share (cfg : NeuralSsmConfig (SsmArithmetic.exact functions).toFloatFormats) : ℚ :=
  cfg.o2LitBlend

/-- The parameters of a step, up to the probabilities the classifiers and the counters
contribute. -/
theorem ratios_stepParams (state : NeuralSsmPredictor (.exact functions)) (litTotal o2Total : Nat)
    (litTotal_eq : state.rle.litTotals state.rle.ctx = litTotal)
    (o2Total_eq : state.o2LitTotals (o2Context state.prevByte state.prevPrevByte) = o2Total) :
    ∃ p0 p1 pLit effBlend o2Coef : ℚ,
      effBlend = o2Share state.cfg * (o2Total / (o2Total + 32.0)) ∧
      (o2Coef = max pLit 1e-6 * effBlend / (o2Total + 254.0 * 0.5) ∨ o2Coef = 0.0) ∧
      state.stepParams.ratios =
        let w0 := max p0 1e-6
        let w01 := w0 + max p1 1e-6
        let rleCoef := max pLit 1e-6 * (1.0 - effBlend) / (litTotal + 254.0 * 0.1)
        let baseLit := rleCoef * 0.1 + o2Coef * 0.5
        { w0 := w0, w01 := w01
          total := w01 + rleCoef * litTotal + o2Coef * o2Total + 254.0 * baseLit
          rleCoef := rleCoef, o2Coef := o2Coef, baseLit := baseLit } := by
  subst litTotal_eq o2Total_eq
  refine ⟨_, _, _, _, _, rfl, ?_, rfl⟩
  dsimp only [stepParams]
  split
  · exact .inl rfl
  · exact .inr rfl

/-- The parameters of a step are proper for the counts it mixes. -/
theorem proper_stepParams (state : NeuralSsmPredictor (.exact functions))
    (nonneg : 0 ≤ o2Share state.cfg) (le : o2Share state.cfg ≤ 1) :
    state.stepParams.ratios.Proper (state.rle.litTotals state.rle.ctx)
      (state.o2LitTotals (o2Context state.prevByte state.prevPrevByte)) := by
  obtain ⟨p0, p1, pLit, effBlend, o2Coef, effEq, coefCases, ratiosEq⟩ :=
    ratios_stepParams state _ _ rfl rfl
  generalize state.rle.litTotals state.rle.ctx = litTotal at ratiosEq ⊢
  generalize state.o2LitTotals _ = o2Total at effEq coefCases ratiosEq ⊢
  norm_num at effEq coefCases ratiosEq
  have floorPos (p : ℚ) : 0 < max p (1 / 1000000) := lt_max_of_lt_right (by norm_num)
  have ⟨effNonneg, effLe⟩ := blend_bounds nonneg le o2Total
  rw [← effEq] at effNonneg effLe
  have litPos := floorPos pLit
  have restNonneg : 0 ≤ 1 - effBlend := by linarith
  have rleNonneg : 0 ≤ max pLit (1 / 1000000) * (1 - effBlend) / (litTotal + 127 / 5) := by
    positivity
  have o2Nonneg : 0 ≤ o2Coef := by
    rcases coefCases with coefEq | coefEq
    · rw [coefEq]
      positivity
    · rw [coefEq]
  rw [ratiosEq]
  refine ⟨floorPos p0, ?_, rleNonneg, o2Nonneg, ?_, rfl⟩
  · have := floorPos p1
    dsimp only
    linarith
  · positivity

/-! ## The mass below a byte -/

/-- The mass below a byte, from the literal counts of both models. -/
def StepRatios.mass (ratios : StepRatios) (rleCounts o2Counts : Nat → Nat) : Nat → ℚ
  | 0 => 0
  | 1 => ratios.w0
  | m + 2 =>
      ratios.w01 + ratios.rleCoef * Order0Model.cumulative rleCounts m +
        ratios.o2Coef * Order0Model.cumulative o2Counts m + m * ratios.baseLit

variable {ratios : StepRatios} {rleCounts o2Counts : Nat → Nat}

/-- The mass grows along the symbols. -/
theorem StepRatios.Proper.mass_monotone {rleTotal o2Total : Nat}
    (proper : ratios.Proper rleTotal o2Total) : Monotone (ratios.mass rleCounts o2Counts) := by
  obtain ⟨w0Pos, w0Lt, rleNonneg, o2Nonneg, baseNonneg, -⟩ := proper
  apply monotone_nat_of_le_succ
  intro symbol
  match symbol with
  | 0 => exact w0Pos.le
  | 1 =>
      simp only [mass, Order0Model.cumulative, Nat.cast_zero, mul_zero, add_zero, zero_mul]
      exact w0Lt.le
  | m + 2 =>
      simp only [mass, Order0Model.cumulative, Nat.cast_add]
      gcongr
      · exact le_add_of_nonneg_right (Nat.cast_nonneg _)
      · exact le_add_of_nonneg_right (Nat.cast_nonneg _)
      · exact le_add_of_nonneg_right zero_le_one

/-- The mass of all symbols is the total. -/
theorem StepRatios.Proper.mass_total
    (proper : ratios.Proper (Order0Model.cumulative rleCounts NUM_LITS)
      (Order0Model.cumulative o2Counts NUM_LITS)) :
    ratios.mass rleCounts o2Counts 256 = ratios.total := by
  rw [proper.total_eq]
  rfl

/-- The total is positive. -/
theorem StepRatios.Proper.total_pos {rleTotal o2Total : Nat}
    (proper : ratios.Proper rleTotal o2Total) : 0 < ratios.total := by
  obtain ⟨w0Pos, w0Lt, rleNonneg, o2Nonneg, baseNonneg, totalEq⟩ := proper
  have w01Pos := w0Pos.trans w0Lt
  rw [totalEq]
  positivity

/-- The table entry below a byte. -/
def StepRatios.boundary (ratios : StepRatios) (rleCounts o2Counts : Nat → Nat) : Nat → Nat :=
  Quantize.boundary SCALABLE 256 (ratios.mass rleCounts o2Counts)

/-- **Quantizing loses nothing** to saturation, to the word width or to the final cap. -/
theorem quantizedBoundary_eq {cumulative total : ℚ} {symbol : Nat} (inside : symbol ≤ 256)
    (le : ⌊cumulative * (SCALABLE : ℚ) / total⌋₊ ≤ SCALABLE) :
    @quantizedBoundary (.exact functions) cumulative total symbol =
      symbol + ⌊cumulative * (SCALABLE : ℚ) / total⌋₊ := by
  have scalable : SCALABLE = 32512 := by decide
  have probTotal : PROB_TOTAL = 32768 := by decide
  change min ((symbol + min ⌊((⌊cumulative * (SCALABLE : ℚ) / total⌋ : ℤ) : ℚ)⌋.toNat
    (2 ^ 32 - 1)) % 2 ^ 32) PROB_TOTAL = _
  rw [Int.floor_intCast, Int.floor_toNat]
  omega

/-- Over the parameters of a step, the boundary at a byte is read off the mass below it. -/
theorem StepRatios.Proper.quantizedBoundary_mass
    (proper : ratios.Proper (Order0Model.cumulative rleCounts NUM_LITS)
      (Order0Model.cumulative o2Counts NUM_LITS)) {symbol : Nat} (inside : symbol ≤ 256) :
    @quantizedBoundary (.exact functions) (ratios.mass rleCounts o2Counts symbol) ratios.total
      symbol = ratios.boundary rleCounts o2Counts symbol := by
  have positive := proper.total_pos
  rw [← proper.mass_total] at positive ⊢
  exact quantizedBoundary_eq inside
    (Quantize.share_le (proper.mass_monotone.monotoneOn _) positive inside)

/-- The boundaries of the symbols strictly increase. -/
theorem StepRatios.Proper.boundary_strictMonoOn
    (proper : ratios.Proper (Order0Model.cumulative rleCounts NUM_LITS)
      (Order0Model.cumulative o2Counts NUM_LITS)) :
    StrictMonoOn (ratios.boundary rleCounts o2Counts) (Set.Iic 256) := by
  have positive := proper.total_pos
  rw [← proper.mass_total] at positive
  exact Quantize.boundary_strictMonoOn (proper.mass_monotone.monotoneOn _) positive

/-- The last boundary is the whole of the range. -/
theorem StepRatios.Proper.boundary_total
    (proper : ratios.Proper (Order0Model.cumulative rleCounts NUM_LITS)
      (Order0Model.cumulative o2Counts NUM_LITS)) :
    ratios.boundary rleCounts o2Counts 256 = PROB_TOTAL := by
  have positive := proper.total_pos
  rw [← proper.mass_total] at positive
  exact Quantize.boundary_size positive

theorem StepRatios.boundary_zero : ratios.boundary rleCounts o2Counts 0 = 0 :=
  Quantize.boundary_zero rfl

/-! ## One boundary for all three readers -/

/-- What the learned part of a state satisfies. -/
structure LearnedWellFormed {formats : FloatFormats} (learned : SsmState formats) : Prop where
  rle : learned.rle.WellFormed
  o2 (ctx : Nat) : ctx < NUM_O2_CTX →
    Counted (learned.o2LitCounts ctx) (learned.o2LitFenwick ctx) (learned.o2LitTotals ctx)

/-- There are eight rank buckets. -/
theorem rankBucket_lt (b : UInt8) : rankBucket b < 8 := by
  rw [rankBucket]
  split
  · rename_i le
    have := UInt8.le_iff_toNat_le.mp le
    have three : (3 : UInt8).toNat = 3 := rfl
    omega
  · split
    · decide
    · split
      · decide
      · split <;> decide

/-- The context of a literal is one of the table's. -/
theorem o2Context_lt (prev prevPrev : UInt8) : o2Context prev prevPrev < NUM_O2_CTX := by
  have first := rankBucket_lt prev
  have second := rankBucket_lt prevPrev
  have contexts : NUM_O2_CTX = 64 := rfl
  rw [o2Context]
  omega

/-- What every reachable state satisfies. -/
structure WellFormed (state : NeuralSsmPredictor (.exact functions)) : Prop where
  learned : LearnedWellFormed state.toSsmState
  baseline : ∀ baseline ∈ state.dictBaseline, LearnedWellFormed baseline.toSsmState
  share_nonneg : 0 ≤ o2Share state.cfg
  share_le_one : o2Share state.cfg ≤ 1

variable {state : NeuralSsmPredictor (.exact functions)}

/-- The literal counts of the context class. -/
abbrev contextLits (state : NeuralSsmPredictor (.exact functions)) : Nat → Nat :=
  state.rle.litCounts state.rle.ctx

/-- The literal counts of the order-2 context. -/
abbrev o2Lits (state : NeuralSsmPredictor (.exact functions)) : Nat → Nat :=
  state.o2LitCounts (o2Context state.prevByte state.prevPrevByte)

/-- The literal counts of the current context are counted in their tree. -/
theorem WellFormed.rle_counted (wellFormed : state.WellFormed) :
    Counted state.contextLits (state.rle.litFenwick state.rle.ctx)
      (state.rle.litTotals state.rle.ctx) :=
  (wellFormed.learned.rle.context _ wellFormed.learned.rle.ctx_lt).counted

/-- So are the counts of the two bytes ahead. -/
theorem WellFormed.o2_counted (wellFormed : state.WellFormed) :
    Counted state.o2Lits (state.o2LitFenwick (o2Context state.prevByte state.prevPrevByte))
      (state.o2LitTotals (o2Context state.prevByte state.prevPrevByte)) :=
  wellFormed.learned.o2 _ (o2Context_lt _ _)

/-- The parameters of a step are proper in a well-formed state. -/
theorem WellFormed.proper (wellFormed : state.WellFormed) :
    state.stepParams.ratios.Proper (Order0Model.cumulative state.contextLits NUM_LITS)
      (Order0Model.cumulative state.o2Lits NUM_LITS) := by
  have proper := proper_stepParams state wellFormed.share_nonneg wellFormed.share_le_one
  rw [wellFormed.rle_counted.total_eq, wellFormed.o2_counted.total_eq] at proper
  exact proper

/-- The table entry below a byte. -/
def boundary (state : NeuralSsmPredictor (.exact functions)) : Nat → Nat :=
  state.stepParams.ratios.boundary state.contextLits state.o2Lits

theorem WellFormed.runBoundary_eq (wellFormed : state.WellFormed) :
    quantizedBoundary state.stepParams.w0 state.stepParams.total 1 = state.boundary 1 :=
  wellFormed.proper.quantizedBoundary_mass (by decide)

/-- The boundaries of the literals are the quantized ones. -/
theorem WellFormed.litBoundary_eq (wellFormed : state.WellFormed) {m : Nat}
    (inside : m ≤ NUM_LITS) :
    state.stepParams.litBoundary m
        (Order0Model.cumulative state.contextLits m, Order0Model.cumulative state.o2Lits m) =
      state.boundary (m + 2) := by
  have byteInside : m + 2 ≤ 256 := Nat.add_le_add_right inside 2
  rw [StepParams.litBoundary, Nat.add_comm 2 m]
  exact wellFormed.proper.quantizedBoundary_mass byteInside

/-- The second boundary is the quantized one. -/
theorem WellFormed.secondBoundary_eq (wellFormed : state.WellFormed) :
    quantizedBoundary state.stepParams.w01 state.stepParams.total 2 = state.boundary 2 := by
  have same : state.stepParams.ratios.mass state.contextLits state.o2Lits 2 =
      state.stepParams.ratios.w01 := by
    simp only [StepRatios.mass, Order0Model.cumulative, Nat.cast_zero, mul_zero, add_zero, zero_mul]
  have inside : 2 ≤ 256 := by decide
  have quantized :=
    @StepRatios.Proper.quantizedBoundary_mass functions _ _ _ wellFormed.proper 2 inside
  rw [same] at quantized
  exact quantized

/-- The table holds the boundaries. -/
theorem WellFormed.stepCdf_eq (wellFormed : state.WellFormed) (index : Fin 257) :
    state.stepCdf state.stepParams index = UInt16.ofNat (state.boundary index) := by
  unfold stepCdf
  dsimp only
  split
  · rename_i zero
    rw [zero]
    exact (congrArg UInt16.ofNat StepRatios.boundary_zero).symm
  · split
    · rename_i one
      rw [one, wellFormed.runBoundary_eq]
    · split
      · rename_i positive other inside
        obtain ⟨m, rest⟩ : ∃ m, index.val = m + 2 := ⟨index.val - 2, by omega⟩
        have lit : m ≤ NUM_LITS := by
          have : NUM_LITS = 254 := rfl
          omega
        rw [rest, Nat.add_sub_cancel]
        exact congrArg UInt16.ofNat (wellFormed.litBoundary_eq lit)
      · have last : index.val = 256 := by omega
        rw [last]
        exact (congrArg UInt16.ofNat wellFormed.proper.boundary_total).symm

/-- **The table of a step is valid.** -/
theorem WellFormed.stepCdf_valid (wellFormed : state.WellFormed) :
    (state.stepCdf state.stepParams).Valid :=
  Cdf.valid_of_boundary wellFormed.stepCdf_eq StepRatios.boundary_zero
    wellFormed.proper.boundary_total wellFormed.proper.boundary_strictMonoOn

/-- The point query reads the table. -/
theorem WellFormed.stepInterval_eq (wellFormed : state.WellFormed) (byte : UInt8) :
    state.stepInterval state.stepParams byte =
      ((state.stepCdf state.stepParams).lower byte,
        (state.stepCdf state.stepParams).upper byte) := by
  rw [Cdf.lower, Cdf.upper, wellFormed.stepCdf_eq, wellFormed.stepCdf_eq]
  unfold stepInterval
  dsimp only
  split
  · rename_i zero
    subst zero
    rw [wellFormed.runBoundary_eq]
    exact congrArg (Prod.mk · _) (congrArg UInt16.ofNat StepRatios.boundary_zero).symm
  · split
    · rename_i one
      subst one
      rw [wellFormed.runBoundary_eq, wellFormed.secondBoundary_eq]
      rfl
    · rename_i notZero notOne
      obtain ⟨m, rest⟩ := RlePredictor.exists_literal notZero notOne
      have lits : NUM_LITS = 254 := rfl
      have inside : m < NUM_LITS := by
        have := byte.toNat_lt
        omega
      have rleCum : fenwick254Prefix (state.rle.litFenwick state.rle.ctx) m =
          Order0Model.cumulative state.contextLits m :=
        wellFormed.rle_counted.fenwick254Prefix_eq inside.le
      have o2Cum : fenwick254Prefix (state.o2LitFenwick state.stepParams.o2Ctx) m =
          Order0Model.cumulative state.o2Lits m :=
        wellFormed.o2_counted.fenwick254Prefix_eq inside.le
      have lower := wellFormed.litBoundary_eq inside.le
      have upper := wellFormed.litBoundary_eq (Nat.succ_le_of_lt inside)
      simp only [rest, Nat.add_sub_cancel, RlePredictor.modelParts, rleCum, o2Cum, lower]
      split
      · rename_i last
        have : m + 2 = 255 := by rw [← rest, last]; rfl
        rw [this]
        exact congrArg (Prod.mk _) (congrArg UInt16.ofNat wellFormed.proper.boundary_total).symm
      · exact congrArg (Prod.mk _) (congrArg UInt16.ofNat upper)

/-- The literal counts of both models, by the positions of their trees. -/
def litPairs (state : NeuralSsmPredictor (.exact functions)) (position : Nat) : Nat × Nat :=
  (state.contextLits (position - 1), state.o2Lits (position - 1))

/-- The descent meets the boundaries of the table. -/
theorem WellFormed.boundaryAt_eq (wellFormed : state.WellFormed) {position : Nat}
    (inside : position ≤ NUM_LITS) :
    Fenwick.boundaryAt state.litPairs state.stepParams.litBoundary NUM_LITS PROB_TOTAL position =
      state.boundary (position + 2) := by
  rw [Fenwick.boundaryAt]
  split
  · have sums : ∑ i ∈ Finset.Ioc 0 position, state.litPairs i =
        (Order0Model.cumulative state.contextLits position,
          Order0Model.cumulative state.o2Lits position) := by
      apply Prod.ext
      · exact Prod.fst_sum.trans (Order0Model.cumulative_eq_sum _ _).symm
      · exact Prod.snd_sum.trans (Order0Model.cumulative_eq_sum _ _).symm
    rw [sums]
    exact wellFormed.litBoundary_eq inside
  · have last : position = NUM_LITS := by omega
    rw [last]
    exact wellFormed.proper.boundary_total.symm

/-- **The simultaneous descent** of both trees ends at a literal whose interval holds the
frequency. -/
theorem WellFormed.litSearch_brackets (wellFormed : state.WellFormed) {freq : Nat}
    (above : state.boundary 2 ≤ freq) (inside : freq < PROB_TOTAL) :
    ([128, 64, 32, 16, 8, 4, 2, 1].foldl
      (Fenwick.Search.step
        (fun node => (state.rle.litFenwick state.rle.ctx node,
          state.o2LitFenwick state.stepParams.o2Ctx node))
        state.stepParams.litBoundary NUM_LITS freq)
      { low := 0, sum := (0, 0), lowValue := state.boundary 2, highValue := PROB_TOTAL }).Brackets
        state.litPairs state.stepParams.litBoundary NUM_LITS PROB_TOTAL freq 0 := by
  have start : Fenwick.Search.Brackets state.litPairs state.stepParams.litBoundary NUM_LITS
      PROB_TOTAL freq 8
      { low := 0, sum := (0, 0), lowValue := state.boundary 2, highValue := PROB_TOTAL } := by
    refine ⟨dvd_zero _, Nat.succ_pos 253, rfl, ?_, rfl, above, inside⟩
    exact (wellFormed.boundaryAt_eq (Nat.zero_le _)).symm
  have represents : Fenwick.Represents
      (fun node => (state.rle.litFenwick state.rle.ctx node,
        state.o2LitFenwick state.stepParams.o2Ctx node)) state.litPairs NUM_LITS :=
    wellFormed.rle_counted.represents.prod wellFormed.o2_counted.represents
  have steps : Fenwick.halvings 8 = [128, 64, 32, 16, 8, 4, 2, 1] := by decide
  rw [← steps]
  exact start.foldl represents (Nat.le_succ _)

/-- The search ends at the symbol whose interval contains the frequency. -/
theorem WellFormed.stepSymbol_eq (wellFormed : state.WellFormed) {freq : Nat} {symbol : UInt8}
    (inside : freq < PROB_TOTAL)
    (above : ((state.stepCdf state.stepParams).lower symbol).toNat ≤ freq)
    (below : freq < ((state.stepCdf state.stepParams).upper symbol).toNat) :
    state.stepSymbol state.stepParams freq =
      (symbol, (state.stepCdf state.stepParams).lower symbol,
        (state.stepCdf state.stepParams).upper symbol) := by
  -- Whatever byte is found, it is the one whose interval holds the frequency.
  have finish (found : UInt8) (low high : Nat) (lowEq : low = state.boundary found.toNat)
      (highEq : high = state.boundary (found.toNat + 1)) (lowLe : low ≤ freq)
      (ltHigh : freq < high) :=
    Cdf.interval_of_boundary wellFormed.stepCdf_eq StepRatios.boundary_zero
      wellFormed.proper.boundary_total wellFormed.proper.boundary_strictMonoOn above below lowEq
      highEq lowLe ltHigh
  unfold stepSymbol
  dsimp only
  rw [wellFormed.runBoundary_eq, wellFormed.secondBoundary_eq]
  split
  · rename_i first
    exact finish 0 0 _ StepRatios.boundary_zero.symm rfl (Nat.zero_le _) first
  · split
    · rename_i notFirst second
      exact finish 1 _ _ rfl rfl (not_lt.mp notFirst) second
    · rename_i _ notSecond
      have found := wellFormed.litSearch_brackets (not_lt.mp notSecond) inside
      dsimp only [RlePredictor.modelParts]
      generalize List.foldl _ _ _ = search at found ⊢
      obtain ⟨-, low, -, lowEq, highEq, lowLe, ltHigh⟩ := found
      have lits : NUM_LITS = 254 := rfl
      have next : search.low + 1 ≤ NUM_LITS := low
      rw [wellFormed.boundaryAt_eq low.le] at lowEq
      rw [pow_zero, wellFormed.boundaryAt_eq next] at highEq
      have byte : (UInt8.ofNat (2 + search.low)).toNat = search.low + 2 := by
        rw [UInt8.toNat_ofNat_of_lt' (by rw [UInt8.size]; omega), Nat.add_comm]
      exact finish _ _ _ (byte ▸ lowEq) (byte ▸ highEq) lowLe ltHigh

/-! ## Every reachable state is well formed -/

/-- What nothing was learned into is well formed. -/
theorem LearnedWellFormed.fresh (formats : FloatFormats) :
    LearnedWellFormed (SsmState.fresh formats) where
  rle := RlePredictor.new_wellFormed
  o2 _ _ := RlePredictor.counted_zero

/-- A checked configuration blends a share between zero and one. -/
theorem o2Share_validateConfig
    (cfg : NeuralSsmConfig (SsmArithmetic.exact functions).toFloatFormats) :
    0 ≤ o2Share (validateConfig cfg) ∧ o2Share (validateConfig cfg) ≤ 1 := by
  have clamped : o2Share (validateConfig cfg) =
      if decide (o2Share cfg < 0.0) = true then 0.0
      else if decide (1.0 < o2Share cfg) = true then 1.0 else o2Share cfg := rfl
  rw [clamped]
  split
  · norm_num
  · split
    · norm_num
    · rename_i notBelow notAbove
      norm_num at notBelow notAbove
      exact ⟨notBelow, notAbove⟩

/-- A new predictor is well formed. -/
theorem new_wellFormed : (new : NeuralSsmPredictor (.exact functions)).WellFormed where
  learned := .fresh _
  baseline _ member := by cases member
  share_nonneg := (o2Share_validateConfig _).1
  share_le_one := (o2Share_validateConfig _).2

/-- What is learned from a byte is well formed. -/
theorem LearnedWellFormed.update {arith : SsmArithmetic} {state : NeuralSsmPredictor arith}
    (learned : LearnedWellFormed state.toSsmState) (byte : UInt8) :
    LearnedWellFormed (state.update byte).toSsmState where
  rle := learned.rle.update byte
  o2 ctx inside := by
    unfold NeuralSsmPredictor.update
    dsimp only
    split
    · exact learned.o2 ctx inside
    · by_cases same : ctx = o2Context state.prevByte state.prevPrevByte
      · subst same
        rw [Function.update_self, Function.update_self, Function.update_self]
        exact (learned.o2 _ inside).countLiteral 100000 (RlePredictor.literal_lt byte)
      · rw [Function.update_of_ne same, Function.update_of_ne same, Function.update_of_ne same]
        exact learned.o2 ctx inside

/-- Only what was learned can break a state. -/
theorem WellFormed.of_sameSetup {other : NeuralSsmPredictor (.exact functions)}
    (wellFormed : state.WellFormed) (same : SameSetup state other)
    (learned : LearnedWellFormed other.toSsmState) : other.WellFormed where
  learned := learned
  baseline := same.dictBaseline ▸ wellFormed.baseline
  share_nonneg := same.cfg ▸ wellFormed.share_nonneg
  share_le_one := same.cfg ▸ wellFormed.share_le_one

/-- What a reset leaves is well formed. -/
theorem WellFormed.learned_reset (wellFormed : state.WellFormed) :
    LearnedWellFormed state.reset.toSsmState := by
  rw [NeuralSsmPredictor.reset]
  split
  · rename_i parsed found
    exact wellFormed.baseline parsed found
  · exact .fresh _

open ProbabilityPredictor

/-- **Every state that coding reaches is well formed.** -/
theorem wellFormed_of_reachable {start : NeuralSsmPredictor (.exact functions)}
    (wellFormed : start.WellFormed) (reached : Reachable start state) : state.WellFormed := by
  induction reached with
  | start => exact wellFormed
  | predict _ recurse => exact recurse.of_sameSetup (sameSetup_withLast _ _) recurse.learned
  | query _ _ recurse => exact recurse.of_sameSetup (sameSetup_withLast _ _) recurse.learned
  | decode _ _ _ recurse => exact recurse.of_sameSetup (sameSetup_withLast _ _) recurse.learned
  | update byte _ recurse =>
      exact recurse.of_sameSetup ⟨rfl, rfl, rfl, rfl, rfl⟩ (recurse.learned.update byte)
  | reset _ recurse => exact recurse.of_sameSetup (sameSetup_reset _) recurse.learned_reset

/-- **The neural predictor keeps the predictor contract** over exact arithmetic. -/
theorem contract {start : NeuralSsmPredictor (.exact functions)} (wellFormed : start.WellFormed) :
    Contract start := fun _ reached =>
  have reachedWellFormed := wellFormed_of_reachable wellFormed reached
  { valid := reachedWellFormed.stepCdf_valid
    query_eq := reachedWellFormed.stepInterval_eq
    decode_eq := fun _ _ => reachedWellFormed.stepSymbol_eq
    update_eq := fun _ _ _ _ => rfl }

end NeuralSsmPredictor

end AetherArch
