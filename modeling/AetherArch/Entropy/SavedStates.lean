import AetherArch.Entropy.NeuralSsmBounds

/-! # Saving and reloading a predictor

What a loader asks of a saved state holds of every state a predictor reaches: no count, weight or
total exceeds its bound. A saved state is therefore accepted by every predictor of the
configuration, and this predictor codes like the one that was saved.
-/

namespace AetherArch

namespace NeuralSsmPredictor

open NeuralSsm

variable {arith : SsmArithmetic}

/-- The bit pattern of a number fits a word and denotes the number. -/
def StoredExactly (x : arith.F32) : Prop :=
  arith.single.toBits x < 2 ^ 32 ∧ arith.single.ofBits (arith.single.toBits x) = x

/-- All numbers that a predictor saves in single precision are stored exactly. -/
structure StoresExactly (state : NeuralSsmPredictor arith) : Prop where
  h (i : Nat) : i < state.cfg.d → StoredExactly (state.h i)
  wRun (i : Nat) : i < state.cfg.d → StoredExactly (state.wRun i)
  bRun : StoredExactly state.bRun
  wRuna (i : Nat) : i < state.cfg.d → StoredExactly (state.wRuna i)
  bRuna : StoredExactly state.bRuna
  ssmPerf : StoredExactly state.ssmPerf
  rlePerf : StoredExactly state.rlePerf

/-- A stored finite number is read back. -/
theorem readFiniteF32_store {x : arith.F32} (exact : StoredExactly x)
    (finite : arith.single.isFinite x = true) (rest : Bytes) :
    readFiniteF32 (storeF32 x ++ rest) = some (x, rest) := by
  rw [readFiniteF32, storeF32, readU32_toLittleEndian, Nat.mod_eq_of_lt exact.1]
  dsimp only [Option.bind_eq_bind, Option.bind_some]
  rw [exact.2]
  exact if_pos finite

/-- A stored number within its bound is read back. -/
theorem readBoundedF32_store {x bound : arith.F32} (exact : StoredExactly x)
    (loadable : Loadable bound x) (rest : Bytes) :
    readBoundedF32 (storeF32 x ++ rest) bound = some (x, rest) := by
  rw [readBoundedF32, readFiniteF32_store exact loadable.1]
  exact if_pos loadable.2

/-- A table with zeros past its end. -/
def padded {α : Type} (zero : α) (count : Nat) (values : Nat → α) (i : Nat) : α :=
  if i < count then values i else zero

/-- Reading one value more extends the padded row by it. -/
theorem update_padded {α : Type} (zero : α) (count : Nat) (values : Nat → α) :
    Function.update (padded zero count values) count (values count) =
      padded zero (count + 1) values := by
  funext i
  rw [Function.update_apply]
  unfold padded
  by_cases last : i = count
  · rw [if_pos last, if_pos (by omega), last]
  · rw [if_neg last]
    by_cases inside : i < count
    · rw [if_pos inside, if_pos (by omega)]
    · rw [if_neg inside, if_neg (by omega)]

/-- A stored row is read back. -/
theorem readRow_store {bound : arith.F32} {values : Nat → arith.F32} {count : Nat}
    (exact : ∀ i < count, StoredExactly (values i))
    (loadable : ∀ i < count, Loadable bound (values i)) (rest : Bytes) :
    readRow bound count (((List.range count).flatMap fun i => storeF32 (values i)) ++ rest) =
      some (padded 0.0 count values, rest) := by
  induction count generalizing rest with
  | zero => rfl
  | succ count recurse =>
      rw [readRow, List.range_succ, List.flatMap_append, List.append_assoc,
        recurse (fun i inside => exact i (by omega)) (fun i inside => loadable i (by omega))]
      dsimp only [Option.bind_eq_bind, Option.bind_some]
      rw [List.flatMap_singleton,
        readBoundedF32_store (exact count (Nat.lt_succ_self _))
          (loadable count (Nat.lt_succ_self _))]
      dsimp only [Option.bind_some]
      rw [update_padded]

/-- Stored counts are read back. -/
theorem readCounts_store {values : Nat → Nat} {count : Nat}
    (bounded : ∀ lit < count, values lit ≤ MAX_O2_COUNT) (rest : Bytes) :
    readCounts count
        (((List.range count).flatMap fun lit => Numeral.toLittleEndian 4 (values lit)) ++ rest) =
      some (padded 0 count values, rest) := by
  induction count generalizing rest with
  | zero => rfl
  | succ count recurse =>
      have limit : MAX_O2_COUNT = 200000 := rfl
      have within := bounded count (Nat.lt_succ_self _)
      rw [readCounts, List.range_succ, List.flatMap_append, List.append_assoc,
        recurse fun lit inside => bounded lit (by omega)]
      dsimp only [Option.bind_eq_bind, Option.bind_some]
      rw [List.flatMap_singleton, readU32_toLittleEndian, Nat.mod_eq_of_lt (by omega)]
      dsimp only [Option.bind_some]
      rw [if_neg (not_lt.mpr within), update_padded]

/-- The counts of every context are read back. -/
theorem readContexts_store {contexts : Nat → Nat → Nat} {count : Nat}
    (bounded : ∀ ctx < count, ∀ lit < NUM_LITS, contexts ctx lit ≤ MAX_O2_COUNT) (rest : Bytes) :
    readContexts count (((List.range count).flatMap fun ctx => (List.range NUM_LITS).flatMap
        fun lit => Numeral.toLittleEndian 4 (contexts ctx lit)) ++ rest) =
      some (padded (fun _ => 0) count (fun ctx => padded 0 NUM_LITS (contexts ctx)), rest) := by
  induction count generalizing rest with
  | zero => rfl
  | succ count recurse =>
      rw [readContexts, List.range_succ, List.flatMap_append, List.append_assoc,
        recurse fun ctx inside => bounded ctx (by omega)]
      dsimp only [Option.bind_eq_bind, Option.bind_some]
      rw [List.flatMap_singleton, readCounts_store (bounded count (Nat.lt_succ_self _))]
      dsimp only [Option.bind_some]
      rw [← update_padded]

/-- Their totals are summed again. -/
theorem readTotals_store {contexts : Nat → Nat → Nat} {totals : Nat → Nat} {count : Nat}
    (sums : ∀ ctx < count, totals ctx = Order0Model.cumulative (contexts ctx) NUM_LITS)
    (small : ∀ ctx < count, totals ctx < 2 ^ 32) (rest : Bytes) :
    readTotals contexts count
        (((List.range count).flatMap fun ctx => Numeral.toLittleEndian 4 (totals ctx)) ++ rest) =
      some (padded 0 count totals, rest) := by
  induction count generalizing rest with
  | zero => rfl
  | succ count recurse =>
      have sum := sums count (Nat.lt_succ_self _)
      have word := small count (Nat.lt_succ_self _)
      rw [readTotals, List.range_succ, List.flatMap_append, List.append_assoc,
        recurse (fun ctx inside => sums ctx (by omega)) (fun ctx inside => small ctx (by omega))]
      dsimp only [Option.bind_eq_bind, Option.bind_some]
      rw [List.flatMap_singleton, readU32_toLittleEndian, Nat.mod_eq_of_lt word]
      dsimp only [Option.bind_some]
      rw [← sum, if_neg (by omega), update_padded]

theorem padded_of_lt {α : Type} {zero : α} {count i : Nat} {values : Nat → α} (inside : i < count) :
    padded zero count values i = values i := if_pos inside

/-- What is parsed of a saved state. -/
def reread (state : NeuralSsmPredictor arith) (rle : RlePredictor) :
    SsmState arith.toFloatFormats :=
  let counts := padded (fun _ => 0) NUM_O2_CTX fun ctx => padded 0 NUM_LITS (state.o2LitCounts ctx)
  { rle := rle
    h := padded 0.0 state.cfg.d state.h
    wRun := padded 0.0 state.cfg.d state.wRun
    bRun := state.bRun
    wRuna := padded 0.0 state.cfg.d state.wRuna
    bRuna := state.bRuna
    ssmPerf := state.ssmPerf
    rlePerf := state.rlePerf
    o2LitCounts := counts
    o2LitFenwick := fun ctx => fenwick254Rebuild (counts ctx)
    o2LitTotals := padded 0 NUM_O2_CTX state.o2LitTotals
    prevByte := state.prevByte
    prevPrevByte := state.prevPrevByte
    step := state.step }

/-- A saved state is at least of the least size. -/
theorem minSize_le_saveState (state : NeuralSsmPredictor arith) :
    minSize state.cfg.d ≤ state.saveState.length := by
  have contexts : NUM_O2_CTX = 64 := rfl
  have lits : NUM_LITS = 254 := rfl
  have row (values : Nat → arith.F32) : ((List.range state.cfg.d).flatMap fun i =>
      storeF32 (values i)).length = state.cfg.d * 4 :=
    Numeral.length_flatMap_pieces (fun _ => Numeral.length_toLittleEndian 4 _) _
  have counts : ((List.range NUM_O2_CTX).flatMap fun ctx => (List.range NUM_LITS).flatMap fun lit =>
      Numeral.toLittleEndian 4 (state.o2LitCounts ctx lit)).length = NUM_O2_CTX * (NUM_LITS * 4) :=
    Numeral.length_flatMap_pieces (fun _ => Numeral.length_flatMap_pieces
      (fun _ => Numeral.length_toLittleEndian 4 _) _) _
  have totals : ((List.range NUM_O2_CTX).flatMap fun ctx =>
      Numeral.toLittleEndian 4 (state.o2LitTotals ctx)).length = NUM_O2_CTX * 4 :=
    Numeral.length_flatMap_pieces (fun _ => Numeral.length_toLittleEndian 4 _) _
  rw [saveState]
  simp only [List.length_cons, List.length_append, row, counts, totals, List.length_nil]
  simp only [storeF32, Numeral.length_toLittleEndian]
  rw [minSize, contexts, lits]
  omega

/-- The total of counts within their bound fits a word. -/
theorem o2Total_lt {counts fenwick : Nat → Nat} {total : Nat}
    (counted : RlePredictor.Counted counts fenwick total)
    (bounded : ∀ lit < NUM_LITS, counts lit ≤ MAX_O2_COUNT) : total < 2 ^ 32 :=
  calc total = Order0Model.cumulative counts NUM_LITS := counted.total_eq
    _ ≤ Order0Model.cumulative (fun _ => MAX_O2_COUNT) NUM_LITS := Order0Model.cumulative_le bounded
    _ = NUM_LITS * MAX_O2_COUNT := Order0Model.cumulative_const _ _
    _ < 2 ^ 32 := by decide

/-- **A saved state is parsed to what was saved.** -/
theorem parseState_saveState {state : NeuralSsmPredictor arith}
    (bounded : LearnedBounded state.cfg.d state.toSsmState) (exact : state.StoresExactly)
    (small : state.cfg.d ≤ D_MAX) (rle : RlePredictor) :
    @parseState arith state.cfg.d rle state.saveState =
      some (state.reread rle, state.rle.saveState.length, state.rle.saveState) := by
  obtain ⟨⟨boundedH, boundedRun, boundedRunBias, boundedRuna, boundedRunaBias, finiteSsm,
    finiteRle⟩, wellFormed, savable, o2Le, stepLt⟩ := bounded
  obtain ⟨exactH, exactRun, exactRunBias, exactRuna, exactRunaBias, exactSsm, exactRle⟩ := exact
  have largest : D_MAX = 32 := rfl
  have nested := RlePredictor.length_saveState state.rle
  have nestedWord : state.rle.saveState.length < 2 ^ 32 := by
    rw [nested]
    decide
  have sums (ctx : Nat) (inside : ctx < NUM_O2_CTX) : state.o2LitTotals ctx =
      Order0Model.cumulative (padded (fun _ => 0) NUM_O2_CTX
        (fun ctx => padded 0 NUM_LITS (state.o2LitCounts ctx)) ctx) NUM_LITS := by
    rw [(wellFormed.o2 ctx inside).total_eq, padded_of_lt inside]
    exact Order0Model.cumulative_congr fun lit literal => (padded_of_lt literal).symm
  have totals (ctx : Nat) (inside : ctx < NUM_O2_CTX) : state.o2LitTotals ctx < 2 ^ 32 :=
    o2Total_lt (wellFormed.o2 ctx inside) fun lit literal => o2Le ctx lit inside literal
  have readD (rest : Bytes) := readU32_toLittleEndian state.cfg.d rest
  have readStep (rest : Bytes) := readU32_toLittleEndian state.step rest
  have readLength (rest : Bytes) := readU32_toLittleEndian state.rle.saveState.length rest
  rw [Nat.mod_eq_of_lt (show state.cfg.d < 2 ^ 32 by omega)] at readD
  rw [Nat.mod_eq_of_lt stepLt] at readStep
  rw [Nat.mod_eq_of_lt nestedWord] at readLength
  have long := minSize_le_saveState state
  rw [saveState] at long ⊢
  simp only [List.append_assoc] at long ⊢
  exact parseState_of_reads (readD _) small long (readRow_store exactH boundedH _)
    (readRow_store exactRun boundedRun _) (readBoundedF32_store exactRunBias boundedRunBias _)
    (readRow_store exactRuna boundedRuna _) (readBoundedF32_store exactRunaBias boundedRunaBias _)
    (readFiniteF32_store exactSsm finiteSsm _) (readFiniteF32_store exactRle finiteRle _)
    (readContexts_store (fun ctx inside lit literal => o2Le ctx lit inside literal) _)
    (readTotals_store sums totals _) (readStep _) (readLength _)

/-- **A saved predictor reloads** into every predictor of the configuration. -/
theorem loadState_saveState {state other : NeuralSsmPredictor arith}
    (bounded : LearnedBounded state.cfg.d state.toSsmState) (exact : state.StoresExactly)
    (small : state.cfg.d ≤ D_MAX) (constants : SameConstants state other)
    (wellFormed : LearnedWellFormed other.toSsmState) :
    ∃ loaded, other.loadState state.saveState = (true, loaded) ∧ Agree false state loaded := by
  obtain ⟨acceptable, rle⟩ := bounded.rle.accepted
  have parsed := parseState_saveState bounded exact small other.rle
  have long : 0 < state.rle.saveState.length := by
    rw [RlePredictor.length_saveState]
    exact Nat.lt_add_right _ Nat.one_pos
  rw [constants.cfg] at parsed
  have accepted := loadState_eq_of_complete parsed long acceptable
  have sound := wellFormed.loadState state.saveState
  rw [accepted] at sound
  refine ⟨_, accepted, ⟨constants.cfg, constants.a, constants.aInv, constants.embed⟩,
    bounded.wellFormed, sound, rle, fun i inside => ?_, fun i inside => ?_, rfl,
    fun i inside => ?_, rfl, rfl, rfl, fun ctx lit inside literal => ?_, rfl, rfl, rfl, nofun⟩
  · exact (padded_of_lt inside).symm
  · exact (padded_of_lt inside).symm
  · exact (padded_of_lt inside).symm
  · change state.o2LitCounts ctx lit =
      padded (fun _ => 0) NUM_O2_CTX (fun ctx => padded 0 NUM_LITS (state.o2LitCounts ctx)) ctx lit
    rw [padded_of_lt inside, padded_of_lt literal]

/-- A state in use has a small dimension. -/
theorem InUse.small {state : NeuralSsmPredictor arith} (inUse : state.InUse) :
    state.cfg.d ≤ D_MAX := by
  obtain ⟨cfg, checked⟩ := inUse.configured.checked
  rw [checked]
  exact min_le_right _ _

end NeuralSsmPredictor

open ProbabilityPredictor

/-- One predictor accepts what another one saved, and codes like it from then on. -/
def Reloads {σ : Type} [ProbabilityPredictor σ] (state other : σ) : Prop :=
  ∃ data loaded, saveState state = some data ∧ loadState other data = (true, loaded) ∧
    CodesAlike state loaded

/-- **Saved states reload faithfully**: every state that a predictor reaches is within the bounds
that the loader enforces, and every predictor of its configuration accepts it and codes like it,
if the numbers it holds in single precision are stored exactly. -/
theorem savedStates_reload (functions : ExactFunctions) (formats : FloatFormats) :
    (∀ state other : NeuralSsmPredictor (.exact functions), state.InUse → other.InUse →
      state.cfg = other.cfg →
        NeuralSsmPredictor.LearnedBounded state.cfg.d state.toSsmState ∧
          (state.StoresExactly → Reloads state other)) ∧
      (∀ model other : RlePredictor, model.Reached →
        model.Savable ∧ @Reloads RlePredictor (RlePredictor.predictor formats) model other) ∧
      ∀ model other : Order0Model, model.Reached → model.WithinBounds ∧ Reloads model other := by
  refine ⟨fun state other inUse others cfg => ?_, fun model other reached => ?_,
    fun model other reached => ?_⟩
  · have bounded := inUse.bounded.learned
    refine ⟨bounded, fun exact => ?_⟩
    have constants := inUse.configured.sameConstants others.configured cfg
    obtain ⟨loaded, accepted, agree⟩ := NeuralSsmPredictor.loadState_saveState bounded exact
      inUse.small constants others.bounded.learned.wellFormed
    exact ⟨_, loaded, rfl, accepted, NeuralSsmPredictor.simulates_agree.codesAlike agree⟩
  · have savable := reached.savable
    obtain ⟨accepted, agree⟩ := savable.accepted
    let predictor := RlePredictor.predictor formats
    refine ⟨savable, _, RlePredictor.storedState model.saveState, rfl, ?_,
      (RlePredictor.simulates_agree formats).codesAlike agree⟩
    exact (RlePredictor.loadState_eq other _).trans (if_pos accepted)
  · have within := reached.withinBounds
    obtain ⟨loaded, accepted, agree⟩ :=
      Order0Model.loadState_saveState reached.wellFormed within other
    exact ⟨within, _, loaded, rfl, accepted, Order0Model.simulates_agree.codesAlike agree⟩

namespace NeuralSsmPredictor

/-- The number that the bits of a normal single-precision number or of zero denote. -/
def singleOfBits (bits : Nat) : ℚ :=
  let magnitude : ℚ :=
    if bits % 2 ^ 31 = 0 then 0
    else (2 ^ 23 + bits % 2 ^ 23 : Nat) * 2 ^ (bits / 2 ^ 23 % 256) / 2 ^ 150
  if bits < 2 ^ 31 then magnitude else -magnitude

/-- The bits of a dyadic number in the normal range, if 24 digits hold it. -/
def singleToBits (x : ℚ) : Nat :=
  let digits := x.num.natAbs.log2
  let magnitude :=
    if x.num = 0 then 0
    else (127 + digits - x.den.log2) * 2 ^ 23 + (x.num.natAbs * 2 ^ 23 / 2 ^ digits - 2 ^ 23)
  if x.num < 0 then 2 ^ 31 + magnitude else magnitude

/-- Exact arithmetic with the bits of single precision. -/
def singleFunctions : ExactFunctions where
  exp _ := 1
  ln _ := -1
  log2 _ := 0
  ofBits := singleOfBits
  toBits := singleToBits
  sigmoid _ := 1 / 2

/-- Whether the bits of a number denote it. -/
def singleExactly (x : ℚ) : Bool :=
  singleToBits x < 2 ^ 32 ∧ singleOfBits (singleToBits x) = x

/-- A number with exact bits is stored exactly. -/
theorem storedExactly_of_singleExactly {x : ℚ} (exact : singleExactly x = true) :
    @StoredExactly (.exact singleFunctions) x := by
  rw [singleExactly, decide_eq_true_eq] at exact
  exact exact

/-- A configuration with a hidden state of two numbers. -/
def smallConfig : NeuralSsmConfig (SsmArithmetic.exact singleFunctions).toFloatFormats :=
  { d := 2, lr := 0.5, mixDecay := 0.5, decayLo := 0.5, decayHi := 0.5 }

/-- The predictor of the configuration after three bytes. -/
def trained : NeuralSsmPredictor (.exact singleFunctions) :=
  (((withConfig smallConfig).update 32).update 0).update 0

/-- Single precision holds all numbers of the trained predictor. -/
theorem storesExactly_trained : trained.StoresExactly := by
  have rows : ∀ i < 2, singleExactly (trained.h i) ∧ singleExactly (trained.wRun i) ∧
      singleExactly (trained.wRuna i) := by decide +kernel
  have numbers : singleExactly trained.bRun ∧ singleExactly trained.bRuna ∧
      singleExactly trained.ssmPerf ∧ singleExactly trained.rlePerf := by decide +kernel
  obtain ⟨bRun, bRuna, ssmPerf, rlePerf⟩ := numbers
  exact
    { h := fun i inside => storedExactly_of_singleExactly (rows i inside).1
      wRun := fun i inside => storedExactly_of_singleExactly (rows i inside).2.1
      bRun := storedExactly_of_singleExactly bRun
      wRuna := fun i inside => storedExactly_of_singleExactly (rows i inside).2.2
      bRuna := storedExactly_of_singleExactly bRuna
      ssmPerf := storedExactly_of_singleExactly ssmPerf
      rlePerf := storedExactly_of_singleExactly rlePerf }

/-- Trained states are reloaded: a predictor whose weights and tracks are all different from zero,
a context class and counts. -/
theorem savedStates_reload_trained :
    (∀ i < 2, Rat.num (trained.h i) ≠ 0 ∧ Rat.num (trained.wRun i) ≠ 0 ∧
        Rat.num (trained.wRuna i) ≠ 0) ∧
      (Rat.num trained.bRun ≠ 0 ∧ Rat.num trained.bRuna ≠ 0 ∧ Rat.num trained.ssmPerf ≠ 0 ∧
        Rat.num trained.rlePerf ≠ 0) ∧
      Reloads trained (withConfig smallConfig) ∧
      @Reloads RlePredictor (RlePredictor.predictor
        (SsmArithmetic.exact singleFunctions).toFloatFormats) (RlePredictor.new.update 65) .new ∧
      Reloads (Order0Model.new.update 65) Order0Model.new := by
  have reloads :=
    savedStates_reload singleFunctions (SsmArithmetic.exact singleFunctions).toFloatFormats
  have inUse : (withConfig smallConfig : NeuralSsmPredictor (.exact singleFunctions)).InUse :=
    .withConfig smallConfig
  have used : trained.InUse := .coded inUse (.update 0 (.update 0 (.update 32 .start)))
  have rows : ∀ i < 2, Rat.num (trained.h i) ≠ 0 ∧ Rat.num (trained.wRun i) ≠ 0 ∧
      Rat.num (trained.wRuna i) ≠ 0 := by decide +kernel
  have numbers : Rat.num trained.bRun ≠ 0 ∧ Rat.num trained.bRuna ≠ 0 ∧
      Rat.num trained.ssmPerf ≠ 0 ∧ Rat.num trained.rlePerf ≠ 0 := by decide +kernel
  exact ⟨rows, numbers, (reloads.1 _ _ used inUse rfl).2 storesExactly_trained,
    (reloads.2.1 _ .new (.update 65 .new)).2, (reloads.2.2 _ .new (.update 65 .new)).2⟩

end NeuralSsmPredictor

end AetherArch
