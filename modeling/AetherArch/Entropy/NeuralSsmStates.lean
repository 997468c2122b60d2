import AetherArch.Entropy.NeuralSsmContract

/-! # The neural predictor in every state it reaches

Loading a saved state and installing a dictionary baseline keep the trees in step with the
counts, also when the state is rejected after its context-class part was taken over.
-/

namespace AetherArch

namespace NeuralSsmPredictor

open NeuralSsm ProbabilityPredictor
open RlePredictor (Counted fenwick254Rebuild_represents)

section

variable {arith : SsmArithmetic}

/-- A word is read from the four bytes in front. -/
theorem readU32_eq_some {data rest : Bytes} {value : Nat}
    (read : readU32 data = some (value, rest)) :
    value = Numeral.littleEndian (data.take 4) ∧ value < 2 ^ 32 ∧ rest = data.drop 4 := by
  rw [readU32] at read
  split at read
  · cases read
  · cases read
    refine ⟨rfl, ?_, rfl⟩
    have length : (data.take 4).length = 4 := by
      rw [List.length_take]
      omega
    exact (Numeral.littleEndian_lt _).trans_eq (by rw [length]; rfl)

/-- A number that is read where a bound is asked of it. -/
def Loadable (bound x : arith.F32) : Prop :=
  arith.single.isFinite x = true ∧ FloatFormat.abs x ≤ bound

/-- A number that was read is finite. -/
theorem readFiniteF32_eq_some {data rest : Bytes} {value : arith.F32}
    (read : readFiniteF32 data = some (value, rest)) :
    rest = data.drop 4 ∧ arith.single.isFinite value = true := by
  obtain ⟨⟨bits, after⟩, word, read⟩ := Option.bind_eq_some_iff.mp read
  dsimp only at read
  split at read
  · rename_i finite
    cases read
    exact ⟨(readU32_eq_some word).2.2, finite⟩
  · cases read

/-- A bounded number that was read is within its bound. -/
theorem readBoundedF32_eq_some {data rest : Bytes} {value bound : arith.F32}
    (read : readBoundedF32 data bound = some (value, rest)) :
    rest = data.drop 4 ∧ Loadable bound value := by
  obtain ⟨⟨finite, after⟩, number, read⟩ := Option.bind_eq_some_iff.mp read
  dsimp only at read
  split at read
  · rename_i within
    cases read
    obtain ⟨skipped, isFinite⟩ := readFiniteF32_eq_some number
    exact ⟨skipped, isFinite, within⟩
  · cases read

/-- Every number of a row that is read is within the bound. -/
theorem readRow_eq_some {bound : arith.F32} {count : Nat} {data rest : Bytes}
    {row : Nat → arith.F32} (read : readRow bound count data = some (row, rest)) :
    rest = data.drop (count * 4) ∧ ∀ i < count, Loadable bound (row i) := by
  induction count generalizing row rest with
  | zero =>
      cases read
      rw [Nat.zero_mul, List.drop_zero]
      exact ⟨rfl, fun _ inside => absurd inside (Nat.not_lt_zero _)⟩
  | succ count recurse =>
      rw [readRow] at read
      obtain ⟨⟨before, between⟩, readBefore, read⟩ := Option.bind_eq_some_iff.mp read
      obtain ⟨⟨value, after⟩, readLast, read⟩ := Option.bind_eq_some_iff.mp read
      obtain ⟨skipped, bounded⟩ := recurse readBefore
      obtain ⟨skippedLast, loadable⟩ := readBoundedF32_eq_some readLast
      cases read
      refine ⟨?_, fun i inside => ?_⟩
      · rw [skippedLast, skipped, List.drop_drop, Nat.succ_mul]
      · by_cases last : i = count
        · subst last
          rw [Function.update_self]
          exact loadable
        · rw [Function.update_of_ne last]
          exact bounded i (by omega)

/-- Every count that is read is within its bound. -/
theorem readCounts_eq_some {count : Nat} {data rest : Bytes} {counts : Nat → Nat}
    (read : readCounts count data = some (counts, rest)) :
    rest = data.drop (count * 4) ∧ ∀ lit < count, counts lit ≤ MAX_O2_COUNT := by
  induction count generalizing counts rest with
  | zero =>
      cases read
      rw [Nat.zero_mul, List.drop_zero]
      exact ⟨rfl, fun _ inside => absurd inside (Nat.not_lt_zero _)⟩
  | succ count recurse =>
      rw [readCounts] at read
      obtain ⟨⟨before, between⟩, readBefore, read⟩ := Option.bind_eq_some_iff.mp read
      obtain ⟨⟨c, after⟩, readLast, read⟩ := Option.bind_eq_some_iff.mp read
      obtain ⟨skipped, bounded⟩ := recurse readBefore
      dsimp only at read
      split at read
      · cases read
      · rename_i within
        cases read
        refine ⟨?_, fun lit inside => ?_⟩
        · rw [(readU32_eq_some readLast).2.2, skipped, List.drop_drop, Nat.succ_mul]
        · by_cases last : lit = count
          · subst last
            rw [Function.update_self]
            exact not_lt.mp within
          · rw [Function.update_of_ne last]
            exact bounded lit (by omega)

/-- Counts that were read are within their limit. -/
theorem readContexts_eq_some {count : Nat} {data rest : Bytes} {contexts : Nat → Nat → Nat}
    (read : readContexts count data = some (contexts, rest)) :
    rest = data.drop (count * (NUM_LITS * 4)) ∧
      ∀ ctx < count, ∀ lit < NUM_LITS, contexts ctx lit ≤ MAX_O2_COUNT := by
  induction count generalizing contexts rest with
  | zero =>
      cases read
      rw [Nat.zero_mul, List.drop_zero]
      exact ⟨rfl, fun _ inside => absurd inside (Nat.not_lt_zero _)⟩
  | succ count recurse =>
      rw [readContexts] at read
      obtain ⟨⟨before, between⟩, readBefore, read⟩ := Option.bind_eq_some_iff.mp read
      obtain ⟨⟨counts, after⟩, readLast, read⟩ := Option.bind_eq_some_iff.mp read
      cases read
      obtain ⟨skipped, bounded⟩ := recurse readBefore
      obtain ⟨skippedLast, boundedLast⟩ := readCounts_eq_some readLast
      refine ⟨?_, fun ctx inside => ?_⟩
      · rw [skippedLast, skipped, List.drop_drop, Nat.succ_mul]
      · by_cases last : ctx = count
        · subst last
          rw [Function.update_self]
          exact boundedLast
        · rw [Function.update_of_ne last]
          exact bounded ctx (by omega)

/-- Every total that is read is the sum of its counts. -/
theorem readTotals_eq_some {contexts : Nat → Nat → Nat} {count : Nat} {data : Bytes}
    {totals : Nat → Nat} {rest : Bytes}
    (read : readTotals contexts count data = some (totals, rest)) :
    rest = data.drop (count * 4) ∧
      ∀ ctx < count, totals ctx = Order0Model.cumulative (contexts ctx) NUM_LITS := by
  induction count generalizing totals rest with
  | zero =>
      cases read
      rw [Nat.zero_mul, List.drop_zero]
      exact ⟨rfl, fun _ inside => absurd inside (Nat.not_lt_zero _)⟩
  | succ count recurse =>
      rw [readTotals] at read
      obtain ⟨⟨before, between⟩, readBefore, read⟩ := Option.bind_eq_some_iff.mp read
      obtain ⟨⟨total, after⟩, readLast, read⟩ := Option.bind_eq_some_iff.mp read
      obtain ⟨skipped, sums⟩ := recurse readBefore
      dsimp only at read
      split at read
      · cases read
      · rename_i sound
        cases read
        rw [not_or, not_not] at sound
        refine ⟨?_, fun ctx inside => ?_⟩
        · rw [(readU32_eq_some readLast).2.2, skipped, List.drop_drop, Nat.succ_mul]
        · by_cases last : ctx = count
          · subst last
            rw [Function.update_self]
            exact sound.2
          · rw [Function.update_of_ne last]
            exact sums ctx (by omega)

/-- The step counter as a saved state holds it. -/
def storedStep (d : Nat) (data : Bytes) : Nat :=
  Numeral.littleEndian ((data.drop (minSize d - 8)).take 4)

/-- The length of the context-class part as a saved state holds it. -/
def storedNestedLength (d : Nat) (data : Bytes) : Nat :=
  Numeral.littleEndian ((data.drop (minSize d - 4)).take 4)

/-- What is known of a parsed state. -/
structure ParsedFrom (d : Nat) (rle : RlePredictor) (data : Bytes)
    (parsed : SsmState arith.toFloatFormats) : Prop where
  rle : parsed.rle = rle
  counted (ctx : Nat) : ctx < NUM_O2_CTX →
    Counted (parsed.o2LitCounts ctx) (parsed.o2LitFenwick ctx) (parsed.o2LitTotals ctx)
  count_le (ctx : Nat) : ctx < NUM_O2_CTX → ∀ lit < NUM_LITS,
    parsed.o2LitCounts ctx lit ≤ MAX_O2_COUNT
  step_eq : parsed.step = storedStep d data
  step_lt : parsed.step < 2 ^ 32

/-- The numbers of a state are within the bounds of the loader. -/
structure NumbersBounded (d : Nat) (learned : SsmState arith.toFloatFormats) : Prop where
  h (i : Nat) : i < d → Loadable (HIDDEN_BOUND arith) (learned.h i)
  wRun (i : Nat) : i < d → Loadable (WEIGHT_BOUND arith) (learned.wRun i)
  bRun : Loadable (WEIGHT_BOUND arith) learned.bRun
  wRuna (i : Nat) : i < d → Loadable (WEIGHT_BOUND arith) (learned.wRuna i)
  bRuna : Loadable (WEIGHT_BOUND arith) learned.bRuna
  ssmPerf : arith.single.isFinite learned.ssmPerf = true
  rlePerf : arith.single.isFinite learned.rlePerf = true

/-- **What a parsed state satisfies.** -/
theorem parseState_spec {d : Nat} {rle : RlePredictor} {data : Bytes}
    {parsed : SsmState arith.toFloatFormats} {rleLen : Nat} {rest : Bytes}
    (success : parseState d rle data = some (parsed, rleLen, rest)) :
    ParsedFrom d rle data parsed ∧ rleLen = storedNestedLength d data ∧
      NumbersBounded d parsed := by
  rw [parseState.eq_def] at success
  split at success
  · rename_i saved
    obtain ⟨⟨storedD, afterD⟩, readD, success⟩ := Option.bind_eq_some_iff.mp success
    dsimp only at success
    split at success
    · cases success
    split at success
    · cases success
    obtain ⟨⟨h, afterH⟩, readH, success⟩ := Option.bind_eq_some_iff.mp success
    obtain ⟨⟨wRun, afterRun⟩, readRun, success⟩ := Option.bind_eq_some_iff.mp success
    obtain ⟨⟨bRun, afterRunBias⟩, readRunBias, success⟩ := Option.bind_eq_some_iff.mp success
    obtain ⟨⟨wRuna, afterRuna⟩, readRuna, success⟩ := Option.bind_eq_some_iff.mp success
    obtain ⟨⟨bRuna, afterRunaBias⟩, readRunaBias, success⟩ := Option.bind_eq_some_iff.mp success
    obtain ⟨⟨ssmPerf, afterSsm⟩, readSsm, success⟩ := Option.bind_eq_some_iff.mp success
    obtain ⟨⟨rlePerf, afterRle⟩, readRle, success⟩ := Option.bind_eq_some_iff.mp success
    obtain ⟨⟨contexts, afterCounts⟩, readCounts, success⟩ := Option.bind_eq_some_iff.mp success
    obtain ⟨⟨totals, afterTotals⟩, readTotals, success⟩ := Option.bind_eq_some_iff.mp success
    obtain ⟨skippedCounts, bounded⟩ := readContexts_eq_some readCounts
    obtain ⟨skippedTotals, sums⟩ := readTotals_eq_some readTotals
    obtain ⟨skippedH, boundedH⟩ := readRow_eq_some readH
    obtain ⟨skippedRun, boundedRun⟩ := readRow_eq_some readRun
    obtain ⟨skippedRunBias, boundedRunBias⟩ := readBoundedF32_eq_some readRunBias
    obtain ⟨skippedRuna, boundedRuna⟩ := readRow_eq_some readRuna
    obtain ⟨skippedRunaBias, boundedRunaBias⟩ := readBoundedF32_eq_some readRunaBias
    obtain ⟨skippedSsm, finiteSsm⟩ := readFiniteF32_eq_some readSsm
    obtain ⟨skippedRle, finiteRle⟩ := readFiniteF32_eq_some readRle
    dsimp only at success
    split at success
    · rename_i prev prevPrev afterPrev
      obtain ⟨⟨step, afterStep⟩, readStep, success⟩ := Option.bind_eq_some_iff.mp success
      obtain ⟨⟨length, afterLength⟩, readLength, success⟩ := Option.bind_eq_some_iff.mp success
      cases success
      obtain ⟨stepEq, stepLt, skippedStep⟩ := readU32_eq_some readStep
      obtain ⟨lengthEq, -, -⟩ := readU32_eq_some readLength
      have position : afterPrev = (1 :: saved).drop (minSize d - 8) := by
        have afterTwo : afterPrev = (prev :: prevPrev :: afterPrev).drop 2 := rfl
        have lits : NUM_LITS = 254 := rfl
        rw [afterTwo, skippedTotals, skippedCounts, skippedRle, skippedSsm, skippedRunaBias,
          skippedRuna, skippedRunBias, skippedRun, skippedH, (readU32_eq_some readD).2.2]
        have size : minSize d - 8 = (minSize d - 9) + 1 := by
          rw [minSize]
          omega
        rw [size, List.drop_succ_cons]
        simp only [List.drop_drop]
        refine congrArg (List.drop · saved) ?_
        rw [minSize, lits]
        omega
      refine ⟨⟨rfl, fun ctx inside => ⟨fenwick254Rebuild_represents _, sums ctx inside⟩, bounded,
        ?_, stepLt⟩, ?_, ⟨boundedH, boundedRun, boundedRunBias, boundedRuna, boundedRunaBias,
        finiteSsm, finiteRle⟩⟩
      · rw [storedStep, ← position]
        exact stepEq
      · have next : minSize d - 4 = minSize d - 8 + 4 := by
          rw [minSize]
          omega
        rw [storedNestedLength, next, ← List.drop_drop, ← position, ← skippedStep]
        exact lengthEq
    · cases success
  · cases success

/-- What is parsed keeps the context-class state it was given, and its trees hold its counts. -/
theorem parseState_eq_some {d : Nat} {rle : RlePredictor} {data : Bytes}
    {parsed : SsmState arith.toFloatFormats} {rleLen : Nat} {rest : Bytes}
    (success : parseState d rle data = some (parsed, rleLen, rest)) :
    ParsedFrom d rle data parsed :=
  (parseState_spec success).1

/-- A well-formed run model leaves the learned state well formed. -/
theorem LearnedWellFormed.withRle {learned : SsmState arith.toFloatFormats}
    (wellFormed : LearnedWellFormed learned) {rle : RlePredictor} (rleWellFormed : rle.WellFormed) :
    LearnedWellFormed { learned with rle := rle } where
  rle := rleWellFormed
  o2 := wellFormed.o2

/-- What loading leaves behind was there before, is an exchanged context-class state over it, or
is what was parsed, with or without such an exchange. -/
theorem loadState_induction {motive : SsmState arith.toFloatFormats → Prop}
    {state : NeuralSsmPredictor arith} (data : Bytes) (kept : motive state.toSsmState)
    (withRle : ∀ learned nested, motive learned →
      motive { learned with rle := (state.rle.loadState nested).2 })
    (parsed : ∀ learned rleLen rest,
      parseState state.cfg.d state.rle data = some (learned, rleLen, rest) → motive learned) :
    motive (state.loadState data).2.toSsmState := by
  rw [NeuralSsmPredictor.loadState]
  split
  · exact kept
  · rename_i learned rleLen rest success
    have exchanged := withRle state.toSsmState (rest.take rleLen) kept
    have loaded := withRle learned (rest.take rleLen) (parsed _ _ _ success)
    split
    · split
      · exact kept
      · split
        · rename_i rejected
          rw [rejected] at exchanged
          exact exchanged
        · rename_i accepted
          rw [accepted] at exchanged loaded
          split
          · exact exchanged
          · exact loaded
    · split
      · exact kept
      · exact parsed _ _ _ success

/-- **Loading keeps the trees in step**, whether or not the saved state is accepted. -/
theorem LearnedWellFormed.loadState {state : NeuralSsmPredictor arith}
    (wellFormed : LearnedWellFormed state.toSsmState) (data : Bytes) :
    LearnedWellFormed (state.loadState data).2.toSsmState := by
  refine loadState_induction data wellFormed
    (fun _ nested learned => learned.withRle (wellFormed.rle.loadState nested)) ?_
  intro parsed _ _ success
  have known := parseState_eq_some success
  exact ⟨known.rle ▸ wellFormed.rle, known.counted⟩

/-- Loading keeps the setup. -/
theorem sameSetup_loadState (state : NeuralSsmPredictor arith) (data : Bytes) :
    SameSetup state (state.loadState data).2 := by
  rw [NeuralSsmPredictor.loadState]
  repeat' split
  all_goals exact ⟨rfl, rfl, rfl, rfl, rfl⟩

end

variable {functions : ExactFunctions} {state : NeuralSsmPredictor (.exact functions)}

theorem WellFormed.loadState (wellFormed : state.WellFormed) (data : Bytes) :
    (state.loadState data).2.WellFormed :=
  wellFormed.of_sameSetup (sameSetup_loadState state data) (wellFormed.learned.loadState data)

/-- Installing a baseline keeps a state well formed. -/
theorem WellFormed.setDictBaseline (wellFormed : state.WellFormed) (data : Bytes) :
    (state.setDictBaseline data).2.WellFormed := by
  have loaded := wellFormed.loadState data
  rw [NeuralSsmPredictor.setDictBaseline]
  split
  · rename_i rejected
    rw [rejected] at loaded
    exact loaded
  · rename_i accepted
    rw [accepted] at loaded
    refine ⟨loaded.learned, ?_, loaded.share_nonneg, loaded.share_le_one⟩
    rintro _ ⟨⟩
    exact loaded.learned

/-- The states reached from a new predictor, by way of predictions or without any. -/
inductive Reached : NeuralSsmPredictor (.exact functions) → Prop where
  | new : Reached new
  | coded {state next : NeuralSsmPredictor (.exact functions)} : Reached state →
      Reachable state next → Reached next
  | setDictBaseline {state : NeuralSsmPredictor (.exact functions)} (data : Bytes) :
      Reached state → Reached (state.setDictBaseline data).2
  | load {state loaded : NeuralSsmPredictor (.exact functions)} {data : Bytes} : Reached state →
      state.loadState data = (true, loaded) → Reached loaded

/-- **Every state reached, loads included, is well formed.** -/
theorem Reached.wellFormed (reached : state.Reached) : state.WellFormed := by
  induction reached with
  | new => exact new_wellFormed
  | coded _ after recurse => exact wellFormed_of_reachable recurse after
  | setDictBaseline data _ recurse => exact recurse.setDictBaseline data
  | @load _ _ data _ accepted recurse =>
      have loaded := recurse.loadState data
      rw [accepted] at loaded
      exact loaded

/-- **The neural predictor in every state it reaches**, over exact arithmetic: the three routes
agree on one valid table, and whichever was taken, the next byte leads to one state. -/
theorem neuralSsm_routesAgree (reached : state.Reached) :
    RoutesAgree state ∧ ∀ byte queried freq, freq < PROB_TOTAL →
      update (queryCdf state queried).2 byte = update (predictCdf state).2 byte ∧
        update (decodeSymbol state freq).2 byte = update (predictCdf state).2 byte :=
  have coherent := contract reached.wellFormed state .start
  ⟨coherent.routesAgree, fun _ _ _ _ => ⟨rfl, rfl⟩⟩

/-- Functions that tell no two inputs apart. -/
def flatFunctions : ExactFunctions where
  exp _ := 1
  ln _ := 0
  log2 _ := 0
  ofBits _ := 0
  toBits _ := 0
  sigmoid _ := 1 / 2

/-- The routes agree after an update and a reset. -/
theorem neuralSsm_routesAgree_flat :
    let state := ((new : NeuralSsmPredictor (.exact flatFunctions)).update 65).reset
    RoutesAgree state ∧ ∀ byte queried freq, freq < PROB_TOTAL →
      update (queryCdf state queried).2 byte = update (predictCdf state).2 byte ∧
        update (decodeSymbol state freq).2 byte = update (predictCdf state).2 byte :=
  neuralSsm_routesAgree (.coded .new (.reset (.update 65 .start)))

end NeuralSsmPredictor

end AetherArch
