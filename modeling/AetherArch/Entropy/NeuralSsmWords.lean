import AetherArch.Entropy.LoadedWords
import AetherArch.Entropy.RejectedStates

/-! # What a loaded neural state can count to

The counts of an accepted state leave room in their words for every further use. The step
counter is taken over as it is stored, so that it is the one field that can run out.
-/

namespace AetherArch

open CountWords

namespace NeuralSsmPredictor

open NeuralSsm ProbabilityPredictor
open RlePredictor (Counted countLiteral_total_le)

/-- Most that the literal counts of an order-2 context add up to. -/
def MAX_O2_TOTAL : Nat := NUM_LITS * MAX_O2_COUNT

/-- What is learned has its trees in step, and leaves room in their words. -/
structure LearnedRoomy {formats : FloatFormats} (learned : SsmState formats) : Prop where
  wellFormed : LearnedWellFormed learned
  rle : learned.rle.Roomy
  o2 (ctx : Nat) : ctx < NUM_O2_CTX → learned.o2LitTotals ctx ≤ MAX_O2_TOTAL

/-- What nothing was learned into is roomy. -/
theorem LearnedRoomy.fresh (formats : FloatFormats) : LearnedRoomy (SsmState.fresh formats) where
  wellFormed := .fresh formats
  rle := RlePredictor.new_roomy
  o2 _ _ := Nat.zero_le _

/-- A roomy run model leaves the learned state roomy. -/
theorem LearnedRoomy.withRle {formats : FloatFormats} {learned : SsmState formats}
    (roomy : LearnedRoomy learned) {rle : RlePredictor} (rleRoomy : rle.Roomy) :
    LearnedRoomy { learned with rle := rle } where
  wellFormed := ⟨rleRoomy.wellFormed, roomy.wellFormed.o2⟩
  rle := rleRoomy
  o2 := roomy.o2

variable {arith : SsmArithmetic}

/-- Learning from a byte keeps the learned state roomy. -/
theorem LearnedRoomy.update {state : NeuralSsmPredictor arith}
    (roomy : LearnedRoomy state.toSsmState) (byte : UInt8) :
    LearnedRoomy (state.update byte).toSsmState where
  wellFormed := roomy.wellFormed.update byte
  rle := roomy.rle.update byte
  o2 ctx inside := by
    have bounded := roomy.o2 ctx inside
    have counted := roomy.wellFormed.o2 ctx inside
    unfold NeuralSsmPredictor.update
    dsimp only
    split
    · exact bounded
    · by_cases same : ctx = o2Context state.prevByte state.prevPrevByte
      · subst same
        rw [Function.update_self]
        exact countLiteral_total_le counted (RlePredictor.literal_lt byte) (by decide)
          (by decide) bounded
      · rw [Function.update_of_ne same]
        exact bounded

/-- What is parsed over a context-class state that leaves room leaves room itself. -/
theorem ParsedFrom.roomy {d : Nat} {rle : RlePredictor} {data : Bytes}
    {parsed : SsmState arith.toFloatFormats} (known : ParsedFrom d rle data parsed)
    (rleRoomy : rle.Roomy) : LearnedRoomy parsed where
  wellFormed := ⟨known.rle ▸ rleRoomy.wellFormed, known.counted⟩
  rle := known.rle ▸ rleRoomy
  o2 ctx inside := by
    rw [(known.counted ctx inside).total_eq]
    calc Order0Model.cumulative (parsed.o2LitCounts ctx) NUM_LITS
        ≤ Order0Model.cumulative (fun _ => MAX_O2_COUNT) NUM_LITS :=
          Order0Model.cumulative_le (known.count_le ctx inside)
      _ = MAX_O2_TOTAL := Order0Model.cumulative_const _ _

/-- Loading keeps the learned state roomy. -/
theorem LearnedRoomy.loadState {state : NeuralSsmPredictor arith}
    (roomy : LearnedRoomy state.toSsmState) (data : Bytes) :
    LearnedRoomy (state.loadState data).2.toSsmState := by
  refine loadState_induction data roomy
    (fun _ nested learned => learned.withRle (roomy.rle.loadState nested)) ?_
  intro parsed _ _ success
  exact (parseState_eq_some success).roomy roomy.rle

/-- An accepted state sets the step counter to the one it holds. -/
theorem step_of_loadState {state loaded : NeuralSsmPredictor arith} {data : Bytes}
    (accepted : state.loadState data = (true, loaded)) :
    loaded.step = storedStep state.cfg.d data ∧ loaded.step < 2 ^ 32 := by
  obtain ⟨parsed, rest, success, outcome⟩ := loadState_accepted accepted
  have known := parseState_eq_some success
  rcases outcome with ⟨-, -, rfl⟩ | ⟨-, rfl⟩
  · exact ⟨known.step_eq, known.step_lt⟩
  · exact ⟨known.step_eq, known.step_lt⟩

/-- An installed baseline is the state that was loaded. -/
theorem setDictBaseline_accepted {state installed : NeuralSsmPredictor arith} {data : Bytes}
    (accepted : state.setDictBaseline data = (true, installed)) :
    ∃ loaded, state.loadState data = (true, loaded) ∧
      installed = { loaded with
        dictBaseline := some { toSsmState := loaded.toSsmState, rawBytes := data } } := by
  rw [setDictBaseline] at accepted
  split at accepted
  · cases accepted
  · rename_i loaded found
    cases accepted
    exact ⟨loaded, found, rfl⟩

/-! ## Predictors in use -/

/-- The states of a predictor of any configuration, in any arithmetic. -/
inductive InUse : NeuralSsmPredictor arith → Prop where
  | withConfig (cfg : NeuralSsmConfig arith.toFloatFormats) : InUse (withConfig cfg)
  | coded {state next : NeuralSsmPredictor arith} : InUse state → Reachable state next → InUse next
  | loadState {state : NeuralSsmPredictor arith} (data : Bytes) : InUse state →
      InUse (state.loadState data).2
  | setDictBaseline {state : NeuralSsmPredictor arith} (data : Bytes) : InUse state →
      InUse (state.setDictBaseline data).2

/-- What a predictor has learned and what it returns to leave room. -/
structure Roomy (state : NeuralSsmPredictor arith) : Prop where
  learned : LearnedRoomy state.toSsmState
  baseline : ∀ baseline ∈ state.dictBaseline, LearnedRoomy baseline.toSsmState

/-- A reset leaves a state roomy. -/
theorem Roomy.reset {state : NeuralSsmPredictor arith} (roomy : state.Roomy) :
    state.reset.Roomy := by
  refine ⟨?_, (sameSetup_reset state).dictBaseline ▸ roomy.baseline⟩
  rw [NeuralSsmPredictor.reset]
  split
  · rename_i parsed found
    exact roomy.baseline parsed found
  · exact .fresh _

/-- So does coding. -/
theorem Roomy.coded {start state : NeuralSsmPredictor arith} (roomy : start.Roomy)
    (reached : Reachable start state) : state.Roomy := by
  induction reached with
  | start => exact roomy
  | predict _ recurse => exact ⟨recurse.learned, recurse.baseline⟩
  | query _ _ recurse => exact ⟨recurse.learned, recurse.baseline⟩
  | decode _ _ _ recurse => exact ⟨recurse.learned, recurse.baseline⟩
  | update byte _ recurse => exact ⟨recurse.learned.update byte, recurse.baseline⟩
  | reset _ recurse => exact recurse.reset

theorem Roomy.loadState {state : NeuralSsmPredictor arith} (roomy : state.Roomy) (data : Bytes) :
    (state.loadState data).2.Roomy :=
  ⟨roomy.learned.loadState data, (sameSetup_loadState state data).dictBaseline ▸ roomy.baseline⟩

/-- Installing a baseline leaves a state roomy. -/
theorem Roomy.setDictBaseline {state : NeuralSsmPredictor arith} (roomy : state.Roomy)
    (data : Bytes) : (state.setDictBaseline data).2.Roomy := by
  have loaded := roomy.loadState data
  rw [NeuralSsmPredictor.setDictBaseline]
  split
  · rename_i rejected
    rw [rejected] at loaded
    exact loaded
  · rename_i accepted
    rw [accepted] at loaded
    refine ⟨loaded.learned, ?_⟩
    rintro _ ⟨⟩
    exact loaded.learned

/-- **Every predictor in use leaves room** in the words of its counts. -/
theorem InUse.roomy {state : NeuralSsmPredictor arith} (inUse : state.InUse) : state.Roomy := by
  induction inUse with
  | withConfig cfg =>
      refine ⟨.fresh _, ?_⟩
      rintro _ ⟨⟩
  | coded _ reached recurse => exact recurse.coded reached
  | loadState data _ recurse => exact recurse.loadState data
  | setDictBaseline data _ recurse => exact recurse.setDictBaseline data

/-! ## Additions -/

/-- Rebuilding the trees exceeds no word. -/
def RebuildFits (state : NeuralSsmPredictor arith) : Prop :=
  state.rle.RebuildFits ∧ ∀ ctx < NUM_O2_CTX, BuildFits NUM_LITS (state.o2LitCounts ctx)

/-- Counting one byte exceeds no word but for the step counter. -/
def CountsByte (state : NeuralSsmPredictor arith) (byte : UInt8) : Prop :=
  let o2Ctx := o2Context state.prevByte state.prevPrevByte
  state.rle.CountsByte byte ∧
    (2 ≤ byte.toNat → CountFits NUM_LITS 100000 (· >>> 1) (state.o2LitCounts o2Ctx)
      (state.o2LitFenwick o2Ctx) (state.o2LitTotals o2Ctx) (byte.toNat - 2))

/-- The additions of one use fit 32-bit words. -/
def Fits (state : NeuralSsmPredictor arith) : CodingStep → Prop
  | .predict =>
      ScanFits NUM_LITS (state.rle.litCounts state.rle.ctx) ∧
        ScanFits NUM_LITS (state.o2LitCounts (o2Context state.prevByte state.prevPrevByte))
  | .query byte => 2 ≤ byte.toNat →
      DescentFits (state.rle.litCounts state.rle.ctx) (state.rle.litFenwick state.rle.ctx)
          (byte.toNat - 2) ∧
        DescentFits (state.o2LitCounts (o2Context state.prevByte state.prevPrevByte))
          (state.o2LitFenwick (o2Context state.prevByte state.prevPrevByte)) (byte.toNat - 2)
  | .decode freq =>
      SearchFits (fun sums => sums.1 < 2 ^ 32 ∧ sums.2 < 2 ^ 32)
        (fun node => (state.rle.litFenwick state.rle.ctx node,
          state.o2LitFenwick (o2Context state.prevByte state.prevPrevByte) node))
        state.stepParams.litBoundary NUM_LITS freq
        { low := 0, sum := (0, 0)
          lowValue := quantizedBoundary state.stepParams.w01 state.stepParams.total 2
          highValue := PROB_TOTAL }
  | .update byte => state.CountsByte byte ∧ state.step + 1 < 2 ^ 32

variable {state : NeuralSsmPredictor arith}

/-- The two-byte counts are bounded words. -/
theorem LearnedRoomy.o2_bounded (roomy : LearnedRoomy state.toSsmState) {ctx : Nat}
    (inside : ctx < NUM_O2_CTX) :
    CountWords.Bounded NUM_LITS (state.o2LitCounts ctx) (state.o2LitFenwick ctx)
      (state.o2LitTotals ctx) where
  represents := (roomy.wellFormed.o2 ctx inside).represents
  total_eq := (roomy.wellFormed.o2 ctx inside).total_eq
  total_lt := by
    have bounded := roomy.o2 ctx inside
    have limit : MAX_O2_TOTAL = 50800000 := rfl
    omega

theorem LearnedRoomy.rebuildFits (roomy : LearnedRoomy state.toSsmState) : state.RebuildFits :=
  ⟨roomy.rle.rebuildFits, fun _ inside => (roomy.o2_bounded inside).build⟩

/-- A byte is counted without overflow. -/
theorem LearnedRoomy.countsByte (roomy : LearnedRoomy state.toSsmState) (byte : UInt8) :
    state.CountsByte byte :=
  ⟨roomy.rle.countsByte byte, fun _ =>
    (roomy.o2_bounded (o2Context_lt _ _)).countFits 100000 (RlePredictor.literal_lt byte)
      fun _ _ => RlePredictor.halved_le _⟩

/-- Every use but an update fits. -/
theorem LearnedRoomy.fits (roomy : LearnedRoomy state.toSsmState) {step : CodingStep}
    (reads : ∀ byte, step ≠ .update byte) : state.Fits step := by
  have rle := roomy.rle.lits_bounded roomy.rle.wellFormed.ctx_lt
  have o2 := roomy.o2_bounded (o2Context_lt state.prevByte state.prevPrevByte)
  cases step with
  | predict => exact ⟨rle.scan, o2.scan⟩
  | query byte =>
      have inside := RlePredictor.literal_lt byte
      exact fun _ => ⟨rle.descentFits inside, o2.descentFits inside⟩
  | decode freq =>
      rw [Fits]
      refine searchFits_of_sums _ freq (rle.represents.prod o2.represents) (Nat.le_succ _)
        (.zero (by decide)) fun position below => ?_
      rw [Prod.fst_sum, Prod.snd_sum, ← Order0Model.cumulative_eq_sum,
        ← Order0Model.cumulative_eq_sum]
      exact ⟨Nat.lt_of_succ_lt (rle.cumulative_lt below.le),
        Nat.lt_of_succ_lt (o2.cumulative_lt below.le)⟩
  | update byte => exact absurd rfl (reads byte)

/-- **A run fits exactly as long as the step counter does.** -/
theorem LearnedRoomy.runFits_iff (roomy : LearnedRoomy state.toSsmState)
    (step_lt : state.step < 2 ^ 32) (steps : List CodingStep) :
    RunFits Fits state steps ↔ state.step + updates steps < 2 ^ 32 := by
  induction steps generalizing state with
  | nil => exact iff_of_true trivial step_lt
  | cons first steps recurse =>
      rw [RunFits]
      have reading {next : NeuralSsmPredictor arith} (reads : ∀ byte, first ≠ .update byte)
          (next_eq : first.run state = next) (learned : next.toSsmState = state.toSsmState)
          (same : updates (first :: steps) = updates steps) :
          state.Fits first ∧ RunFits Fits (first.run state) steps ↔
            state.step + updates (first :: steps) < 2 ^ 32 := by
        have nextStep : next.step = state.step := congrArg SsmState.step learned
        have rest := recurse (learned ▸ roomy) (nextStep ▸ step_lt)
        rw [next_eq, and_iff_right (roomy.fits reads), rest, same, nextStep]
      cases first with
      | predict => exact reading nofun rfl rfl rfl
      | query byte => exact reading nofun rfl rfl rfl
      | decode freq => exact reading nofun rfl rfl rfl
      | update byte =>
          have next : (CodingStep.update byte).run state = state.update byte := rfl
          have counts := roomy.countsByte byte
          rw [next, Fits, updates]
          constructor
          · rintro ⟨⟨-, room⟩, rest⟩
            have stepped : (state.update byte).step = state.step + 1 := Nat.mod_eq_of_lt room
            rw [recurse (roomy.update byte) (stepped ▸ room), stepped] at rest
            omega
          · intro below
            have room : state.step + 1 < 2 ^ 32 := by omega
            have stepped : (state.update byte).step = state.step + 1 := Nat.mod_eq_of_lt room
            refine ⟨⟨counts, room⟩, (recurse (roomy.update byte) (stepped ▸ room)).mpr ?_⟩
            rw [stepped]
            omega

/-- What an accepted state holds fits, for as long as its step counter does. -/
theorem loadState_fits_iff {loaded : NeuralSsmPredictor arith} {data : Bytes}
    (inUse : state.InUse) (accepted : state.loadState data = (true, loaded))
    (steps : List CodingStep) :
    loaded.RebuildFits ∧ RunFits Fits loaded steps ↔
      storedStep state.cfg.d data + updates steps < 2 ^ 32 := by
  have roomy := (inUse.loadState data).roomy.learned
  rw [accepted] at roomy
  obtain ⟨stored, step_lt⟩ := step_of_loadState accepted
  rw [and_iff_right roomy.rebuildFits, roomy.runFits_iff step_lt, stored]

/-- After a baseline, coding fits its words exactly while the step counter has room. -/
theorem setDictBaseline_fits_iff {installed : NeuralSsmPredictor arith} {data : Bytes}
    (inUse : state.InUse) (accepted : state.setDictBaseline data = (true, installed))
    (steps : List CodingStep) :
    installed.RebuildFits ∧ RunFits Fits installed steps ↔
      storedStep state.cfg.d data + updates steps < 2 ^ 32 := by
  have roomy := (inUse.setDictBaseline data).roomy.learned
  rw [accepted] at roomy
  obtain ⟨loaded, found, rfl⟩ := setDictBaseline_accepted accepted
  obtain ⟨stored, step_lt⟩ := step_of_loadState found
  rw [and_iff_right roomy.rebuildFits, roomy.runFits_iff step_lt, stored]

end NeuralSsmPredictor

/-- **What accepted states can count to**: the additions of any run fit their words, but for the
step counter of the neural predictor, which fits exactly while the stored counter and the symbols
of the run do. -/
theorem loadedStates_fit_iff (arith : SsmArithmetic) (formats : FloatFormats) (data : Bytes)
    (steps : List CodingStep) :
    (∀ state loaded : NeuralSsmPredictor arith, state.InUse →
      state.loadState data = (true, loaded) ∨ state.setDictBaseline data = (true, loaded) →
      (loaded.RebuildFits ∧ RunFits NeuralSsmPredictor.Fits loaded steps ↔
        NeuralSsmPredictor.storedStep state.cfg.d data + updates steps < 2 ^ 32)) ∧
      (∀ model loaded : RlePredictor, model.loadState data = (true, loaded) →
        loaded.RebuildFits ∧
          @RunFits _ (RlePredictor.predictor formats) (RlePredictor.Fits formats) loaded steps) ∧
      ∀ model loaded : Order0Model, model.loadState data = (true, loaded) →
        BuildFits 256 loaded.counts ∧ RunFits Order0Model.Fits loaded steps := by
  refine ⟨fun state loaded inUse accepted => ?_, fun model loaded accepted => ?_,
    fun model loaded accepted => ?_⟩
  · rcases accepted with accepted | accepted
    · exact NeuralSsmPredictor.loadState_fits_iff inUse accepted steps
    · exact NeuralSsmPredictor.setDictBaseline_fits_iff inUse accepted steps
  · have roomy := RlePredictor.roomy_of_loadState accepted
    exact ⟨roomy.rebuildFits, roomy.runFits formats steps⟩
  · have wellFormed := Order0Model.loadState_wellFormed accepted
    exact ⟨wellFormed.counted.build, wellFormed.runFits steps⟩

namespace NeuralSsmPredictor

/-- A new predictor accepts a saved state without observations, whatever its step counter. -/
theorem loadState_savedZeros {step : Nat} (small : step < 2 ^ 32) :
    let state : NeuralSsmPredictor (.exact flatFunctions) := new
    let data := savedZeros 32 step (RlePredictor.savedZeros 0) []
    ∃ loaded, state.loadState data = (true, loaded) ∧ loaded.step = step ∧
      storedStep 32 data = step := by
  have accepted := RlePredictor.acceptsState_zeros 0
  have length := RlePredictor.length_savedZeros 0
  generalize RlePredictor.savedZeros 0 = nested at accepted length ⊢
  intro state data
  obtain ⟨parsed, parse, stepEq⟩ := parseState_savedZeros readsZero_flat
    (show 32 ≤ NeuralSsm.D_MAX by decide) state.rle step (show nested.length < 2 ^ 32 by omega) []
  rw [Nat.mod_eq_of_lt small] at stepEq
  have known := parseState_eq_some parse
  rw [List.append_nil] at parse
  exact ⟨_, loadState_eq_of_complete parse (by omega) accepted, stepEq,
    known.step_eq.symm.trans stepEq⟩

end NeuralSsmPredictor

open NeuralSsmPredictor (flatFunctions)

/-- The run after loading a saved state of zero counts fits its words. -/
theorem loadedStates_fit_savedZeros :
    let state : NeuralSsmPredictor (.exact flatFunctions) := .new
    let data := NeuralSsmPredictor.savedZeros 32 5 (RlePredictor.savedZeros 0) []
    ∃ loaded, state.loadState data = (true, loaded) ∧ loaded.RebuildFits ∧
      RunFits NeuralSsmPredictor.Fits loaded [.query 7, .update 7, .predict, .update 0] := by
  obtain ⟨loaded, accepted, -, stored⟩ :=
    NeuralSsmPredictor.loadState_savedZeros (show 5 < 2 ^ 32 by decide)
  generalize NeuralSsmPredictor.savedZeros 32 5 _ [] = data at accepted stored ⊢
  refine ⟨loaded, accepted, ?_⟩
  have inUse : (NeuralSsmPredictor.new : NeuralSsmPredictor (.exact flatFunctions)).InUse :=
    .withConfig {}
  have dimension : (NeuralSsmPredictor.new : NeuralSsmPredictor (.exact flatFunctions)).cfg.d =
    32 := rfl
  have fits := loadedStates_fit_iff (.exact flatFunctions) (SsmArithmetic.toFloatFormats
    (.exact flatFunctions)) data [.query 7, .update 7, .predict, .update 0]
  apply (fits.1 _ _ inUse (.inl accepted)).mpr
  rw [dimension, stored]
  decide

/-- The largest step counter is accepted, and the first symbol exceeds it. -/
theorem loadState_exhaustsStep :
    let state : NeuralSsmPredictor (.exact flatFunctions) := .new
    let data := NeuralSsmPredictor.savedZeros 32 (2 ^ 32 - 1) (RlePredictor.savedZeros 0) []
    ∃ loaded, state.loadState data = (true, loaded) ∧
      (∃ installed, state.setDictBaseline data = (true, installed) ∧
        ¬RunFits NeuralSsmPredictor.Fits installed [.update 0]) ∧
      ¬RunFits NeuralSsmPredictor.Fits loaded [.update 0] := by
  obtain ⟨loaded, accepted, step, -⟩ :=
    NeuralSsmPredictor.loadState_savedZeros (show 2 ^ 32 - 1 < 2 ^ 32 by decide)
  refine ⟨loaded, accepted, ⟨_, by rw [NeuralSsmPredictor.setDictBaseline, accepted], ?_⟩, ?_⟩
  · rintro ⟨⟨-, room⟩, -⟩
    have held : loaded.step + 1 < 2 ^ 32 := room
    rw [step] at held
    exact absurd held (by decide)
  · rintro ⟨⟨-, room⟩, -⟩
    rw [step] at room
    exact absurd room (by decide)

end AetherArch
