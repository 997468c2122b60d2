import AetherArch.Entropy.ContextMixer
import AetherArch.Entropy.NeuralSsmStates

/-! # States that are not loaded

A predictor that rejects a saved state is what it was before, with one exception: the neural
predictor has taken over the nested context-class state when it finds bytes after it.
-/

namespace AetherArch

/-- Rejected counts leave the model as it was. -/
theorem Order0Model.loadState_rejected {model : Order0Model} {data : Bytes}
    (rejected : (model.loadState data).1 = false) : (model.loadState data).2 = model := by
  revert rejected
  fun_cases Order0Model.loadState model data with
  | case1 => exact fun _ => rfl
  | case2 => exact fun _ => rfl
  | case3 => exact fun _ => rfl
  | case4 => exact fun _ => rfl
  | case5 => exact fun rejected => nomatch rejected

namespace RlePredictor

/-- Whether a saved state is accepted. -/
def acceptsState : Bytes → Bool
  | 1 :: data =>
      decide (data.length = NUM_CONTEXTS * PER_CTX + 1) &&
        (List.range NUM_CONTEXTS).all (acceptsContext data)
  | _ => false

/-- The predictor a saved state holds. -/
def storedState (saved : Bytes) : RlePredictor :=
  let data := saved.tail
  let ctx := (data.getD (NUM_CONTEXTS * PER_CTX) 0).toNat
  { runVsLit := fun i => storedBinary data (i * PER_CTX)
    runaVsRunb := fun i => storedBinary data (i * PER_CTX + 8)
    litCounts := storedLits data
    litFenwick := fun i => fenwick254Rebuild (storedLits data i)
    litTotals := storedTotal data
    ctx := if ctx ≥ NUM_CONTEXTS then 0 else ctx }

/-- Loading takes over what an accepted state holds, and else nothing. -/
theorem loadState_eq (model : RlePredictor) (data : Bytes) :
    model.loadState data =
      if acceptsState data = true then (true, storedState data) else (false, model) := by
  fun_cases RlePredictor.loadState model data with
  | case1 data short =>
      rw [acceptsState, decide_eq_false short, Bool.false_and, if_neg Bool.false_ne_true]
  | case2 data size accepted =>
      rw [acceptsState, decide_eq_true (not_not.mp size), accepted, Bool.true_and, if_pos rfl]
      rfl
  | case3 data size refused =>
      rw [acceptsState, Bool.eq_false_iff.mpr refused, Bool.and_false, if_neg Bool.false_ne_true]
  | case4 data other =>
      rw [acceptsState.eq_def]
      split
      · rename_i data
        exact absurd rfl (other data)
      · rw [if_neg Bool.false_ne_true]

/-- A rejected state leaves the predictor as it was. -/
theorem loadState_rejected {model : RlePredictor} {data : Bytes}
    (rejected : (model.loadState data).1 = false) : (model.loadState data).2 = model := by
  rw [loadState_eq] at rejected ⊢
  split
  · rename_i accepted
    rw [if_pos accepted] at rejected
    cases rejected
  · rfl

/-- Two predictors agree in every entry of their tables. -/
structure SameState (first second : RlePredictor) : Prop where
  runVsLit (ctx : Nat) : ctx < NUM_CONTEXTS → first.runVsLit ctx = second.runVsLit ctx
  runaVsRunb (ctx : Nat) : ctx < NUM_CONTEXTS → first.runaVsRunb ctx = second.runaVsRunb ctx
  litCounts (ctx lit : Nat) : ctx < NUM_CONTEXTS → lit < NUM_LITS →
    first.litCounts ctx lit = second.litCounts ctx lit
  litFenwick (ctx node : Nat) : ctx < NUM_CONTEXTS → 0 < node → node ≤ NUM_LITS →
    first.litFenwick ctx node = second.litFenwick ctx node
  litTotals (ctx : Nat) : ctx < NUM_CONTEXTS → first.litTotals ctx = second.litTotals ctx
  ctx : first.ctx = second.ctx

/-- A predictor agrees with itself. -/
theorem SameState.refl (model : RlePredictor) : SameState model model where
  runVsLit _ _ := rfl
  runaVsRunb _ _ := rfl
  litCounts _ _ _ _ := rfl
  litFenwick _ _ _ _ _ := rfl
  litTotals _ _ := rfl
  ctx := rfl

end RlePredictor

namespace NeuralSsmPredictor

open RlePredictor (acceptsState storedState)

variable {arith : SsmArithmetic}

/-- Two predictors agree in every entry of their tables. -/
def SameState (first second : NeuralSsmPredictor arith) : Prop :=
  second = { first with rle := second.rle } ∧ first.rle.SameState second.rle

theorem SameState.refl (state : NeuralSsmPredictor arith) : SameState state state :=
  ⟨rfl, RlePredictor.SameState.refl state.rle⟩

/-- A saved state is complete up to its context-class state, which is acceptable and another one
than the predictor's, and goes on after it. -/
def CommitsEarly (state : NeuralSsmPredictor arith) (data : Bytes) : Prop :=
  ∃ parsed rleLen rest,
    @parseState arith state.cfg.d state.rle data = some (parsed, rleLen, rest) ∧
    0 < rleLen ∧ rleLen < rest.length ∧ acceptsState (rest.take rleLen) = true ∧
    ¬state.rle.SameState (storedState (rest.take rleLen))

/-- Only the early commit changes a predictor that rejects a state. -/
theorem loadState_sameState_iff {state : NeuralSsmPredictor arith} {data : Bytes}
    (rejected : (state.loadState data).1 = false) :
    state.SameState (state.loadState data).2 ↔ ¬state.CommitsEarly data := by
  have unchanged (same : (state.loadState data).2 = state) (late : ¬state.CommitsEarly data) :
      state.SameState (state.loadState data).2 ↔ ¬state.CommitsEarly data := by
    rw [same]
    exact iff_of_true (SameState.refl state) late
  revert rejected unchanged
  rw [loadState]
  split
  · rename_i unparsed
    intro _ unchanged
    refine unchanged rfl ?_
    rintro ⟨parsed, rleLen, rest, found, -⟩
    rw [unparsed] at found
    cases found
  · rename_i parsed rleLen rest success
    have early : state.CommitsEarly data ↔ 0 < rleLen ∧ rleLen < rest.length ∧
        acceptsState (rest.take rleLen) = true ∧
        ¬state.rle.SameState (storedState (rest.take rleLen)) := by
      constructor
      · rintro ⟨parsed', rleLen', rest', found, commits⟩
        rw [success] at found
        cases found
        exact commits
      · exact fun commits => ⟨parsed, rleLen, rest, success, commits⟩
    rw [RlePredictor.loadState_eq]
    split
    · rename_i nested
      split
      · rename_i long
        intro _ unchanged
        refine unchanged rfl fun commits => ?_
        exact absurd (early.mp commits).2.1 (by omega)
      · rename_i fits
        by_cases accepted : acceptsState (rest.take rleLen) = true
        · rw [if_pos accepted]
          dsimp only
          split
          · rename_i trailing
            intro _ _
            have inside : rleLen < rest.length := by omega
            rw [early]
            constructor
            · rintro ⟨-, same⟩ ⟨-, -, -, other⟩
              exact other same
            · intro same
              refine ⟨rfl, ?_⟩
              by_contra other
              exact same ⟨nested, inside, accepted, other⟩
          · intro rejected
            cases rejected
        · rw [if_neg accepted]
          intro _ unchanged
          exact unchanged rfl fun commits => accepted (early.mp commits).2.2.1
    · rename_i absent
      split
      · intro _ unchanged
        exact unchanged rfl fun commits => absent (early.mp commits).1
      · intro rejected
        cases rejected

/-- An accepted state is parsed to its end, with or without a context-class part. -/
theorem loadState_accepted {state loaded : NeuralSsmPredictor arith} {data : Bytes}
    (accepted : state.loadState data = (true, loaded)) :
    ∃ parsed rest, @parseState arith state.cfg.d state.rle data =
        some (parsed, storedNestedLength state.cfg.d data, rest) ∧
      (storedNestedLength state.cfg.d data = 0 ∧ rest = [] ∧
          loaded = { state with toSsmState := parsed } ∨
        0 < storedNestedLength state.cfg.d data ∧
          loaded = { state with toSsmState := { parsed with rle := storedState rest } }) := by
  rw [loadState] at accepted
  split at accepted
  · cases accepted
  · rename_i parsed rleLen rest success
    obtain ⟨-, rfl, -⟩ := parseState_spec success
    refine ⟨parsed, rest, success, ?_⟩
    rw [RlePredictor.loadState_eq] at accepted
    split at accepted
    · rename_i nested
      refine .inr ⟨nested, ?_⟩
      split at accepted
      · cases accepted
      · split at accepted
        · cases accepted
        · rename_i loadedRle found
          split at accepted
          · cases accepted
          · rename_i complete
            rw [not_not.mp complete, List.take_length] at found
            split at found
            · cases found
              cases accepted
              rfl
            · cases found
    · rename_i absent
      refine .inl ⟨Nat.eq_zero_of_not_pos absent, ?_⟩
      split at accepted
      · cases accepted
      · rename_i complete
        cases accepted
        exact ⟨List.length_eq_zero_iff.mp (not_not.mp complete), rfl⟩

/-- A nested state that is acceptable is taken over although the bytes go on. -/
theorem loadState_eq_of_early {state : NeuralSsmPredictor arith} {data rest : Bytes}
    {parsed : SsmState arith.toFloatFormats} {rleLen : Nat}
    (success : @parseState arith state.cfg.d state.rle data = some (parsed, rleLen, rest))
    (positive : 0 < rleLen) (inside : rleLen < rest.length)
    (accepted : acceptsState (rest.take rleLen) = true) :
    state.loadState data = (false, { state with rle := storedState (rest.take rleLen) }) := by
  rw [loadState, success]
  dsimp only
  rw [if_pos positive, if_neg (by omega), RlePredictor.loadState_eq, if_pos accepted]
  dsimp only
  rw [if_pos inside.ne]

/-- A saved state that ends with an acceptable nested state is accepted. -/
theorem loadState_eq_of_complete {state : NeuralSsmPredictor arith} {data nested : Bytes}
    {parsed : SsmState arith.toFloatFormats}
    (success : @parseState arith state.cfg.d state.rle data = some (parsed, nested.length, nested))
    (positive : 0 < nested.length) (accepted : acceptsState nested = true) :
    state.loadState data =
      (true, { state with toSsmState := { parsed with rle := storedState nested } }) := by
  rw [loadState, success]
  dsimp only
  rw [if_pos positive, if_neg (lt_irrefl _), List.take_length, RlePredictor.loadState_eq,
    if_pos accepted]
  dsimp only
  rw [if_neg (not_not.mpr rfl)]

/-- A saved state that ends with a nested state that is not acceptable is rejected. -/
theorem loadState_eq_of_refused {state : NeuralSsmPredictor arith} {data nested : Bytes}
    {parsed : SsmState arith.toFloatFormats}
    (success : @parseState arith state.cfg.d state.rle data = some (parsed, nested.length, nested))
    (positive : 0 < nested.length) (refused : acceptsState nested = false) :
    state.loadState data = (false, state) := by
  rw [loadState, success]
  dsimp only
  rw [if_pos positive, if_neg (lt_irrefl _), List.take_length, RlePredictor.loadState_eq, refused,
    if_neg Bool.false_ne_true]

/-- Nothing goes on after a saved state that ends with its nested state. -/
theorem not_commitsEarly_of_complete {state : NeuralSsmPredictor arith} {data nested : Bytes}
    {parsed : SsmState arith.toFloatFormats}
    (success :
      @parseState arith state.cfg.d state.rle data = some (parsed, nested.length, nested)) :
    ¬state.CommitsEarly data := by
  rintro ⟨_, rleLen, rest, found, -, inside, -⟩
  rw [success] at found
  cases found
  exact lt_irrefl _ inside

/-- A baseline that cannot be loaded is not installed. -/
theorem setDictBaseline_eq_of_refused {state : NeuralSsmPredictor arith} {data : Bytes}
    (refused : state.loadState data = (false, state)) :
    state.setDictBaseline data = (false, state) := by
  rw [setDictBaseline, refused]

/-- A baseline is rejected with the state it holds. -/
theorem setDictBaseline_rejected {state : NeuralSsmPredictor arith} {data : Bytes}
    (rejected : (state.setDictBaseline data).1 = false) :
    (state.loadState data).1 = false ∧
      (state.setDictBaseline data).2 = (state.loadState data).2 := by
  rw [setDictBaseline] at rejected ⊢
  split
  · rename_i refused
    rw [refused]
    exact ⟨rfl, rfl⟩
  · rename_i accepted
    rw [accepted] at rejected
    cases rejected

end NeuralSsmPredictor

/-! ## Saved states without observations -/

/-- Words that are zero. -/
def zeroWords (count : Nat) : Bytes := List.replicate (count * 4) 0

theorem length_zeroWords (count : Nat) : (zeroWords count).length = count * 4 :=
  List.length_replicate

theorem zeroWords_add (first second : Nat) :
    zeroWords (first + second) = zeroWords first ++ zeroWords second := by
  rw [zeroWords, zeroWords, zeroWords, Nat.add_mul, List.replicate_add]

namespace RlePredictor

/-- The saved state of a predictor that has counted nothing, in a context class. -/
def savedZeros (ctx : UInt8) : Bytes := 1 :: (zeroWords (NUM_CONTEXTS * (PER_CTX / 4)) ++ [ctx])

theorem length_savedZeros (ctx : UInt8) : (savedZeros ctx).length = 3110 := by
  rw [savedZeros, List.length_cons, List.length_append, length_zeroWords, List.length_singleton]
  decide

/-- The words at the front are zero. -/
theorem storedU32_zeros {count off : Nat} (rest : Bytes) (inside : off + 4 ≤ count * 4) :
    storedU32 (zeroWords count ++ rest) off = 0 := by
  have long : off ≤ (zeroWords count).length := by
    rw [length_zeroWords]
    omega
  rw [storedU32, List.drop_append_of_le_length long, zeroWords, List.drop_replicate,
    List.take_append_of_le_length (by rw [List.length_replicate]; omega), List.take_replicate,
    Nat.min_eq_left (by omega)]
  rfl

/-- Literal counts of zero add up to zero. -/
theorem cumulative_storedLits_zeros {count i : Nat} (rest : Bytes)
    (inside : i * PER_CTX + 16 + NUM_LITS * 4 ≤ count * 4) :
    Order0Model.cumulative (storedLits (zeroWords count ++ rest) i) NUM_LITS = 0 := by
  have counts {lit : Nat} (literal : lit < NUM_LITS) :
      storedLits (zeroWords count ++ rest) i lit = 0 := by
    rw [storedLits]
    exact storedU32_zeros rest (by omega)
  have le := @Order0Model.cumulative_le _ (fun _ => 0) NUM_LITS fun lit literal =>
    (counts literal).le
  rw [Order0Model.cumulative_const, Nat.mul_zero] at le
  exact Nat.le_zero.mp le

/-- A context whose words are all zero is accepted. -/
theorem acceptsContext_zeros {count i : Nat} (rest : Bytes)
    (inside : (i + 1) * PER_CTX ≤ count * 4) :
    acceptsContext (zeroWords count ++ rest) i = true := by
  have words : PER_CTX = 1036 := by decide
  have lits : NUM_LITS = 254 := rfl
  rw [words] at inside
  have binary {off : Nat} (within : off + 8 ≤ count * 4) :
      acceptsBinary (storedBinary (zeroWords count ++ rest) off) = true := by
    rw [storedBinary, storedU32_zeros rest (by omega), storedU32_zeros rest (by omega)]
    decide
  have total : storedTotal (zeroWords count ++ rest) i = 0 := by
    rw [storedTotal]
    exact storedU32_zeros rest (by rw [words]; omega)
  rw [acceptsContext, binary (by rw [words]; omega), binary (by rw [words]; omega),
    cumulative_storedLits_zeros rest (by rw [words]; omega), total, Bool.true_and,
    Bool.true_and, Bool.and_eq_true, List.all_eq_true]
  refine ⟨fun lit member => ?_, by decide⟩
  have literal := List.mem_range.mp member
  rw [storedLits, storedU32_zeros rest (by rw [words]; omega)]
  decide

/-- A saved state without observations is accepted. -/
theorem acceptsState_zeros (ctx : UInt8) : acceptsState (savedZeros ctx) = true := by
  rw [savedZeros, acceptsState, Bool.and_eq_true]
  refine ⟨?_, List.all_eq_true.mpr fun i member =>
    acceptsContext_zeros [ctx] ?_⟩
  · rw [List.length_append, length_zeroWords, List.length_singleton]
    decide
  · exact Nat.mul_le_mul_right PER_CTX (List.mem_range.mp member)

/-- A context class out of range is read as the first one. -/
theorem ctx_savedZeros (ctx : UInt8) :
    (storedState (savedZeros ctx)).ctx = if ctx.toNat ≥ NUM_CONTEXTS then 0 else ctx.toNat := by
  have size : (zeroWords (NUM_CONTEXTS * (PER_CTX / 4))).length = NUM_CONTEXTS * PER_CTX := by
    rw [length_zeroWords]
    decide
  have last : (zeroWords (NUM_CONTEXTS * (PER_CTX / 4)) ++ [ctx]).getD (NUM_CONTEXTS * PER_CTX) 0 =
      ctx := by
    rw [List.getD_eq_getElem?_getD, List.getElem?_append_right size.le, size, Nat.sub_self]
    rfl
  rw [savedZeros, storedState, List.tail_cons]
  dsimp only
  rw [last]

/-- The saved state of a predictor that has counted nothing but for the total of its last
context, which is one too high. -/
def savedWrongTotal : Bytes :=
  1 :: (zeroWords (NUM_CONTEXTS * (PER_CTX / 4) - 1) ++ [1, 0, 0, 0, 1])

theorem length_savedWrongTotal : savedWrongTotal.length = 3110 := by
  rw [savedWrongTotal, List.length_cons, List.length_append, length_zeroWords]
  decide

/-- Every context but the last is accepted, and so are all counts of the last one. -/
theorem acceptsContext_savedWrongTotal {i : Nat} (inside : i < 2) :
    acceptsContext savedWrongTotal.tail i = true := by
  rw [savedWrongTotal, List.tail_cons]
  have words : PER_CTX = 1036 := by decide
  have contexts : NUM_CONTEXTS = 3 := rfl
  exact acceptsContext_zeros _ (by rw [words, contexts]; omega)

/-- The last check of the last context rejects the state. -/
theorem acceptsState_savedWrongTotal : acceptsState savedWrongTotal = false := by
  have stored : storedTotal savedWrongTotal.tail 2 = 1 := by
    have offset : 2 * PER_CTX + 16 + NUM_LITS * 4 =
        (zeroWords (NUM_CONTEXTS * (PER_CTX / 4) - 1)).length := by
      rw [length_zeroWords]
      decide
    rw [savedWrongTotal, List.tail_cons, storedTotal, storedU32, offset, List.drop_left]
    decide
  have counted : Order0Model.cumulative (storedLits savedWrongTotal.tail 2) NUM_LITS = 0 := by
    rw [savedWrongTotal, List.tail_cons]
    exact cumulative_storedLits_zeros _ (by decide)
  have refused : acceptsContext savedWrongTotal.tail 2 = false := by
    rw [acceptsContext, stored, counted]
    exact Bool.and_false _
  rw [savedWrongTotal, List.tail_cons] at refused
  rw [savedWrongTotal, acceptsState, Bool.and_eq_false_iff]
  refine .inr (List.all_eq_false.mpr ⟨2, List.mem_range.mpr (by decide), ?_⟩)
  rw [Bool.not_eq_true]
  exact refused

end RlePredictor

namespace NeuralSsmPredictor

open NeuralSsm

variable {arith : SsmArithmetic}

/-- The bit pattern zero denotes a number within every bound. -/
structure ReadsZero (arith : SsmArithmetic) : Prop where
  finite : arith.single.isFinite (arith.single.ofBits 0) = true
  weight : FloatFormat.abs (arith.single.ofBits 0) ≤ WEIGHT_BOUND arith
  hidden : FloatFormat.abs (arith.single.ofBits 0) ≤ HIDDEN_BOUND arith

/-- A word is read back from its bytes. -/
theorem readU32_toLittleEndian (n : Nat) (rest : Bytes) :
    readU32 (Numeral.toLittleEndian 4 n ++ rest) = some (n % 2 ^ 32, rest) := by
  have length : (Numeral.toLittleEndian 4 n).length = 4 := Numeral.length_toLittleEndian 4 n
  rw [readU32, if_neg (by rw [List.length_append]; omega), List.take_left' length,
    List.drop_left' length, Numeral.littleEndian_toLittleEndian]
  rfl

theorem readU32_zero (rest : Bytes) : readU32 (zeroWords 1 ++ rest) = some (0, rest) :=
  readU32_toLittleEndian 0 rest

/-- A zero word is read as a finite number. -/
theorem readFiniteF32_zero (reads : ReadsZero arith) (rest : Bytes) :
    @readFiniteF32 arith (zeroWords 1 ++ rest) = some (arith.single.ofBits 0, rest) := by
  rw [readFiniteF32, readU32_zero]
  exact if_pos reads.finite

/-- A zero word is read as a number within any bound above zero. -/
theorem readBoundedF32_zero (reads : ReadsZero arith) {bound : arith.F32}
    (within : FloatFormat.abs (arith.single.ofBits 0) ≤ bound) (rest : Bytes) :
    readBoundedF32 (zeroWords 1 ++ rest) bound = some (arith.single.ofBits 0, rest) := by
  rw [readBoundedF32, readFiniteF32_zero reads]
  exact if_pos within

/-- A row of zero words can be read. -/
theorem readRow_zeros (reads : ReadsZero arith) {bound : arith.F32}
    (within : FloatFormat.abs (arith.single.ofBits 0) ≤ bound) (count : Nat) (rest : Bytes) :
    ∃ row, readRow bound count (zeroWords count ++ rest) = some (row, rest) := by
  induction count generalizing rest with
  | zero => exact ⟨_, rfl⟩
  | succ count ih =>
      obtain ⟨row, read⟩ := ih (zeroWords 1 ++ rest)
      rw [readRow, zeroWords_add, List.append_assoc, read]
      dsimp only [Option.bind_eq_bind, Option.bind_some]
      rw [readBoundedF32_zero reads within]
      exact ⟨_, rfl⟩

/-- Zero words are read as zero counts. -/
theorem readCounts_zeros (count : Nat) (rest : Bytes) :
    readCounts count (zeroWords count ++ rest) = some (fun _ => 0, rest) := by
  induction count generalizing rest with
  | zero => rfl
  | succ count ih =>
      rw [readCounts, zeroWords_add, List.append_assoc, ih]
      dsimp only [Option.bind_eq_bind, Option.bind_some]
      rw [readU32_zero]
      dsimp only [Option.bind_some]
      rw [if_neg (Nat.not_lt_zero _), Function.update_eq_self]

/-- Contexts of zero words are read as zero counts. -/
theorem readContexts_zeros (count : Nat) (rest : Bytes) :
    readContexts count (zeroWords (count * NUM_LITS) ++ rest) = some (fun _ _ => 0, rest) := by
  induction count generalizing rest with
  | zero =>
      rw [Nat.zero_mul]
      rfl
  | succ count ih =>
      rw [readContexts, Nat.add_mul, Nat.one_mul, zeroWords_add, List.append_assoc, ih]
      dsimp only [Option.bind_eq_bind, Option.bind_some]
      rw [readCounts_zeros]
      dsimp only [Option.bind_some]
      rw [Function.update_eq_self]

/-- Zero counts have zero totals. -/
theorem readTotals_zeros (count : Nat) (rest : Bytes) :
    readTotals (fun _ _ => 0) count (zeroWords count ++ rest) = some (fun _ => 0, rest) := by
  induction count generalizing rest with
  | zero => rfl
  | succ count ih =>
      rw [readTotals, zeroWords_add, List.append_assoc, ih]
      dsimp only [Option.bind_eq_bind, Option.bind_some]
      rw [readU32_zero]
      dsimp only [Option.bind_some]
      rw [Order0Model.cumulative_const, Nat.mul_zero, if_neg (by simp), Function.update_eq_self]

/-- A saved state that has counted nothing up to its context-class state, with a step counter. -/
def savedZeros (d step : Nat) (nested trailing : Bytes) : Bytes :=
  1 :: (Numeral.toLittleEndian 4 d ++ (zeroWords d ++ (zeroWords d ++ (zeroWords 1 ++
    (zeroWords d ++ (zeroWords 1 ++ (zeroWords 1 ++ (zeroWords 1 ++
    (zeroWords (NUM_O2_CTX * NUM_LITS) ++ (zeroWords NUM_O2_CTX ++ (0 :: 0 ::
    (Numeral.toLittleEndian 4 step ++ (Numeral.toLittleEndian 4 nested.length ++
    (nested ++ trailing))))))))))))))

/-- A saved state whose parts can all be read is parsed. -/
theorem parseState_of_reads {d step length : Nat} {rle : RlePredictor} {prev prevPrev : UInt8}
    {h wRun wRuna : Nat → arith.F32} {bRun bRuna ssmPerf rlePerf : arith.F32}
    {contexts : Nat → Nat → Nat} {totals : Nat → Nat}
    {data afterD afterH afterRun afterRunBias afterRuna afterRunaBias afterSsm afterRle afterCounts
      afterStep rest : Bytes}
    (readD : readU32 data = some (d, afterD)) (small : d ≤ D_MAX)
    (long : minSize d ≤ (1 :: data).length)
    (readH : readRow (HIDDEN_BOUND arith) d afterD = some (h, afterH))
    (readRun : readRow (WEIGHT_BOUND arith) d afterH = some (wRun, afterRun))
    (readRunBias : readBoundedF32 afterRun (WEIGHT_BOUND arith) = some (bRun, afterRunBias))
    (readRuna : readRow (WEIGHT_BOUND arith) d afterRunBias = some (wRuna, afterRuna))
    (readRunaBias : readBoundedF32 afterRuna (WEIGHT_BOUND arith) = some (bRuna, afterRunaBias))
    (readSsm : readFiniteF32 afterRunaBias = some (ssmPerf, afterSsm))
    (readRle : readFiniteF32 afterSsm = some (rlePerf, afterRle))
    (readCounts : readContexts NUM_O2_CTX afterRle = some (contexts, afterCounts))
    (readTotal : readTotals contexts NUM_O2_CTX afterCounts =
      some (totals, prev :: prevPrev :: afterStep))
    {afterCounter : Bytes} (readStep : readU32 afterStep = some (step, afterCounter))
    (readLength : readU32 afterCounter = some (length, rest)) :
    @parseState arith d rle (1 :: data) = some (
      { rle := rle, h := h, wRun := wRun, bRun := bRun, wRuna := wRuna, bRuna := bRuna
        ssmPerf := ssmPerf, rlePerf := rlePerf, o2LitCounts := contexts
        o2LitFenwick := fun ctx => fenwick254Rebuild (contexts ctx), o2LitTotals := totals
        prevByte := prev, prevPrevByte := prevPrev, step := step }, length, rest) := by
  rw [parseState, readD]
  dsimp only [Option.bind_eq_bind, Option.bind_some]
  rw [if_neg (by omega), if_neg (by omega), readH]
  dsimp only [Option.bind_some]
  rw [readRun]
  dsimp only [Option.bind_some]
  rw [readRunBias]
  dsimp only [Option.bind_some]
  rw [readRuna]
  dsimp only [Option.bind_some]
  rw [readRunaBias]
  dsimp only [Option.bind_some]
  rw [readSsm]
  dsimp only [Option.bind_some]
  rw [readRle]
  dsimp only [Option.bind_some]
  rw [readCounts]
  dsimp only [Option.bind_some]
  rw [readTotal]
  dsimp only [Option.bind_some]
  rw [readStep]
  dsimp only [Option.bind_some]
  rw [readLength]
  rfl

/-- A saved state without observations is parsed up to its nested state. -/
theorem parseState_savedZeros (reads : ReadsZero arith) {d : Nat} (small : d ≤ D_MAX)
    (rle : RlePredictor) (step : Nat) {nested : Bytes} (short : nested.length < 2 ^ 32)
    (trailing : Bytes) :
    ∃ parsed, @parseState arith d rle (savedZeros d step nested trailing) =
        some (parsed, nested.length, nested ++ trailing) ∧ parsed.step = step % 2 ^ 32 := by
  have contexts : NUM_O2_CTX = 64 := rfl
  have lits : NUM_LITS = 254 := rfl
  have dMax : D_MAX = 32 := rfl
  have long : minSize d ≤ (savedZeros d step nested trailing).length := by
    simp only [savedZeros, List.length_cons, List.length_append, length_zeroWords,
      Numeral.length_toLittleEndian, minSize, contexts, lits]
    omega
  obtain ⟨h, readH⟩ := readRow_zeros reads reads.hidden d (zeroWords d ++ (zeroWords 1 ++
    (zeroWords d ++ (zeroWords 1 ++ (zeroWords 1 ++ (zeroWords 1 ++
    (zeroWords (NUM_O2_CTX * NUM_LITS) ++ (zeroWords NUM_O2_CTX ++ (0 :: 0 ::
    (Numeral.toLittleEndian 4 step ++ (Numeral.toLittleEndian 4 nested.length ++
    (nested ++ trailing))))))))))))
  obtain ⟨wRun, readRun⟩ := readRow_zeros reads reads.weight d (zeroWords 1 ++
    (zeroWords d ++ (zeroWords 1 ++ (zeroWords 1 ++ (zeroWords 1 ++
    (zeroWords (NUM_O2_CTX * NUM_LITS) ++ (zeroWords NUM_O2_CTX ++ (0 :: 0 ::
    (Numeral.toLittleEndian 4 step ++ (Numeral.toLittleEndian 4 nested.length ++
    (nested ++ trailing)))))))))))
  obtain ⟨wRuna, readRuna⟩ := readRow_zeros reads reads.weight d (zeroWords 1 ++ (zeroWords 1 ++
    (zeroWords 1 ++ (zeroWords (NUM_O2_CTX * NUM_LITS) ++ (zeroWords NUM_O2_CTX ++ (0 :: 0 ::
    (Numeral.toLittleEndian 4 step ++ (Numeral.toLittleEndian 4 nested.length ++
    (nested ++ trailing)))))))))
  have lengthRead : nested.length % 2 ^ 32 = nested.length := Nat.mod_eq_of_lt short
  have readLength := readU32_toLittleEndian nested.length (nested ++ trailing)
  rw [lengthRead] at readLength
  have readD (rest : Bytes) := readU32_toLittleEndian d rest
  rw [Nat.mod_eq_of_lt (show d < 2 ^ 32 by omega)] at readD
  exact ⟨_, parseState_of_reads (readD _) small long readH readRun
    (readBoundedF32_zero reads reads.weight _) readRuna
    (readBoundedF32_zero reads reads.weight _) (readFiniteF32_zero reads _)
    (readFiniteF32_zero reads _) (readContexts_zeros NUM_O2_CTX _) (readTotals_zeros NUM_O2_CTX _)
    (readU32_toLittleEndian step _) readLength, rfl⟩

/-- Zero is below every bound of the flat arithmetic. -/
theorem abs_flat_le {bound : ℚ} (nonneg : 0 ≤ bound) :
    @LE.le (SsmArithmetic.exact flatFunctions).F32 _ (FloatFormat.abs (FloatFormat.ofBits _ 0))
      bound := by
  rw [FloatFormat.abs]
  split
  · rename_i negative
    exact absurd (show (0 : ℚ) < 0 from of_decide_eq_true negative) (lt_irrefl 0)
  · have within : decide (0 ≤ bound) = true := decide_eq_true nonneg
    exact within

/-- The flat arithmetic reads zero bits as zero. -/
theorem readsZero_flat : ReadsZero (.exact flatFunctions) where
  finite := rfl
  weight := abs_flat_le (show (0 : ℚ) ≤ 10.0 by norm_num)
  hidden := abs_flat_le (show (0 : ℚ) ≤ 5.0 by norm_num)

end NeuralSsmPredictor

/-- **A rejected state changes nothing but for the early commit**: a predictor keeps every entry
of its state exactly unless it is a neural one and the bytes go on after a nested state that is
acceptable and another one. -/
theorem rejected_unchanged_iff (arith : SsmArithmetic) (formats : FloatFormats) (data : Bytes) :
    (∀ state : NeuralSsmPredictor arith,
      ((state.loadState data).1 = false →
        (state.SameState (state.loadState data).2 ↔ ¬state.CommitsEarly data)) ∧
      ((state.setDictBaseline data).1 = false →
        (state.SameState (state.setDictBaseline data).2 ↔ ¬state.CommitsEarly data))) ∧
      (∀ model : RlePredictor,
        (model.loadState data).1 = false → (model.loadState data).2 = model) ∧
      (∀ model : Order0Model,
        (model.loadState data).1 = false → (model.loadState data).2 = model) ∧
      ∀ mixer : ContextMixer formats,
        (mixer.loadState data).1 = false → (mixer.loadState data).2 = mixer := by
  refine ⟨fun state => ⟨NeuralSsmPredictor.loadState_sameState_iff, fun rejected => ?_⟩,
    fun _ => RlePredictor.loadState_rejected, fun _ => Order0Model.loadState_rejected,
    fun _ => ContextMixer.loadState_rejected⟩
  obtain ⟨refused, same⟩ := NeuralSsmPredictor.setDictBaseline_rejected rejected
  rw [same]
  exact NeuralSsmPredictor.loadState_sameState_iff refused

/-- The saved counts of a model whose last symbol has never been counted. -/
def Order0Model.savedWithoutLast : Bytes :=
  1 :: ((List.replicate 255 [1, 0, 0, 0]).flatten ++ [0, 0, 0, 0])

/-- A symbol that was never counted is the last one to be checked. -/
theorem Order0Model.loadState_savedWithoutLast (model : Order0Model) :
    model.loadState savedWithoutLast = (false, model) := by
  have length : savedWithoutLast.length = 1 + 256 * 4 := by decide +kernel
  have uncounted : storedCount savedWithoutLast.tail 255 = 0 := by decide +kernel
  have refused : ((List.range 256).any fun symbol =>
      storedCount savedWithoutLast.tail symbol = 0 ∨
        storedCount savedWithoutLast.tail symbol > MAX_COUNT) = true :=
    List.any_eq_true.mpr
      ⟨255, List.mem_range.mpr (by decide), decide_eq_true (.inl uncounted)⟩
  have version : savedWithoutLast.head? = some 1 := rfl
  rw [loadState, if_neg (not_not.mpr length), if_neg (not_not.mpr version)]
  exact if_pos refused

/-- Exact arithmetic in which the highest bit of a number is its sign. -/
def signedFormats : FloatFormats :=
  .exact id id id (fun bits => if bits < 2 ^ 63 then bits else -1) fun x => x.num.toNat

/-- The saved weights of a small mixer, the last of which is negative. -/
def ContextMixer.savedNegative : Bytes :=
  [1, 1, 3, 0, 0, 0] ++ List.replicate 16 0 ++ [0, 0, 0, 0, 0, 0, 0, 128]

/-- Trained predictors are unchanged by states that the very last check rejects: a complete state
whose nested context-class state has a wrong total in its last context, that nested state itself,
counts whose last is zero, and weights whose last is negative. -/
theorem rejected_unchanged_late :
    let arith := SsmArithmetic.exact NeuralSsmPredictor.flatFunctions
    let state : NeuralSsmPredictor arith := (NeuralSsmPredictor.new.update 65).update 66
    let nested := RlePredictor.savedWrongTotal
    let data := NeuralSsmPredictor.savedZeros 32 0 nested []
    let model := (RlePredictor.new.update 7).update 0
    let order0 := (Order0Model.new.update 1).update 2
    let mixer : ContextMixer signedFormats :=
      ((ContextMixer.withConfig .lightweight).update 1).update 2
    (∀ i < 2, RlePredictor.acceptsContext nested.tail i = true) ∧
      (∃ parsed, @NeuralSsmPredictor.parseState arith state.cfg.d state.rle data =
        some (parsed, nested.length, nested)) ∧
      (state.loadState data).1 = false ∧ state.SameState (state.loadState data).2 ∧
      (state.setDictBaseline data).1 = false ∧ state.SameState (state.setDictBaseline data).2 ∧
      (model.loadState nested).1 = false ∧ (model.loadState nested).2 = model ∧
      (order0.loadState Order0Model.savedWithoutLast).1 = false ∧
      (order0.loadState Order0Model.savedWithoutLast).2 = order0 ∧
      (mixer.loadState ContextMixer.savedNegative).1 = false ∧
      (mixer.loadState ContextMixer.savedNegative).2 = mixer := by
  have length := RlePredictor.length_savedWrongTotal
  have refused := RlePredictor.acceptsState_savedWrongTotal
  have earlier (i : Nat) (inside : i < 2) := RlePredictor.acceptsContext_savedWrongTotal inside
  generalize RlePredictor.savedWrongTotal = nested at length refused earlier ⊢
  intro arith state nested' data model order0 mixer
  have dimension : state.cfg.d = 32 := rfl
  obtain ⟨parsed, parse, -⟩ := NeuralSsmPredictor.parseState_savedZeros
    NeuralSsmPredictor.readsZero_flat (show 32 ≤ NeuralSsm.D_MAX by decide) state.rle 0
    (show nested.length < 2 ^ 32 by omega) []
  have success : @NeuralSsmPredictor.parseState arith state.cfg.d state.rle data =
      some (parsed, nested.length, nested) := by
    rw [dimension, parse, List.append_nil]
  have complete := NeuralSsmPredictor.not_commitsEarly_of_complete success
  have rejected := NeuralSsmPredictor.loadState_eq_of_refused success (by omega) refused
  have uninstalled := NeuralSsmPredictor.setDictBaseline_eq_of_refused rejected
  have nestedRejected : model.loadState nested = (false, model) := by
    rw [RlePredictor.loadState_eq, refused, if_neg Bool.false_ne_true]
  have order0Rejected : (order0.loadState Order0Model.savedWithoutLast).1 = false := by
    rw [Order0Model.loadState_savedWithoutLast]
  have mixerRejected : (mixer.loadState ContextMixer.savedNegative).1 = false := by
    decide +kernel
  have neural := (rejected_unchanged_iff arith signedFormats data).1 state
  have rle := (rejected_unchanged_iff arith signedFormats nested).2.1 model
  have order := (rejected_unchanged_iff arith signedFormats Order0Model.savedWithoutLast).2.2.1
  have mixed := (rejected_unchanged_iff arith signedFormats ContextMixer.savedNegative).2.2.2
  refine ⟨earlier, ⟨parsed, success⟩, congrArg Prod.fst rejected,
    (neural.1 (congrArg Prod.fst rejected)).mpr complete, congrArg Prod.fst uninstalled,
    (neural.2 (congrArg Prod.fst uninstalled)).mpr complete, congrArg Prod.fst nestedRejected,
    rle (congrArg Prod.fst nestedRejected), order0Rejected, order order0 order0Rejected,
    mixerRejected, mixed mixer mixerRejected⟩

namespace NeuralSsmPredictor

/-- One byte after an acceptable nested state: the saved state is rejected, and the predictor has
taken over the nested context class. -/
theorem loadState_commitsEarly :
    let state : NeuralSsmPredictor (.exact flatFunctions) := new
    let data := savedZeros 32 0 (RlePredictor.savedZeros 1) [0]
    (state.loadState data).1 = false ∧ (state.setDictBaseline data).1 = false ∧
      state.rle.ctx = 0 ∧ (state.loadState data).2.rle.ctx = 1 ∧
      (state.setDictBaseline data).2.rle.ctx = 1 ∧
      ¬state.SameState (state.loadState data).2 := by
  have stored : (RlePredictor.storedState (RlePredictor.savedZeros 1)).ctx = 1 := by
    rw [RlePredictor.ctx_savedZeros, if_neg (by decide)]
    rfl
  have accepted := RlePredictor.acceptsState_zeros 1
  have length := RlePredictor.length_savedZeros 1
  generalize RlePredictor.savedZeros 1 = nested at stored accepted length ⊢
  intro state data
  obtain ⟨parsed, parse, -⟩ := parseState_savedZeros readsZero_flat
    (show 32 ≤ NeuralSsm.D_MAX by decide) state.rle 0 (show nested.length < 2 ^ 32 by omega) [0]
  have first : (nested ++ [0]).take nested.length = nested := List.take_left' rfl
  have loaded : state.loadState data =
      (false, { state with rle := RlePredictor.storedState nested }) := by
    have early := @loadState_eq_of_early _ state data _ parsed _ parse (by omega)
      (by rw [List.length_append, List.length_singleton]; omega) (first.symm ▸ accepted)
    rw [first] at early
    exact early
  have installed : state.setDictBaseline data =
      (false, { state with rle := RlePredictor.storedState nested }) := by
    rw [setDictBaseline, loaded]
  rw [loaded, installed]
  refine ⟨rfl, rfl, rfl, stored, stored, ?_⟩
  rintro ⟨-, same⟩
  have kept : 0 = (RlePredictor.storedState nested).ctx := same.ctx
  rw [stored] at kept
  cases kept

end NeuralSsmPredictor

end AetherArch
