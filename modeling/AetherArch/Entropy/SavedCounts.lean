import AetherArch.Entropy.EqualCounts

/-! # Saving and reloading counts

No count that a predictor reaches exceeds the bound its loader enforces. What it saves is therefore
accepted, and read back entry by entry.
-/

namespace AetherArch

open CountWords (CodingStep)
open ProbabilityPredictor

/-- One count is at most the counts up to it. -/
theorem Order0Model.le_cumulative (counts : Nat → Nat) {i symbol : Nat} (inside : i < symbol) :
    counts i ≤ cumulative counts symbol :=
  calc counts i ≤ cumulative counts (i + 1) := Nat.le_add_left _ _
    _ ≤ cumulative counts symbol := cumulative_mono counts inside

/-! ## The order-0 model -/

namespace Order0Model

/-- What the loader asks of the counts. -/
structure WithinBounds (model : Order0Model) : Prop where
  positive (symbol : Nat) : symbol < 256 → 0 < model.counts symbol
  count_le (symbol : Nat) : symbol < 256 → model.counts symbol ≤ MAX_COUNT
  sum_lt : cumulative model.counts 256 < 2 ^ 32

/-- An update keeps every count within its limit. -/
theorem update_count_le {model : Order0Model} (wellFormed : model.WellFormed)
    (bounded : ∀ symbol < 256, model.counts symbol ≤ MAX_COUNT) (byte : UInt8) :
    ∀ symbol < 256, (model.update byte).counts symbol ≤ MAX_COUNT := by
  intro symbol inside
  have limit : MAX_COUNT = 2000000 := rfl
  have before := bounded symbol inside
  have counted : Function.update model.counts byte.toNat (model.counts byte.toNat + 1) symbol ≤
      model.counts symbol + 1 := by
    rw [Function.update_apply]
    split
    · rename_i same
      rw [same]
    · exact Nat.le_succ _
  unfold Order0Model.update
  dsimp only
  split
  · change max (_ >>> 1) 1 ≤ _
    rw [Nat.shiftRight_one]
    dsimp only
    omega
  · rename_i small
    change Function.update model.counts byte.toNat (model.counts byte.toNat + 1) symbol ≤ _
    have le := le_cumulative model.counts inside
    rw [← wellFormed.total_eq] at le
    omega

/-- **No reachable count exceeds its bound.** -/
theorem Reached.withinBounds {model : Order0Model} (reached : model.Reached) :
    model.WithinBounds := by
  have wellFormed := reached.wellFormed
  have one : 1 ≤ MAX_COUNT := by decide
  refine ⟨wellFormed.positive, ?_, ?_⟩
  · clear wellFormed
    induction reached with
    | new => exact fun _ _ => one
    | update byte before recurse => exact update_count_le before.wellFormed recurse byte
    | reset _ _ => exact fun _ _ => one
    | load _ accepted _ =>
        obtain ⟨sound, rfl⟩ := loadState_eq_true accepted
        exact fun symbol inside => (sound symbol inside).2
  · have limit : MAX_COUNT = 2000000 := rfl
    have bounded := wellFormed.bounded
    rw [wellFormed.total_eq] at bounded
    omega

theorem length_saveState (model : Order0Model) : model.saveState.length = 1 + 256 * 4 := by
  rw [saveState, List.length_cons,
    Numeral.length_flatMap_pieces fun symbol => Numeral.length_toLittleEndian 4 _]

/-- **A saved model reloads.** -/
theorem loadState_saveState {model : Order0Model} (wellFormed : model.WellFormed)
    (within : model.WithinBounds) (other : Order0Model) :
    ∃ loaded, other.loadState model.saveState = (true, loaded) ∧ Agree model loaded := by
  have stored (symbol : Nat) (inside : symbol < 256) :
      storedCount model.saveState.tail symbol = model.counts symbol := by
    have limit : MAX_COUNT = 2000000 := rfl
    have le := within.count_le symbol inside
    have found : ((List.range 256).map model.counts)[symbol]? = some (model.counts symbol) := by
      rw [List.getElem?_map, List.getElem?_range inside]
      rfl
    have word := Numeral.littleEndian_words 4 [] found
    rw [List.append_nil, List.flatMap_map, Nat.mod_eq_of_lt (by omega)] at word
    exact word
  have sum : cumulative (storedCount model.saveState.tail) 256 = cumulative model.counts 256 :=
    cumulative_congr stored
  have accepted : other.loadState model.saveState =
      (true, { counts := storedCount model.saveState.tail
               fenwick := rebuildFenwick (storedCount model.saveState.tail)
               total := cumulative (storedCount model.saveState.tail) 256 }) := by
    have version : model.saveState.head? = some 1 := rfl
    rw [loadState, if_neg (not_not.mpr (length_saveState model)), if_neg (not_not.mpr version)]
    dsimp only
    rw [if_neg, if_neg]
    · have lt := within.sum_lt
      rw [sum]
      omega
    · simp only [List.any_eq_true, List.mem_range, decide_eq_true_eq, not_exists, not_and, not_or,
        not_lt]
      intro symbol inside
      rw [stored symbol inside]
      exact ⟨(within.positive symbol inside).ne', within.count_le symbol inside⟩
  exact ⟨_, accepted, wellFormed, loadState_wellFormed accepted,
    fun symbol inside => (stored symbol inside).symm⟩

end Order0Model

/-! ## The context-class predictor -/

namespace RlePredictor

/-- Counting a literal keeps every count below any bound that is not below the limit. -/
theorem Counted.countLiteral_le {counts fenwick : Nat → Nat} {total limit bound idx lit : Nat}
    (counted : Counted counts fenwick total) (room : limit ≤ bound) (positive : 0 < bound)
    (bounded : ∀ lit < NUM_LITS, counts lit ≤ bound) (inside : lit < NUM_LITS) :
    (RlePredictor.countLiteral limit counts fenwick total idx).1 lit ≤ bound := by
  have before := bounded lit inside
  have next : Function.update counts idx (counts idx + 1) lit ≤ counts lit + 1 := by
    rw [Function.update_apply]
    split
    · rename_i same
      rw [same]
    · exact Nat.le_succ _
  rw [RlePredictor.countLiteral]
  split
  · dsimp only
    rw [Nat.shiftRight_one]
    omega
  · have le := Order0Model.le_cumulative counts inside
    rw [← counted.total_eq] at le
    dsimp only
    omega

/-- What a state that is loaded later satisfies. -/
structure Savable (model : RlePredictor) : Prop where
  roomy : model.Roomy
  lit_le (ctx lit : Nat) : ctx < NUM_CONTEXTS → lit < NUM_LITS →
    model.litCounts ctx lit ≤ MAX_LIT_COUNT

theorem new_savable : new.Savable where
  roomy := new_roomy
  lit_le _ _ _ _ := Nat.zero_le _

/-- An update keeps a model savable. -/
theorem Savable.update {model : RlePredictor} (savable : model.Savable) (byte : UInt8) :
    (model.update byte).Savable where
  roomy := savable.roomy.update byte
  lit_le ctx lit inside literal := by
    have before := savable.lit_le ctx lit inside literal
    have current := savable.roomy.wellFormed.ctx_lt
    have counted := (savable.roomy.wellFormed.context _ current).counted
    rw [RlePredictor.update]
    split
    · exact before
    · dsimp only
      rw [Function.update_apply]
      split
      · exact counted.countLiteral_le (by decide) (by decide)
          (fun lit literal => savable.lit_le _ lit current literal) literal
      · exact before

/-- A stored state that is accepted can be saved. -/
theorem storedState_savable {data : Bytes} (accepted : acceptsState data = true) :
    (storedState data).Savable where
  roomy := storedState_roomy accepted
  lit_le ctx lit inside literal := by
    obtain ⟨contexts, rfl, accepts⟩ := exists_of_acceptsState accepted
    have context := accepts ctx inside
    unfold acceptsContext at context
    simp only [Bool.and_eq_true, List.all_eq_true, List.mem_range, decide_eq_true_eq] at context
    exact context.1.2 lit literal

/-- Loading keeps a model savable. -/
theorem Savable.loadState {model : RlePredictor} (savable : model.Savable) (data : Bytes) :
    (model.loadState data).2.Savable := by
  rw [loadState_eq]
  split
  · rename_i accepted
    exact storedState_savable accepted
  · exact savable

/-- **Every reachable state is within the bounds of the loader.** -/
theorem Reached.savable {model : RlePredictor} (reached : model.Reached) : model.Savable := by
  induction reached with
  | new => exact new_savable
  | update byte _ recurse => exact recurse.update byte
  | reset _ _ => exact new_savable
  | @load _ _ data _ accepted recurse =>
      have loaded := recurse.loadState data
      rw [accepted] at loaded
      exact loaded

/-- The numbers saved for a context class. -/
def savedWords (model : RlePredictor) (i : Nat) : List Nat :=
  (model.runVsLit i).countYes :: (model.runVsLit i).countTotal :: (model.runaVsRunb i).countYes ::
    (model.runaVsRunb i).countTotal :: ((List.range NUM_LITS).map (model.litCounts i) ++
    [model.litTotals i])

/-- A saved model is its tag, the words of each context and the current context. -/
theorem saveState_eq (model : RlePredictor) :
    model.saveState = 1 :: ((List.range NUM_CONTEXTS).flatMap (fun i =>
      (model.savedWords i).flatMap (Numeral.toLittleEndian 4)) ++ [UInt8.ofNat model.ctx]) := by
  simp only [saveState, savedWords, List.flatMap_cons, List.flatMap_append, List.flatMap_map,
    List.append_assoc, List.flatMap_nil, List.append_nil, List.cons_append]

/-- The words of a context take their share of the saved state. -/
theorem length_savedWords (model : RlePredictor) (i : Nat) :
    ((model.savedWords i).flatMap (Numeral.toLittleEndian 4)).length = PER_CTX := by
  have words : (model.savedWords i).length = NUM_LITS + 5 := by
    simp only [savedWords, List.length_cons, List.length_append, List.length_map,
      List.length_range, List.length_nil]
  rw [List.length_flatMap]
  simp only [Numeral.length_toLittleEndian, List.map_const', List.sum_replicate, words]
  rfl

/-- A number saved for a context class is read back from its place. -/
theorem storedU32_saveState (model : RlePredictor) {i place value : Nat} (inside : i < NUM_CONTEXTS)
    (found : (model.savedWords i)[place]? = some value) :
    storedU32 model.saveState.tail (i * PER_CTX + place * 4) = value % 2 ^ 32 := by
  obtain ⟨after, piece⟩ := Numeral.exists_drop_flatMap model.length_savedWords inside
    [UInt8.ofNat model.ctx]
  rw [saveState_eq, List.tail_cons, storedU32, ← List.drop_drop, piece]
  exact Numeral.littleEndian_words 4 after found

/-- What is read back from a saved state. -/
structure ReadsBack (model : RlePredictor) (data : Bytes) : Prop where
  run (i : Nat) : i < NUM_CONTEXTS → storedBinary data (i * PER_CTX) = model.runVsLit i
  runa (i : Nat) : i < NUM_CONTEXTS → storedBinary data (i * PER_CTX + 8) = model.runaVsRunb i
  lits (i lit : Nat) : i < NUM_CONTEXTS → lit < NUM_LITS →
    storedLits data i lit = model.litCounts i lit
  total (i : Nat) : i < NUM_CONTEXTS → storedTotal data i = model.litTotals i

/-- **A savable model is read back from its saved form.** -/
theorem Savable.readsBack {model : RlePredictor} (savable : model.Savable) :
    model.ReadsBack model.saveState.tail := by
  have word {i off : Nat} (place : Nat) {value : Nat} (inside : i < NUM_CONTEXTS)
      (at_place : off = i * PER_CTX + place * 4) (small : value < 2 ^ 32)
      (found : (model.savedWords i)[place]? = some value) :
      storedU32 model.saveState.tail off = value := by
    rw [at_place, storedU32_saveState model inside found, Nat.mod_eq_of_lt small]
  have binary {i off : Nat} (place : Nat) (counter : BinaryModel) (inside : i < NUM_CONTEXTS)
      (at_place : off = i * PER_CTX + place * 4) (ordered : counter.countYes ≤ counter.countTotal)
      (bounded : counter.countTotal ≤ MAX_BINARY_COUNT)
      (yes : (model.savedWords i)[place]? = some counter.countYes)
      (total : (model.savedWords i)[place + 1]? = some counter.countTotal) :
      storedBinary model.saveState.tail off = counter := by
    have limit : MAX_BINARY_COUNT = 1000000 := rfl
    rw [storedBinary, word place inside at_place (by omega) yes,
      word (place + 1) inside (by omega) (by omega) total]
  refine ⟨fun i inside => ?_, fun i inside => ?_, fun i lit inside literal => ?_,
    fun i inside => ?_⟩
  · obtain ⟨-, run, -⟩ := savable.roomy.bounded i inside
    have le := (savable.roomy.wellFormed.context i inside).run_le
    exact binary 0 _ inside (by omega) le run rfl rfl
  · obtain ⟨-, -, runa⟩ := savable.roomy.bounded i inside
    have le := (savable.roomy.wellFormed.context i inside).runa_le
    exact binary 2 _ inside (by omega) le runa rfl rfl
  · have le := savable.lit_le i lit inside literal
    have limit : MAX_LIT_COUNT = 1000000 := rfl
    have found : (model.savedWords i)[lit + 4]? = some (model.litCounts i lit) := by
      change ((List.range NUM_LITS).map (model.litCounts i) ++ [model.litTotals i])[lit]? = _
      rw [List.getElem?_append_left (by rw [List.length_map, List.length_range]; exact literal),
        List.getElem?_map, List.getElem?_range literal]
      rfl
    rw [storedLits]
    exact word (lit + 4) inside (by omega) (by omega) found
  · obtain ⟨lits, -, -⟩ := savable.roomy.bounded i inside
    have limit : MAX_LIT_TOTAL = 254000000 := rfl
    have found : (model.savedWords i)[NUM_LITS + 4]? = some (model.litTotals i) := by
      change ((List.range NUM_LITS).map (model.litCounts i) ++ [model.litTotals i])[NUM_LITS]? = _
      rw [List.getElem?_append_right (by rw [List.length_map, List.length_range]), List.length_map,
        List.length_range, Nat.sub_self]
      rfl
    rw [storedTotal]
    exact word (NUM_LITS + 4) inside (by omega) (by omega) found

/-- The length of a saved model. -/
theorem length_saveState (model : RlePredictor) :
    model.saveState.length = 1 + (NUM_CONTEXTS * PER_CTX + 1) := by
  rw [saveState_eq, List.length_cons, List.length_append,
    Numeral.length_flatMap_pieces model.length_savedWords, List.length_singleton]
  exact Nat.add_comm _ _

/-- **A saved predictor is accepted**, and what it holds agrees with it. -/
theorem Savable.accepted {model : RlePredictor} (savable : model.Savable) :
    acceptsState model.saveState = true ∧ Agree model (storedState model.saveState) := by
  have back := savable.readsBack
  have inside := savable.roomy.wellFormed.ctx_lt
  have context : (model.saveState.tail.getD (NUM_CONTEXTS * PER_CTX) 0).toNat = model.ctx := by
    have contexts : NUM_CONTEXTS = 3 := rfl
    have size := Numeral.length_flatMap_pieces model.length_savedWords NUM_CONTEXTS
    rw [saveState_eq, List.tail_cons, List.getD_eq_getElem?_getD,
      List.getElem?_append_right size.le, size, Nat.sub_self]
    exact UInt8.toNat_ofNat_of_lt' (by rw [UInt8.size]; omega)
  have accepts (i : Nat) (within : i < NUM_CONTEXTS) :
      acceptsContext model.saveState.tail i = true := by
    obtain ⟨counted, runLe, runaLe⟩ := savable.roomy.wellFormed.context i within
    obtain ⟨lits, run, runa⟩ := savable.roomy.bounded i within
    have same : Order0Model.cumulative (storedLits model.saveState.tail i) NUM_LITS =
        model.litTotals i := by
      rw [counted.total_eq]
      exact Order0Model.cumulative_congr fun lit literal => back.lits i lit within literal
    have limit : MAX_LIT_TOTAL = 254000000 := rfl
    rw [acceptsContext, back.run i within, back.runa i within, same, back.total i within]
    simp only [acceptsBinary, Bool.and_eq_true, decide_eq_true_eq, List.all_eq_true, List.mem_range]
    refine ⟨⟨⟨⟨runLe, run⟩, ⟨runaLe, runa⟩⟩, fun lit literal => ?_⟩, by omega, trivial⟩
    rw [back.lits i lit within literal]
    exact savable.lit_le i lit within literal
  have accepted : acceptsState model.saveState = true := by
    have length := length_saveState model
    rw [saveState_eq] at accepts length ⊢
    rw [acceptsState, Bool.and_eq_true, decide_eq_true_eq, List.all_eq_true]
    rw [List.length_cons] at length
    exact ⟨by omega, fun i member => accepts i (List.mem_range.mp member)⟩
  refine ⟨accepted, savable.roomy.wellFormed, (storedState_roomy accepted).wellFormed,
    fun ctx within => (back.run ctx within).symm, fun ctx within => (back.runa ctx within).symm,
    fun ctx lit within literal => (back.lits ctx lit within literal).symm, ?_⟩
  rw [storedState]
  dsimp only
  rw [context, if_neg (not_le.mpr inside)]

end RlePredictor

end AetherArch
