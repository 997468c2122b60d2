import AetherArch.Library.CheckedSum
import AetherArch.Entropy.Order0Contract

/-! # The order-0 model stays within its words

Loading a saved state is one more way to a state. In every state reached, all sums, nodes and
products the model computes fit the words it keeps them in (`Order0Model.NoOverflow`).
-/

namespace AetherArch

namespace Order0Model

/-- The states reached from a new model by counting, resetting and loading. -/
inductive Reached : Order0Model → Prop where
  | new : Reached new
  | update {model : Order0Model} (byte : UInt8) : Reached model → Reached (model.update byte)
  | reset {model : Order0Model} : Reached model → Reached model.reset
  | load {model loaded : Order0Model} {data : Bytes} : Reached model →
      model.loadState data = (true, loaded) → Reached loaded

/-- A state that is accepted holds positive counts below the maximum. -/
theorem loadState_eq_true {model loaded : Order0Model} {data : Bytes}
    (accepted : model.loadState data = (true, loaded)) :
    (∀ symbol < 256, 0 < storedCount data.tail symbol ∧ storedCount data.tail symbol ≤ MAX_COUNT) ∧
      loaded =
        { counts := storedCount data.tail, fenwick := rebuildFenwick (storedCount data.tail)
          total := cumulative (storedCount data.tail) 256 } := by
  rw [loadState] at accepted
  split at accepted
  · cases accepted
  split at accepted
  · cases accepted
  dsimp only at accepted
  split at accepted
  · cases accepted
  rename_i sound
  split at accepted
  · cases accepted
  · cases accepted
    refine ⟨fun symbol inside => ?_, rfl⟩
    simp only [List.any_eq_true, List.mem_range, decide_eq_true_eq, not_exists, not_and, not_or,
      not_lt] at sound
    have := sound symbol inside
    omega

/-- A loaded model is well formed. -/
theorem loadState_wellFormed {model loaded : Order0Model} {data : Bytes}
    (accepted : model.loadState data = (true, loaded)) : loaded.WellFormed := by
  obtain ⟨sound, rfl⟩ := loadState_eq_true accepted
  refine ⟨rebuildFenwick_represents _, rfl, fun symbol inside => (sound symbol inside).1, ?_⟩
  calc cumulative (storedCount data.tail) 256 ≤ cumulative (fun _ => MAX_COUNT) 256 :=
        cumulative_le fun symbol inside => (sound symbol inside).2
    _ = 256 * MAX_COUNT := cumulative_const _ _

/-- **Every model reached, loads included, is well formed.** -/
theorem Reached.wellFormed {model : Order0Model} (reached : model.Reached) : model.WellFormed := by
  induction reached with
  | new => exact new_wellFormed
  | update byte _ wellFormed => exact update_wellFormed wellFormed byte
  | reset _ _ => exact new_wellFormed
  | load _ accepted _ => exact loadState_wellFormed accepted

/-! ## Word widths -/

/-- A sum of the model in checked 32-bit arithmetic. -/
abbrev Word := CheckedSum (2 ^ 32)

/-- What the model computes in a state fits the words it is computed in. -/
structure NoOverflow (model : Order0Model) : Prop where
  divisor : 0 < model.total
  /-- Counting a byte increments its count, the total and some nodes. -/
  count (symbol : Nat) : symbol < 256 → model.counts symbol + 1 < 2 ^ 32
  total : model.total + 1 < 2 ^ 32
  node (node : Nat) : 0 < node → node ≤ 256 → model.fenwick node + 1 < 2 ^ 32
  /-- A scan of the counts runs through every prefix sum. -/
  scan (symbol : Nat) : symbol ≤ 256 → cumulative model.counts symbol < 2 ^ 32
  /-- The sweep over the counts that builds the tree. -/
  sweep (node : Nat) : 0 < node → node ≤ 256 →
    (Fenwick.build 256 (fun position => (CheckedSum.ofNat (2 ^ 32) (model.counts (position - 1)) :
      Word)) node).Holds (model.fenwick node)
  /-- The descent through the tree that sums a prefix. -/
  descent (len : Nat) : len ≤ 256 →
    (Fenwick.prefixSum (fun node => (CheckedSum.ofNat (2 ^ 32) (model.fenwick node) : Word))
      len).Holds (cumulative model.counts len)
  /-- The candidates of a search, whether they are taken or not. -/
  search (freq : Nat) {taken later : List Nat} {step : Nat} : freq < PROB_TOTAL →
    [128, 64, 32, 16, 8, 4, 2, 1] = taken ++ step :: later →
    let found := taken.foldl (Fenwick.Search.step model.fenwick
      (fun candidate cum => quantizeBoundary (ExactDivisor.new model.total) cum candidate) 256 freq)
      { low := 0, sum := 0, lowValue := 0, highValue := PROB_TOTAL }
    found.low + step < 256 ∧ found.sum + model.fenwick (found.low + step) < 2 ^ 32
  /-- The products of the quantizer, its quotient and the boundary. -/
  quantizer (symbol : Nat) : symbol ≤ 256 →
    cumulative model.counts symbol * SCALABLE < 2 ^ 64 ∧
    cumulative model.counts symbol * SCALABLE * (ExactDivisor.new model.total).magic < 2 ^ 128 ∧
    (ExactDivisor.new model.total).div (cumulative model.counts symbol * SCALABLE) < 2 ^ 32 ∧
    quantizeBoundary (ExactDivisor.new model.total) (cumulative model.counts symbol) symbol < 2 ^ 16
  /-- Loading adds up the counts it has accepted so far. -/
  load (data : Bytes) (symbol : Nat) : symbol ≤ 256 →
    (∀ earlier < symbol, storedCount data earlier ≤ MAX_COUNT) →
    cumulative (storedCount data) symbol < 2 ^ 64

section

variable {model : Order0Model}

/-- The cumulative counts fit their words. -/
theorem WellFormed.cumulative_lt (wellFormed : model.WellFormed) {symbol : Nat}
    (inside : symbol ≤ 256) : cumulative model.counts symbol + 1 < 2 ^ 32 := by
  have le := (wellFormed.cumulative_le_total inside).trans wellFormed.bounded
  have limit : MAX_COUNT = 2000000 := rfl
  omega

/-- A node sums some of the values before a prefix. -/
theorem WellFormed.node_le (wellFormed : model.WellFormed) {node : Nat} (positive : 0 < node)
    (inside : node ≤ 256) : model.fenwick node ≤ cumulative model.counts node := by
  rw [wellFormed.represents node positive inside, cumulative_eq_sum]
  exact Finset.sum_le_sum_of_subset (Finset.Ioc_subset_Ioc_left (Nat.zero_le _))

/-- The magic number of a divisor is bounded. -/
theorem magic_le (total : Nat) : (ExactDivisor.new total).magic ≤ 2 ^ 56 + 1 := by
  have scale : (1 : Nat) <<< ExactDivisor.SHIFT = 2 ^ 56 := by decide
  simp only [ExactDivisor.new, scale]
  split
  · exact Nat.succ_le_succ (Nat.div_le_self _ _)
  · exact Nat.zero_le _

/-- **No word of a well-formed model overflows.** -/
theorem WellFormed.noOverflow (wellFormed : model.WellFormed) : model.NoOverflow where
  divisor := wellFormed.total_pos
  count symbol inside := by
    have sum := wellFormed.cumulative_lt (Nat.succ_le_of_lt inside)
    rw [cumulative] at sum
    omega
  total := by
    rw [wellFormed.total_eq]
    exact wellFormed.cumulative_lt le_rfl
  node node positive inside := by
    have le := wellFormed.node_le positive inside
    have lt := wellFormed.cumulative_lt inside
    omega
  scan symbol inside := Nat.lt_of_succ_lt (wellFormed.cumulative_lt inside)
  sweep node positive inside := by
    have le := wellFormed.node_le positive inside
    have lt := wellFormed.cumulative_lt inside
    have sum := wellFormed.represents node positive inside
    rw [Fenwick.build_represents 256 _ node positive inside, sum]
    apply CheckedSum.holds_sum
    rw [← sum]
    omega
  descent len inside := by
    have lifted := wellFormed.represents.map (CheckedSum.ofNatHom (2 ^ 32))
    have lt := wellFormed.cumulative_lt inside
    have sum := Fenwick.prefixSum_eq lifted inside
    rw [cumulative_eq_sum] at lt ⊢
    exact sum ▸ CheckedSum.holds_sum (by omega)
  search freq taken later step inside steps := by
    have halvings : Fenwick.halvings 8 = [128, 64, 32, 16, 8, 4, 2, 1] := by decide
    rw [← halvings] at steps
    obtain ⟨low, sum⟩ := (wellFormed.search_brackets inside).candidates wellFormed.represents
      (by decide) steps
    refine ⟨low, ?_⟩
    have lt := wellFormed.cumulative_lt low.le
    rw [sum, ← cumulative_eq_sum]
    omega
  quantizer symbol inside := by
    have cumulativeLt := wellFormed.cumulative_lt inside
    have scalable : SCALABLE = 32512 := by decide
    have product : cumulative model.counts symbol * SCALABLE < 2 ^ 47 := by
      rw [scalable]
      omega
    have quotient : cumulative model.counts symbol * SCALABLE / model.total ≤ SCALABLE :=
      Nat.div_le_of_le_mul (Nat.mul_le_mul_right _ (wellFormed.cumulative_le_total inside))
    refine ⟨product.trans (by norm_num), ?_, ?_, ?_⟩
    · calc _ ≤ 2 ^ 47 * (2 ^ 56 + 1) := Nat.mul_le_mul product.le (magic_le _)
        _ < 2 ^ 128 := by norm_num
    · have dividend : cumulative model.counts symbol * SCALABLE ≤ model.total * 2 ^ 15 := by
        have le := wellFormed.cumulative_le_total inside
        rw [scalable]
        omega
      rw [ExactDivisor.div_eq wellFormed.total_pos fun _ => dividend]
      omega
    · rw [wellFormed.quantizeBoundary_eq inside, boundary]
      omega
  load data symbol inside accepted := by
    calc cumulative (storedCount data) symbol ≤ cumulative (fun _ => MAX_COUNT) symbol :=
          cumulative_le accepted
      _ = symbol * MAX_COUNT := cumulative_const _ _
      _ ≤ 256 * MAX_COUNT := Nat.mul_le_mul_right _ inside
      _ < 2 ^ 64 := by norm_num [MAX_COUNT]

end

/-- **The order-0 model in every state it reaches**, by counting, resetting or loading: the three
routes agree on one valid table, the tree is the prefix-sum tree of the positive counts, and
nothing overflows. -/
theorem order0_routesAgree {model : Order0Model} (reached : model.Reached) :
    ProbabilityPredictor.RoutesAgree model ∧ model.WellFormed ∧ model.NoOverflow :=
  have wellFormed := reached.wellFormed
  have coherent := contract wellFormed model .start
  ⟨coherent.routesAgree, wellFormed, wellFormed.noOverflow⟩

/-- The routes agree after an update, a reset and one more update. -/
theorem order0_routesAgree_counted :
    ProbabilityPredictor.RoutesAgree ((new.update 7).reset.update 200) ∧
      ((new.update 7).reset.update 200).WellFormed ∧
      ((new.update 7).reset.update 200).NoOverflow :=
  order0_routesAgree (.update 200 (.reset (.update 7 .new)))

end Order0Model

end AetherArch
