import AetherArch.Entropy.Order0Contract
import AetherArch.Entropy.RlePredictor

/-! # What the context-class predictor maintains

In every context class the tree is the prefix-sum tree of the literal counts and the
total is their sum, through counting, halving and loading.
-/

namespace AetherArch

namespace RlePredictor

/-- Literal counts with the tree and the total that belong to them. -/
structure Counted (counts fenwick : Nat → Nat) (total : Nat) : Prop where
  represents : Fenwick.Represents fenwick (fun position => counts (position - 1)) NUM_LITS
  total_eq : total = Order0Model.cumulative counts NUM_LITS

/-- The rebuilt tree represents the counts. -/
theorem fenwick254Rebuild_represents (counts : Nat → Nat) :
    Fenwick.Represents (fenwick254Rebuild counts) (fun position => counts (position - 1))
      NUM_LITS := by
  unfold fenwick254Rebuild
  exact Fenwick.build_represents (M := ℕ) NUM_LITS fun position => counts (position - 1)

/-- Counts are counted in their rebuilt tree. -/
theorem counted_rebuild (counts : Nat → Nat) :
    Counted counts (fenwick254Rebuild counts) (Order0Model.cumulative counts NUM_LITS) where
  represents := fenwick254Rebuild_represents counts
  total_eq := rfl

/-- No counts are counted in the empty tree. -/
theorem counted_zero : Counted (fun _ => 0) (fun _ => 0) 0 where
  represents := by
    intro node _ _
    rw [Finset.sum_const_zero]
  total_eq := by
    rw [Order0Model.cumulative_const, Nat.mul_zero]

/-- **Counting a literal** keeps tree and total in step, whether or not it halves. -/
theorem Counted.countLiteral {counts fenwick : Nat → Nat} {total : Nat}
    (counted : Counted counts fenwick total) (limit : Nat) {idx : Nat} (inside : idx < NUM_LITS) :
    Counted (RlePredictor.countLiteral limit counts fenwick total idx).1
      (RlePredictor.countLiteral limit counts fenwick total idx).2.1
      (RlePredictor.countLiteral limit counts fenwick total idx).2.2 := by
  rw [RlePredictor.countLiteral]
  split
  · exact counted_rebuild _
  · refine ⟨?_, ?_⟩
    · have added := Fenwick.add_represents 1 counted.represents (Nat.succ_pos idx)
      refine added.congr fun position positive _ => ?_
      by_cases same : position = idx + 1
      · rw [same, Function.update_self, Nat.add_sub_cancel]
        symm
        exact Function.update_self ..
      · rw [Function.update_of_ne same]
        symm
        exact Function.update_of_ne (by omega) ..
    · change total + 1 = _
      rw [counted.total_eq]
      exact (Order0Model.cumulative_update counts idx 1 NUM_LITS inside).symm

/-- A prefix query is the cumulative count. -/
theorem Counted.fenwick254Prefix_eq {counts fenwick : Nat → Nat} {total : Nat}
    (counted : Counted counts fenwick total) {len : Nat} (inside : len ≤ NUM_LITS) :
    fenwick254Prefix fenwick len = Order0Model.cumulative counts len := by
  rw [fenwick254Prefix, Fenwick.prefixSum_eq counted.represents inside,
    Order0Model.cumulative_eq_sum]

/-- The literal a byte stands for. -/
theorem literal_lt (byte : UInt8) : byte.toNat - 2 < NUM_LITS := by
  have := byte.toNat_lt
  have : NUM_LITS = 254 := rfl
  omega

/-- A byte that is no run symbol stands for a literal. -/
theorem exists_literal {byte : UInt8} (notZero : byte ≠ 0) (notOne : byte ≠ 1) :
    ∃ m, byte.toNat = m + 2 := by
  have zero : byte.toNat ≠ 0 := fun same => notZero (UInt8.toNat_inj.mp same)
  have one : byte.toNat ≠ 1 := fun same => notOne (UInt8.toNat_inj.mp same)
  exact ⟨byte.toNat - 2, by omega⟩

/-- What the state of one context class satisfies. -/
structure ContextWellFormed (model : RlePredictor) (ctx : Nat) : Prop where
  counted : Counted (model.litCounts ctx) (model.litFenwick ctx) (model.litTotals ctx)
  run_le : (model.runVsLit ctx).countYes ≤ (model.runVsLit ctx).countTotal
  runa_le : (model.runaVsRunb ctx).countYes ≤ (model.runaVsRunb ctx).countTotal

/-- What every reachable state satisfies. -/
structure WellFormed (model : RlePredictor) : Prop where
  context (ctx : Nat) : ctx < NUM_CONTEXTS → model.ContextWellFormed ctx
  ctx_lt : model.ctx < NUM_CONTEXTS

theorem new_wellFormed : new.WellFormed where
  context _ _ := ⟨counted_zero, le_rfl, le_rfl⟩
  ctx_lt := by decide

/-- An update keeps a pair ordered. -/
theorem countYes_update_le {model : BinaryModel} (le : model.countYes ≤ model.countTotal)
    (isYes : Bool) : (model.update isYes).countYes ≤ (model.update isYes).countTotal := by
  have counted : (if isYes then model.countYes + 1 else model.countYes) ≤ model.countTotal + 1 := by
    split <;> omega
  unfold BinaryModel.update
  dsimp only
  split
  · exact min_le_right _ _
  · exact counted

/-- One binary model updated among those of all contexts. -/
theorem countYes_le_of_update {models : Nat → BinaryModel} {ctx : Nat}
    (le : (models ctx).countYes ≤ (models ctx).countTotal) (current : Nat) (isYes : Bool) :
    (Function.update models current ((models current).update isYes) ctx).countYes ≤
      (Function.update models current ((models current).update isYes) ctx).countTotal := by
  by_cases same : ctx = current
  · subst same
    rw [Function.update_self]
    exact countYes_update_le le isYes
  · rw [Function.update_of_ne same]
    exact le

theorem contextOf_lt (byte : UInt8) : contextOf byte < NUM_CONTEXTS := by
  rw [contextOf]
  split <;> decide

/-- An update keeps a context well formed. -/
theorem ContextWellFormed.update {model : RlePredictor} {ctx : Nat}
    (wellFormed : model.ContextWellFormed ctx) (byte : UInt8) :
    (model.update byte).ContextWellFormed ctx := by
  obtain ⟨counted, runLe, runaLe⟩ := wellFormed
  rw [RlePredictor.update]
  split
  · exact ⟨counted, countYes_le_of_update runLe _ _, countYes_le_of_update runaLe _ _⟩
  · refine ⟨?_, countYes_le_of_update runLe _ _, runaLe⟩
    dsimp only
    by_cases same : ctx = model.ctx
    · subst same
      rw [Function.update_self, Function.update_self, Function.update_self]
      exact counted.countLiteral 500000 (literal_lt byte)
    · rw [Function.update_of_ne same, Function.update_of_ne same, Function.update_of_ne same]
      exact counted

/-- An update keeps a model well formed. -/
theorem WellFormed.update {model : RlePredictor} (wellFormed : model.WellFormed) (byte : UInt8) :
    (model.update byte).WellFormed where
  context ctx inside := (wellFormed.context ctx inside).update byte
  ctx_lt := by
    rw [RlePredictor.update]
    split <;> exact contextOf_lt byte

/-- An accepted context has consistent counts. -/
theorem acceptsContext_spec {data : Bytes} {ctx : Nat} (accepted : acceptsContext data ctx = true) :
    (storedBinary data (ctx * PER_CTX)).countYes ≤ (storedBinary data (ctx * PER_CTX)).countTotal ∧
      (storedBinary data (ctx * PER_CTX + 8)).countYes ≤
        (storedBinary data (ctx * PER_CTX + 8)).countTotal ∧
      storedTotal data ctx = Order0Model.cumulative (storedLits data ctx) NUM_LITS := by
  unfold acceptsContext acceptsBinary at accepted
  simp only [Bool.and_eq_true, decide_eq_true_eq] at accepted
  obtain ⟨⟨⟨run, runa⟩, -⟩, -, total⟩ := accepted
  exact ⟨run.1, runa.1, total⟩

/-- Loading keeps a model well formed. -/
theorem WellFormed.loadState {model : RlePredictor} (wellFormed : model.WellFormed) (data : Bytes) :
    (model.loadState data).2.WellFormed := by
  fun_cases RlePredictor.loadState model data with
  | case1 => exact wellFormed
  | case2 data _ accepted =>
      refine ⟨fun ctx inside => ?_, ?_⟩
      · obtain ⟨run, runa, total⟩ :=
          acceptsContext_spec (List.all_eq_true.mp accepted ctx (List.mem_range.mpr inside))
        exact ⟨⟨fenwick254Rebuild_represents _, total⟩, run, runa⟩
      · dsimp only
        split
        · exact Nat.zero_lt_succ _
        · rename_i inside
          exact not_le.mp inside
  | case3 => exact wellFormed
  | case4 => exact wellFormed

end RlePredictor

end AetherArch
