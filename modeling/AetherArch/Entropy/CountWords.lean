import AetherArch.Entropy.Order0Words
import AetherArch.Entropy.RleInvariant

/-! # Counting within 32-bit words

Predictors keep counts, their total and a tree of their sums in 32-bit words. As long as the
total is below the largest word, none of the additions that count a symbol, halve the counts,
rebuild the tree or sum a prefix exceeds a word.
-/

namespace AetherArch

namespace CountWords

open Order0Model (cumulative Word)

/-- Numbers in checked 32-bit arithmetic. -/
def checked (values : Nat → Nat) (i : Nat) : Word := CheckedSum.ofNat (2 ^ 32) (values i)

/-- The counts once one more symbol is counted and all are halved. -/
def rescaled (halve : Nat → Nat) (counts : Nat → Nat) (idx i : Nat) : Nat :=
  halve (Function.update counts idx (counts idx + 1) i)

/-- Building the tree of counts exceeds no word. -/
def BuildFits (size : Nat) (counts : Nat → Nat) : Prop :=
  ∀ node, 0 < node → node ≤ size →
    (Fenwick.build size (fun position => checked counts (position - 1)) node).Holds
      (Fenwick.build size (fun position => counts (position - 1)) node)

/-- Adding up the counts one after the other exceeds no word. -/
def ScanFits (size : Nat) (counts : Nat → Nat) : Prop :=
  ∀ symbol ≤ size, cumulative counts symbol < 2 ^ 32

/-- Counting a symbol exceeds no word, nor does the halving of all counts past the limit. -/
structure CountFits (size limit : Nat) (halve : Nat → Nat) (counts fenwick : Nat → Nat)
    (total idx : Nat) : Prop where
  count_lt : counts idx + 1 < 2 ^ 32
  total_lt : total + 1 < 2 ^ 32
  node_lt (node : Nat) : 0 < node → node ≤ size → fenwick node + 1 < 2 ^ 32
  rescale : limit < total + 1 → ScanFits size (rescaled halve counts idx)
  rebuild : limit < total + 1 → BuildFits size (rescaled halve counts idx)

/-- Summing the counts below a symbol through the tree, and going on to the next, exceeds no
word. -/
def DescentFits (counts fenwick : Nat → Nat) (symbol : Nat) : Prop :=
  (Fenwick.prefixSum (checked fenwick) symbol).Holds (cumulative counts symbol) ∧
    cumulative counts symbol + counts symbol < 2 ^ 32

/-- The sums at all candidates of a search fit. -/
def SearchFits {M : Type} [AddCommMonoid M] (fits : M → Prop) (tree : Nat → M)
    (boundary : Nat → M → Nat) (limit target : Nat) (start : Fenwick.Search M) : Prop :=
  ∀ taken step later, [128, 64, 32, 16, 8, 4, 2, 1] = taken ++ step :: later →
    let found := taken.foldl (Fenwick.Search.step tree boundary limit target) start
    found.low + step < limit → fits (found.sum + tree (found.low + step))

/-- Counts with their tree and their total, which is below the largest word. -/
structure Bounded (size : Nat) (counts fenwick : Nat → Nat) (total : Nat) : Prop where
  represents : Fenwick.Represents fenwick (fun position => counts (position - 1)) size
  total_eq : total = cumulative counts size
  total_lt : total + 1 < 2 ^ 32

/-- A tree below the word's range is built without overflow. -/
theorem buildFits_of_lt {size : Nat} {counts : Nat → Nat}
    (below : cumulative counts size < 2 ^ 32) :
    BuildFits size counts := by
  intro node positive inside
  rw [Fenwick.build_represents size _ node positive inside,
    Fenwick.build_represents size _ node positive inside]
  apply CheckedSum.holds_sum
  calc ∑ i ∈ Finset.Ioc (Fenwick.below node) node, counts (i - 1)
      ≤ ∑ i ∈ Finset.Ioc 0 size, counts (i - 1) :=
        Finset.sum_le_sum_of_subset (Finset.Ioc_subset_Ioc (Nat.zero_le _) inside)
    _ = cumulative counts size := (Order0Model.cumulative_eq_sum counts size).symm
    _ < 2 ^ 32 := below

theorem scanFits_of_lt {size : Nat} {counts : Nat → Nat} (below : cumulative counts size < 2 ^ 32) :
    ScanFits size counts :=
  fun _ inside => (Order0Model.cumulative_mono counts inside).trans_lt below

namespace Bounded

variable {size : Nat} {counts fenwick : Nat → Nat} {total : Nat}
  (bounded : Bounded size counts fenwick total)

include bounded

/-- The cumulative counts fit their words. -/
theorem cumulative_lt {symbol : Nat} (inside : symbol ≤ size) :
    cumulative counts symbol + 1 < 2 ^ 32 := by
  have le := Order0Model.cumulative_mono counts inside
  have lt := bounded.total_lt
  rw [bounded.total_eq] at lt
  omega

theorem scan : ScanFits size counts :=
  scanFits_of_lt (Nat.lt_of_succ_lt (bounded.cumulative_lt le_rfl))

theorem build : BuildFits size counts :=
  buildFits_of_lt (Nat.lt_of_succ_lt (bounded.cumulative_lt le_rfl))

/-- **Counting a symbol** fits if halving makes no count larger. -/
theorem countFits (limit : Nat) {halve : Nat → Nat} {idx : Nat} (inside : idx < size)
    (smaller : ∀ i < size, halve (Function.update counts idx (counts idx + 1) i) ≤
      Function.update counts idx (counts idx + 1) i) :
    CountFits size limit halve counts fenwick total idx := by
  have counted := Order0Model.cumulative_update counts idx 1 size inside
  have below : cumulative (rescaled halve counts idx) size < 2 ^ 32 := by
    have le := @Order0Model.cumulative_le (rescaled halve counts idx) _ size smaller
    have lt := bounded.total_lt
    rw [bounded.total_eq] at lt
    omega
  refine ⟨?_, bounded.total_lt, fun node positive within => ?_, fun _ => scanFits_of_lt below,
    fun _ => buildFits_of_lt below⟩
  · have sum := bounded.cumulative_lt (Nat.succ_le_of_lt inside)
    rw [cumulative] at sum
    omega
  · have le : fenwick node ≤ cumulative counts node := by
      rw [bounded.represents node positive within, Order0Model.cumulative_eq_sum]
      exact Finset.sum_le_sum_of_subset (Finset.Ioc_subset_Ioc_left (Nat.zero_le _))
    have lt := bounded.cumulative_lt within
    omega

/-- The tree is descended without overflow. -/
theorem descentFits {symbol : Nat} (inside : symbol < size) :
    DescentFits counts fenwick symbol := by
  have next := bounded.cumulative_lt (Nat.succ_le_of_lt inside)
  rw [cumulative] at next
  refine ⟨?_, by omega⟩
  have lifted := bounded.represents.map (CheckedSum.ofNatHom (2 ^ 32))
  have lt := bounded.cumulative_lt inside.le
  have sum := Fenwick.prefixSum_eq lifted inside.le
  rw [Order0Model.cumulative_eq_sum] at lt ⊢
  exact sum ▸ CheckedSum.holds_sum (by omega)

end Bounded

/-- The candidates of a search have prefix sums, whatever the boundaries are. -/
theorem searchFits_of_sums {M : Type} [AddCommMonoid M] {fits : M → Prop} {tree values : Nat → M}
    (boundary : Nat → M → Nat) {size limit : Nat} (target : Nat) {start : Fenwick.Search M}
    (represents : Fenwick.Represents tree values size) (within : limit ≤ size + 1)
    (sums : start.Sums values limit 8)
    (fit : ∀ position < limit, fits (∑ i ∈ Finset.Ioc 0 position, values i)) :
    SearchFits fits tree boundary limit target start := by
  intro taken step later steps found inside
  have halvings : Fenwick.halvings 8 = [128, 64, 32, 16, 8, 4, 2, 1] := by decide
  have sum := sums.candidates boundary target represents within (halvings.trans steps) inside
  rw [sum]
  exact fit _ inside

/-! ## Runs -/

/-- One use of a predictor within a block. -/
inductive CodingStep where
  | predict
  | query (byte : UInt8)
  | decode (freq : Nat)
  | update (byte : UInt8)
  deriving DecidableEq, Repr

/-- The state after one use. -/
def CodingStep.run {σ : Type} [ProbabilityPredictor σ] (state : σ) : CodingStep → σ
  | .predict => (ProbabilityPredictor.predictCdf state).2
  | .query byte => (ProbabilityPredictor.queryCdf state byte).2
  | .decode freq => (ProbabilityPredictor.decodeSymbol state freq).2
  | .update byte => ProbabilityPredictor.update state byte

/-- The additions of all uses in a run fit their words. -/
def RunFits {σ : Type} [ProbabilityPredictor σ] (fits : σ → CodingStep → Prop) :
    σ → List CodingStep → Prop
  | _, [] => True
  | state, step :: steps => fits state step ∧ RunFits fits (step.run state) steps

/-- **Runs fit** where an invariant of the states makes every use fit. -/
theorem runFits_of_invariant {σ : Type} [ProbabilityPredictor σ] {fits : σ → CodingStep → Prop}
    {invariant : σ → Prop} (step : ∀ state step, invariant state →
      fits state step ∧ invariant (step.run state)) {state : σ} (holds : invariant state)
    (steps : List CodingStep) : RunFits fits state steps := by
  induction steps generalizing state with
  | nil => trivial
  | cons first steps ih =>
      obtain ⟨fit, next⟩ := step state first holds
      exact ⟨fit, ih next⟩

/-- The number of symbols a run counts. -/
def updates : List CodingStep → Nat
  | [] => 0
  | .update _ :: steps => updates steps + 1
  | _ :: steps => updates steps

end CountWords

end AetherArch
