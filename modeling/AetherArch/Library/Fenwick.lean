import Mathlib.Tactic
import Mathlib.Algebra.BigOperators.Intervals
import Mathlib.Order.Interval.Finset.Nat

/-! # Fenwick trees

A Fenwick tree over positions `1 … size` keeps, at node `j`, the sum of the
positions `below j + 1 … j`, where `below j` is `j` without its lowest set bit.
A prefix sum descends through `below`, an update climbs through `next`, and a
search halves its step from a power of two.

A tree is a function of its nodes. `push` and `build` describe it and are not meant to be run
on many nodes: a node is computed again at every lookup, through the updates it depends on.
-/

namespace Fenwick

variable {M : Type*} [AddCommMonoid M]

/-- A position without its lowest set bit. -/
def below (position : ℕ) : ℕ := position &&& (position - 1)

/-- The lowest set bit of a position. -/
def lowestBit (position : ℕ) : ℕ := position - below position

/-- A position plus its lowest set bit. -/
def next (position : ℕ) : ℕ := position + lowestBit position

/-- A double loses its lowest bit with its half. -/
theorem below_two_mul (half : ℕ) : below (2 * half) = 2 * below half := by
  apply Nat.eq_of_testBit_eq
  intro bit
  cases bit with
  | zero => simp [below]
  | succ bit =>
      have shifted : (2 * half - 1) / 2 = half - 1 := by omega
      simp [below, Nat.testBit_succ, Nat.and_div_two, shifted]

/-- An odd number loses its last bit. -/
theorem below_two_mul_add_one (half : ℕ) : below (2 * half + 1) = 2 * half := by
  have even : 2 * half + 1 - 1 = 2 * half := Nat.add_sub_cancel _ _
  have halved : (2 * half + 1) / 2 = half := by omega
  apply Nat.eq_of_testBit_eq
  intro bit
  cases bit with
  | zero => simp [below]
  | succ bit => simp [below, Nat.testBit_succ, Nat.and_div_two, halved]

theorem below_lt {position : ℕ} (positive : 0 < position) : below position < position :=
  Nat.lt_of_le_of_lt Nat.and_le_right (by omega)

theorem next_two_mul (half : ℕ) : next (2 * half) = 2 * next half := by
  simp only [next, lowestBit, below_two_mul]
  omega

theorem next_two_mul_add_one (half : ℕ) : next (2 * half + 1) = 2 * (half + 1) := by
  simp only [next, lowestBit, below_two_mul_add_one]
  omega

/-- A parent lies above its child. -/
theorem lt_next {position : ℕ} (positive : 0 < position) : position < next position := by
  have := below_lt positive
  unfold next lowestBit
  omega

/-- A node above a multiple of twice its weight sums the step it makes. -/
theorem below_add_two_pow {low exponent : ℕ} (multiple : 2 ^ (exponent + 1) ∣ low) :
    below (low + 2 ^ exponent) = low := by
  induction exponent generalizing low with
  | zero =>
      obtain ⟨half, rfl⟩ := multiple
      exact below_two_mul_add_one half
  | succ exponent ih =>
      obtain ⟨factor, rfl⟩ := multiple
      have halved : 2 ^ (exponent + 1 + 1) * factor + 2 ^ (exponent + 1) =
          2 * (2 ^ (exponent + 1) * factor + 2 ^ exponent) := by ring
      rw [halved, below_two_mul, ih (Dvd.intro factor rfl)]
      ring

/-- A node covers a position when its sum includes it. -/
def Covers (node position : ℕ) : Prop := below node < position ∧ position ≤ node

theorem covers_self {position : ℕ} (positive : 0 < position) : Covers position position :=
  ⟨below_lt positive, le_rfl⟩

/-- A node that covers a position other than its own covers the next one too. -/
theorem Covers.up {node position : ℕ} (covers : Covers node position)
    (positive : 0 < position) (other : position < node) : Covers node (next position) := by
  induction node using Nat.strongRecOn generalizing position with
  | ind node ih =>
      obtain ⟨above, _⟩ := covers
      obtain ⟨half, rfl | rfl⟩ := Nat.even_or_odd' node
      · rw [below_two_mul] at above
        obtain ⟨low, rfl | rfl⟩ := Nat.even_or_odd' position
        · have halved : Covers half low := ⟨by omega, by omega⟩
          obtain ⟨nextAbove, nextLe⟩ := ih half (by omega) halved (by omega) (by omega)
          rw [Covers, next_two_mul, below_two_mul]
          omega
        · rw [Covers, next_two_mul_add_one, below_two_mul]
          omega
      · rw [below_two_mul_add_one] at above
        omega

/-- A node that covers the position next to another covers that one too. -/
theorem Covers.of_next {node position : ℕ} (positive : 0 < position)
    (covers : Covers node (next position)) : Covers node position := by
  have before := lt_next positive
  refine ⟨?_, before.le.trans covers.2⟩
  induction node using Nat.strongRecOn generalizing position with
  | ind node ih =>
      obtain ⟨above, le⟩ := covers
      obtain ⟨half, rfl | rfl⟩ := Nat.even_or_odd' node
      · rw [below_two_mul] at above ⊢
        obtain ⟨low, rfl | rfl⟩ := Nat.even_or_odd' position
        · rw [next_two_mul] at above le
          have lowPositive : 0 < low := by omega
          have := ih half (by omega) lowPositive ⟨by omega, by omega⟩ (lt_next lowPositive)
          omega
        · rw [next_two_mul_add_one] at above
          omega
      · rw [below_two_mul_add_one] at above
        obtain ⟨low, rfl | rfl⟩ := Nat.even_or_odd' position
        · rw [next_two_mul] at above le
          omega
        · rw [next_two_mul_add_one] at above le
          omega

/-- The tree holds the sums of a sequence over positions `1 … size`. -/
def Represents (tree values : ℕ → M) (size : ℕ) : Prop :=
  ∀ node, 0 < node → node ≤ size → tree node = ∑ i ∈ Finset.Ioc (below node) node, values i

/-- Only the values at the positions of the tree matter. -/
theorem Represents.congr {tree values others : ℕ → M} {size : ℕ}
    (represents : Represents tree values size)
    (agree : ∀ i, 0 < i → i ≤ size → values i = others i) : Represents tree others size := by
  intro node positive inside
  rw [represents node positive inside]
  refine Finset.sum_congr rfl fun i member => ?_
  rw [Finset.mem_Ioc] at member
  exact agree i (by omega) (member.2.trans inside)

/-- The values determine the nodes. -/
theorem Represents.unique {tree other values others : ℕ → M} {size : ℕ}
    (represents : Represents tree values size) (again : Represents other others size)
    (agree : ∀ i, 0 < i → i ≤ size → values i = others i) {node : ℕ} (positive : 0 < node)
    (inside : node ≤ size) : tree node = other node := by
  rw [represents.congr agree node positive inside, again node positive inside]

/-- The sum of the first `position` values. -/
def prefixSum (tree : ℕ → M) (position : ℕ) : M :=
  if positive : 0 < position then
    have := below_lt positive
    tree position + prefixSum tree (below position)
  else 0
termination_by position

/-- **A prefix query adds the values up to its position.** -/
theorem prefixSum_eq {tree values : ℕ → M} {size position : ℕ}
    (represents : Represents tree values size) (le : position ≤ size) :
    prefixSum tree position = ∑ i ∈ Finset.Ioc 0 position, values i := by
  induction position using Nat.strongRecOn with
  | ind position ih =>
      unfold prefixSum
      split
      · rename_i positive
        have less := below_lt positive
        rw [represents position positive le, ih _ less (by omega), add_comm,
          Finset.sum_Ioc_consecutive values (Nat.zero_le _) less.le]
      · have zero : position = 0 := by omega
        rw [zero, Finset.Ioc_self, Finset.sum_empty]

/-- Add to the nodes on the way up from a position. -/
def add (size : ℕ) (tree : ℕ → M) (position : ℕ) (delta : M) : ℕ → M :=
  if inside : 0 < position ∧ position ≤ size then
    have := lt_next inside.1
    add size (Function.update tree position (tree position + delta)) (next position) delta
  else tree
termination_by size + 1 - position

/-- The way up from a position visits the nodes that cover it. -/
theorem add_apply {size : ℕ} (tree : ℕ → M) {position : ℕ} (delta : M) (positive : 0 < position)
    {node : ℕ} (inside : node ≤ size) :
    (Covers node position → add size tree position delta node = tree node + delta) ∧
      (¬Covers node position → add size tree position delta node = tree node) := by
  induction remaining : size + 1 - position using Nat.strongRecOn generalizing tree position with
  | ind remaining ih =>
      have before := lt_next positive
      unfold add
      split
      · rename_i within
        obtain ⟨hit, miss⟩ := ih (size + 1 - next position) (by omega)
          (Function.update tree position (tree position + delta)) (by omega) rfl
        by_cases same : node = position
        · subst same
          have beyond : ¬Covers node (next node) := fun covers => by
            have := covers.2
            omega
          rw [miss beyond, Function.update_self]
          exact ⟨fun _ => rfl, fun missed => absurd (covers_self positive) missed⟩
        · rw [Function.update_of_ne same] at hit miss
          refine ⟨fun covers => hit (covers.up positive ?_), fun missed => miss fun covers =>
            missed (covers.of_next positive)⟩
          exact lt_of_le_of_ne covers.2 (Ne.symm same)
      · rename_i outside
        refine ⟨fun covers => absurd covers.2 (by omega), fun _ => rfl⟩

/-- **Adding at a position** represents the sequence increased there. -/
theorem add_represents {tree values : ℕ → M} {size position : ℕ} (delta : M)
    (represents : Represents tree values size) (positive : 0 < position) :
    Represents (add size tree position delta)
      (Function.update values position (values position + delta)) size := by
  intro node nodePositive inside
  obtain ⟨hit, miss⟩ := add_apply tree delta positive inside
  by_cases covers : Covers node position
  · rw [hit covers, represents node nodePositive inside]
    have member : position ∈ Finset.Ioc (below node) node := Finset.mem_Ioc.mpr covers
    rw [Finset.sum_update_of_mem member, Finset.sdiff_singleton_eq_erase,
      ← Finset.add_sum_erase _ values member]
    abel
  · rw [miss covers, represents node nodePositive inside]
    refine Finset.sum_congr rfl fun i member => ?_
    rw [Function.update_of_ne]
    rintro rfl
    exact covers (Finset.mem_Ioc.mp member)

/-! ## Building a tree in one sweep -/

/-- What a node covers is covered by every node above it. -/
theorem Covers.trans {top node position : ℕ} (positive : 0 < position)
    (upper : Covers top node) (lower : Covers node position) : Covers top position := by
  induction distance : node - position using Nat.strongRecOn generalizing position with
  | ind distance ih =>
      by_cases same : position = node
      · exact same ▸ upper
      · have other : position < node := lt_of_le_of_ne lower.2 same
        have before := lt_next positive
        exact (ih (node - next position) (by omega) (by omega) (lower.up positive other)
          rfl).of_next positive

/-- A position strictly below a node is covered by one of the node's children. -/
theorem Covers.child {node position : ℕ} (positive : 0 < position) (covers : Covers node position)
    (other : position < node) :
    ∃ child, 0 < child ∧ next child = node ∧ Covers child position := by
  induction distance : node - position using Nat.strongRecOn generalizing position with
  | ind distance ih =>
      have before := lt_next positive
      by_cases last : next position = node
      · exact ⟨position, positive, last, covers_self positive⟩
      · have further := covers.up positive other
        have inside : next position < node := lt_of_le_of_ne further.2 last
        obtain ⟨child, childPositive, parent, lower⟩ :=
          ih (node - next position) (by omega) (by omega) further inside rfl
        exact ⟨child, childPositive, parent, lower.of_next positive⟩

/-- Two children of a node cover different positions. -/
theorem Covers.child_unique {first second position : ℕ} (positive : 0 < position)
    (parents : next first = next second) (lower : Covers first position)
    (higher : Covers second position) : first = second := by
  have noneBelow {low high : ℕ} (lowCovers : Covers low position)
      (highCovers : Covers high position) (same : next low = next high) : ¬low < high := by
    intro less
    have covers : Covers high low := ⟨highCovers.1.trans_le lowCovers.2, less.le⟩
    have := (covers.up (positive.trans_le lowCovers.2) less).2
    have := lt_next (positive.trans_le highCovers.2)
    omega
  exact le_antisymm (not_lt.mp (noneBelow higher lower parents.symm))
    (not_lt.mp (noneBelow lower higher parents))

/-- The children of a node among the positions up to a bound. -/
def children (node bound : ℕ) : Finset ℕ := {child ∈ Finset.Ioc 0 bound | next child = node}

/-- A node sums its own value and the nodes of its children. -/
theorem sum_children (values : ℕ → M) {node bound : ℕ} (positive : 0 < node)
    (bounded : node ≤ bound + 1) :
    ∑ i ∈ Finset.Ioc (below node) node, values i =
      values node + ∑ child ∈ children node bound,
        ∑ i ∈ Finset.Ioc (below child) child, values i := by
  have own : node ∈ Finset.Ioc (below node) node := Finset.mem_Ioc.mpr ⟨below_lt positive, le_rfl⟩
  rw [← Finset.add_sum_erase _ values own, ← Finset.sum_biUnion]
  · congr 1
    refine Finset.sum_congr ?_ fun _ _ => rfl
    ext i
    simp only [Finset.mem_erase, Finset.mem_Ioc, Finset.mem_biUnion, children, Finset.mem_filter]
    constructor
    · rintro ⟨other, above, le⟩
      have iPositive : 0 < i := by omega
      have less : i < node := lt_of_le_of_ne le other
      obtain ⟨child, childPositive, parent, lower⟩ := Covers.child iPositive ⟨above, le⟩ less
      have := lt_next childPositive
      exact ⟨child, ⟨⟨childPositive, by omega⟩, parent⟩, lower⟩
    · rintro ⟨child, ⟨⟨childPositive, -⟩, parent⟩, lower⟩
      have less := lt_next childPositive
      have upper : Covers node child := parent ▸ (covers_self (by omega)).of_next childPositive
      have iPositive : 0 < i := by
        have := lower.1
        omega
      have covers := upper.trans iPositive lower
      have := lower.2
      exact ⟨by omega, covers⟩
  · intro first firstMember second secondMember different
    rw [Function.onFun, Finset.disjoint_left]
    intro i firstCovers secondCovers
    simp only [children, Finset.coe_filter, Set.mem_ofPred_eq, Finset.mem_Ioc] at *
    exact different (Covers.child_unique (by omega)
      (firstMember.2.trans secondMember.2.symm) firstCovers secondCovers)

/-- Add a node to its parent. -/
def push (size : ℕ) (tree : ℕ → M) (node : ℕ) : ℕ → M :=
  if next node ≤ size then Function.update tree (next node) (tree (next node) + tree node)
  else tree

/-- The tree of a sequence, built by one sweep over the nodes. -/
def build (size : ℕ) (values : ℕ → M) : ℕ → M :=
  (List.range' 1 size).foldl (push size) values

/-- After the nodes up to a bound were pushed, a node holds its value and the nodes
of its children among them. -/
theorem foldl_push {size : ℕ} (values : ℕ → M) {bound : ℕ} {node : ℕ} (positive : 0 < node)
    (inside : node ≤ size) :
    (List.range' 1 bound).foldl (push size) values node =
      values node + ∑ child ∈ children node bound,
        ∑ i ∈ Finset.Ioc (below child) child, values i := by
  induction bound generalizing node with
  | zero => simp [children]
  | succ bound ih =>
      have grown : children node (bound + 1) =
          if next (bound + 1) = node then insert (bound + 1) (children node bound)
          else children node bound := by
        have inserted : Finset.Ioc 0 (bound + 1) = insert (bound + 1) (Finset.Ioc 0 bound) := by
          ext i
          simp only [Finset.mem_Ioc, Finset.mem_insert]
          omega
        rw [children, inserted, Finset.filter_insert]
        rfl
      have fresh : bound + 1 ∉ children node bound := by simp [children]
      rw [List.range'_1_concat, List.foldl_append, List.foldl_cons, List.foldl_nil, grown, push,
        Nat.add_comm 1 bound]
      have before : bound + 1 < next (bound + 1) := lt_next (Nat.succ_pos bound)
      by_cases parent : next (bound + 1) = node
      · have pushed := @ih (bound + 1) (Nat.succ_pos _) (by omega)
        rw [← sum_children values (Nat.succ_pos _) le_rfl] at pushed
        rw [if_pos (by omega), if_pos parent, parent, Function.update_self, ih positive inside,
          pushed, Finset.sum_insert fresh]
        abel
      · rw [if_neg parent, ← ih positive inside]
        split
        · rw [Function.update_of_ne (Ne.symm parent)]
        · rfl

/-- **The sweep builds the tree of the sequence.** -/
theorem build_represents (size : ℕ) (values : ℕ → M) :
    Represents (build size values) values size := by
  intro node positive inside
  rw [build, foldl_push values positive inside, ← sum_children values positive (by omega)]

/-- Two trees side by side represent the pairs of their values. -/
theorem Represents.prod {N : Type*} [AddCommMonoid N] {tree values : ℕ → M}
    {others otherValues : ℕ → N} {size : ℕ} (first : Represents tree values size)
    (second : Represents others otherValues size) :
    Represents (fun node => (tree node, others node))
      (fun position => (values position, otherValues position)) size := by
  intro node positive inside
  apply Prod.ext
  · rw [Prod.fst_sum]
    exact first node positive inside
  · rw [Prod.snd_sum]
    exact second node positive inside

/-- A tree of sums is carried along by an additive map. -/
theorem Represents.map {N : Type*} [AddCommMonoid N] {tree values : ℕ → M} {size : ℕ}
    (represents : Represents tree values size) (f : M →+ N) :
    Represents (fun node => f (tree node)) (fun position => f (values position)) size := by
  intro node positive inside
  dsimp only
  rw [represents node positive inside, map_sum]

/-! ## Searching by halving steps -/

/-- The state of a search: the position found so far with its prefix sum, and the
boundary values at its two ends. -/
structure Search (M : Type*) where
  low : ℕ
  sum : M
  lowValue : ℕ
  highValue : ℕ

/-- Try to move up by a step, as far as the boundary there stays within the target. -/
def Search.step (tree : ℕ → M) (boundary : ℕ → M → ℕ) (limit target : ℕ) (search : Search M)
    (step : ℕ) : Search M :=
  let candidate := search.low + step
  if candidate < limit then
    let sum := search.sum + tree candidate
    let value := boundary candidate sum
    if value ≤ target then { search with low := candidate, sum := sum, lowValue := value }
    else { search with highValue := value }
  else search

/-- A search reads the nodes below its limit only. -/
theorem Search.foldl_congr {tree other : ℕ → M} (boundary : ℕ → M → ℕ) {limit : ℕ} (target : ℕ)
    (same : ∀ node, 0 < node → node < limit → tree node = other node) {steps : List ℕ}
    (positive : ∀ step ∈ steps, 0 < step) (search : Search M) :
    steps.foldl (Search.step tree boundary limit target) search =
      steps.foldl (Search.step other boundary limit target) search := by
  induction steps generalizing search with
  | nil => rfl
  | cons step steps ih =>
      have first : search.step tree boundary limit target step =
          search.step other boundary limit target step := by
        unfold Search.step
        dsimp only
        split
        · rename_i inside
          have moved := positive step (List.mem_cons_self ..)
          rw [same _ (by omega) inside]
        · rfl
      rw [List.foldl_cons, List.foldl_cons, first]
      exact ih (fun step member => positive step (List.mem_cons_of_mem _ member)) _

/-- The steps of a search over `2 ^ exponent` positions. -/
def halvings (exponent : ℕ) : List ℕ := (List.range exponent).reverse.map (2 ^ ·)

/-- The boundary at a position, or the top of the scale past the limit. -/
def boundaryAt (values : ℕ → M) (boundary : ℕ → M → ℕ) (limit top position : ℕ) : ℕ :=
  if position < limit then boundary position (∑ i ∈ Finset.Ioc 0 position, values i) else top

/-- The target lies between the boundaries at the ends of the search. -/
structure Search.Brackets (values : ℕ → M) (boundary : ℕ → M → ℕ) (limit top target exponent : ℕ)
    (search : Search M) : Prop where
  multiple : 2 ^ exponent ∣ search.low
  inside : search.low < limit
  sum_eq : search.sum = ∑ i ∈ Finset.Ioc 0 search.low, values i
  lowValue_eq : search.lowValue = boundaryAt values boundary limit top search.low
  highValue_eq :
    search.highValue = boundaryAt values boundary limit top (search.low + 2 ^ exponent)
  low_le : search.lowValue ≤ target
  lt_high : target < search.highValue

/-- The sum kept by a search is the prefix sum at its position. -/
structure Search.Sums (values : ℕ → M) (limit exponent : ℕ) (search : Search M) : Prop where
  multiple : 2 ^ exponent ∣ search.low
  inside : search.low < limit
  sum_eq : search.sum = ∑ i ∈ Finset.Ioc 0 search.low, values i

/-- Brackets contain the running sum. -/
theorem Search.Brackets.sums {values : ℕ → M} {boundary : ℕ → M → ℕ}
    {limit top target exponent : ℕ} {search : Search M}
    (brackets : search.Brackets values boundary limit top target exponent) :
    search.Sums values limit exponent :=
  ⟨brackets.multiple, brackets.inside, brackets.sum_eq⟩

/-- The search starts with nothing summed. -/
theorem Search.Sums.zero {values : ℕ → M} {limit exponent lowValue highValue : ℕ}
    (positive : 0 < limit) :
    Search.Sums values limit exponent
      { low := 0, sum := 0, lowValue := lowValue, highValue := highValue } :=
  ⟨dvd_zero _, positive, rfl⟩

/-- The sum at the next candidate is a prefix sum. -/
theorem Search.Sums.candidate {tree values : ℕ → M} {size limit exponent : ℕ} {search : Search M}
    (represents : Represents tree values size) (sums : search.Sums values limit (exponent + 1))
    (within : search.low + 2 ^ exponent ≤ size) :
    search.sum + tree (search.low + 2 ^ exponent) =
      ∑ i ∈ Finset.Ioc 0 (search.low + 2 ^ exponent), values i := by
  have positive : 0 < 2 ^ exponent := by positivity
  rw [represents _ (by omega) within, below_add_two_pow sums.multiple, sums.sum_eq,
    Finset.sum_Ioc_consecutive values (Nat.zero_le _) (by omega)]

/-- Sums stay prefix sums whatever the boundaries are. -/
theorem Search.Sums.step {tree values : ℕ → M} (boundary : ℕ → M → ℕ)
    {size limit exponent : ℕ} (target : ℕ) {search : Search M}
    (represents : Represents tree values size) (fits : limit ≤ size + 1)
    (sums : search.Sums values limit (exponent + 1)) :
    (search.step tree boundary limit target (2 ^ exponent)).Sums values limit exponent := by
  have node := sums.candidate represents
  have coarse : 2 ^ exponent ∣ search.low :=
    (pow_dvd_pow 2 (Nat.le_succ exponent)).trans sums.multiple
  unfold Search.step
  dsimp only
  split
  · rename_i within
    split
    · exact ⟨Nat.dvd_add coarse dvd_rfl, within, node (by omega)⟩
    · exact ⟨coarse, sums.inside, sums.sum_eq⟩
  · exact ⟨coarse, sums.inside, sums.sum_eq⟩

/-- **One halving of the descent keeps its brackets.** -/
theorem Search.Brackets.step {tree values : ℕ → M} {boundary : ℕ → M → ℕ}
    {size limit top target exponent : ℕ} {search : Search M}
    (represents : Represents tree values size) (fits : limit ≤ size + 1)
    (brackets : search.Brackets values boundary limit top target (exponent + 1)) :
    (search.step tree boundary limit target (2 ^ exponent)).Brackets values boundary limit top
      target exponent := by
  have node := brackets.sums.candidate represents
  obtain ⟨multiple, inside, sumEq, lowEq, highEq, lowLe, ltHigh⟩ := brackets
  have coarse : 2 ^ exponent ∣ search.low := (pow_dvd_pow 2 (Nat.le_succ exponent)).trans multiple
  have positive : 0 < 2 ^ exponent := by positivity
  have doubled : 2 ^ (exponent + 1) = 2 ^ exponent + 2 ^ exponent := by ring
  unfold Search.step
  dsimp only
  split
  · rename_i within
    rw [node (by omega)]
    have value : boundaryAt values boundary limit top (search.low + 2 ^ exponent) =
        boundary (search.low + 2 ^ exponent)
          (∑ i ∈ Finset.Ioc 0 (search.low + 2 ^ exponent), values i) := if_pos within
    split
    · rename_i reached
      refine ⟨Nat.dvd_add coarse dvd_rfl, within, rfl, value.symm, ?_, reached, ltHigh⟩
      dsimp only
      rw [highEq, doubled, Nat.add_assoc]
    · rename_i beyond
      exact ⟨coarse, inside, sumEq, lowEq, value.symm, lowLe, not_le.mp beyond⟩
  · rename_i outside
    refine ⟨coarse, inside, sumEq, lowEq, ?_, lowLe, ltHigh⟩
    rw [highEq, boundaryAt, boundaryAt, if_neg (by omega), if_neg outside]

theorem halvings_succ (exponent : ℕ) :
    halvings (exponent + 1) = 2 ^ exponent :: halvings exponent := by
  simp [halvings, List.range_succ]

/-- Every candidate inside the limit has a prefix sum. -/
theorem Search.Sums.candidates {tree values : ℕ → M} (boundary : ℕ → M → ℕ)
    {size limit exponent : ℕ} (target : ℕ) {search : Search M}
    (represents : Represents tree values size) (fits : limit ≤ size + 1)
    (sums : search.Sums values limit exponent) {taken later : List ℕ} {step : ℕ}
    (steps : halvings exponent = taken ++ step :: later) :
    let found := taken.foldl (Search.step tree boundary limit target) search
    found.low + step < limit →
      found.sum + tree (found.low + step) = ∑ i ∈ Finset.Ioc 0 (found.low + step), values i := by
  induction exponent generalizing search taken with
  | zero => simp [halvings] at steps
  | succ exponent ih =>
      rw [halvings_succ] at steps
      cases taken with
      | nil =>
          obtain ⟨rfl, -⟩ := List.cons.inj steps
          intro found inside
          have below : search.low + 2 ^ exponent < limit := inside
          have within : search.low + 2 ^ exponent ≤ size := by omega
          exact sums.candidate represents within
      | cons first taken =>
          obtain ⟨rfl, rest⟩ := List.cons.inj steps
          exact ih (sums.step boundary target represents fits) rest

/-- Every candidate of a search over `2 ^ exponent` positions lies inside, and its sum is a
prefix sum. -/
theorem Search.Brackets.candidates {tree values : ℕ → M} {boundary : ℕ → M → ℕ}
    {limit top target exponent : ℕ} {search : Search M}
    (represents : Represents tree values limit)
    (brackets : search.Brackets values boundary limit top target exponent)
    (fits : search.low + 2 ^ exponent ≤ limit) {taken later : List ℕ} {step : ℕ}
    (steps : halvings exponent = taken ++ step :: later) :
    let found := taken.foldl (Search.step tree boundary limit target) search
    found.low + step < limit ∧
      found.sum + tree (found.low + step) = ∑ i ∈ Finset.Ioc 0 (found.low + step), values i := by
  induction exponent generalizing search taken with
  | zero => simp [halvings] at steps
  | succ exponent ih =>
      have doubled : 2 ^ (exponent + 1) = 2 ^ exponent + 2 ^ exponent := by ring
      have positive : 0 < 2 ^ exponent := by positivity
      rw [halvings_succ] at steps
      cases taken with
      | nil =>
          obtain ⟨rfl, -⟩ := List.cons.inj steps
          have below : search.low + 2 ^ exponent < limit := by omega
          exact ⟨below, brackets.sums.candidate represents below.le⟩
      | cons first taken =>
          obtain ⟨rfl, rest⟩ := List.cons.inj steps
          refine ih (brackets.step represents (Nat.le_succ _)) ?_ rest
          unfold Search.step
          dsimp only
          split
          · split <;> dsimp only <;> omega
          · omega

/-- **A search ends at the position whose boundaries enclose the target.** -/
theorem Search.Brackets.foldl {tree values : ℕ → M} {boundary : ℕ → M → ℕ}
    {size limit top target exponent : ℕ} {search : Search M}
    (represents : Represents tree values size) (fits : limit ≤ size + 1)
    (brackets : search.Brackets values boundary limit top target exponent) :
    ((halvings exponent).foldl (Search.step tree boundary limit target) search).Brackets values
      boundary limit top target 0 := by
  induction exponent generalizing search with
  | zero => exact brackets
  | succ exponent ih =>
      rw [halvings_succ, List.foldl_cons]
      exact ih (brackets.step represents fits)

end Fenwick
