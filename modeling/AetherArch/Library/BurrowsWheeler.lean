import Mathlib.Tactic
import Mathlib.Data.List.GetD
import Mathlib.Data.List.Lex
import Mathlib.Data.List.Rotate
import Mathlib.Data.Fin.Tuple.Sort

/-! # The Burrows–Wheeler matrix

The rows of the matrix are the rotations of a text in sorted order, and its last
column is the transform. Sorting the column stably carries every row to its right
rotation (`BurrowsWheeler.row_lastFirst`), also when equal rotations tie, so the
column alone spells the text backwards from the text's own row.
-/

namespace BurrowsWheeler

variable {α : Type*} [LinearOrder α]

/-! ## Lexicographic order on rows -/

/-- Lists are ordered by their first elements, then by the rest. -/
theorem cons_le_cons_iff {first second : α} {xs ys : List α} :
    first :: xs ≤ second :: ys ↔ first < second ∨ first = second ∧ xs ≤ ys := by
  simp only [le_iff_lt_or_eq, List.cons_lt_cons_iff, List.cons.injEq]
  tauto

/-- Dropping the last entries keeps the order of rows of one length. -/
theorem le_of_concat_le_concat {xs ys : List α} {first second : α}
    (same : xs.length = ys.length) (le : xs ++ [first] ≤ ys ++ [second]) : xs ≤ ys := by
  induction xs generalizing ys with
  | nil => cases ys with
    | nil => exact le_rfl
    | cons _ _ => simp at same
  | cons x xs ih => cases ys with
    | nil => simp at same
    | cons y ys =>
        rw [List.cons_append, List.cons_append, cons_le_cons_iff] at le
        rw [cons_le_cons_iff]
        exact le.imp_right fun ⟨head, tail⟩ => ⟨head, ih (Nat.succ.inj same) tail⟩

/-- The empty list comes first. -/
theorem nil_le (xs : List α) : [] ≤ xs := by
  cases xs with
  | nil => exact le_rfl
  | cons x xs => exact le_of_lt (List.nil_lt_cons x xs)

/-- Truncation keeps the order. -/
theorem take_le_take {xs ys : List α} (le : xs ≤ ys) (count : ℕ) :
    xs.take count ≤ ys.take count := by
  induction count generalizing xs ys with
  | zero => rw [List.take_zero, List.take_zero]
  | succ count ih => cases xs with
    | nil =>
        rw [List.take_nil]
        exact nil_le _
    | cons x xs => cases ys with
      | nil => exact absurd le (not_le.mpr (List.nil_lt_cons x xs))
      | cons y ys =>
          rw [cons_le_cons_iff] at le
          rw [List.take_succ_cons, List.take_succ_cons, cons_le_cons_iff]
          exact le.imp_right fun ⟨head, tail⟩ => ⟨head, ih tail⟩

/-! ## Stable sorting of the last column -/

variable (column : List α)

/-- The place of an entry of the column when it is sorted stably. -/
def stablePosition (index : Fin column.length) : ℕ :=
  column.countP (· < column[index]) + (column.take index).count column[index]

variable {column}

/-- An entry is counted once it is passed. -/
theorem count_take_lt (index : Fin column.length) {bound : ℕ} (passed : index.val < bound) :
    (column.take index).count column[index] < (column.take bound).count column[index] := by
  have next : (column.take (index + 1)).count column[index] =
      (column.take index).count column[index] + 1 := by
    rw [List.take_succ_eq_append_getElem index.isLt, List.count_append]
    simp
  have grown :=
    ((List.take_prefix_take_left passed : column.take (index + 1) <+: _).sublist).count_le
    column[index]
  omega

/-- The entries up to a value. -/
theorem countP_add_count_le (column : List α) {first second : α} (less : first < second) :
    column.countP (· < first) + column.count first ≤ column.countP (· < second) := by
  induction column with
  | nil => simp
  | cons x column ih =>
      simp only [List.countP_cons, List.count_cons, decide_eq_true_eq, beq_iff_eq]
      by_cases below : x < first
      · rw [if_pos below, if_neg below.ne, if_pos (below.trans less)]
        omega
      · by_cases same : x = first
        · rw [if_neg below, if_pos same, if_pos (same ▸ less)]
          omega
        · rw [if_neg below, if_neg same]
          split <;> omega

/-- Smaller entries keep smaller positions. -/
theorem stablePosition_lt_of_lt {first second : Fin column.length}
    (less : column[first] < column[second]) :
    stablePosition column first < stablePosition column second := by
  have counted := count_take_lt first first.isLt
  rw [List.take_length] at counted
  have := countP_add_count_le column less
  unfold stablePosition
  omega

/-- Equal entries keep their order. -/
theorem stablePosition_lt_of_eq {first second : Fin column.length}
    (same : column[first] = column[second]) (before : first < second) :
    stablePosition column first < stablePosition column second := by
  have counted := count_take_lt first before
  unfold stablePosition
  rw [← same]
  omega

/-- A place earlier in the sorted column holds a smaller entry, or an equal one
from further up. -/
theorem lt_or_eq_of_stablePosition_lt {first second : Fin column.length}
    (less : stablePosition column first < stablePosition column second) :
    column[first] < column[second] ∨ column[first] = column[second] ∧ first < second := by
  rcases lt_trichotomy column[first] column[second] with smaller | same | larger
  · exact .inl smaller
  · rcases lt_trichotomy first second with before | rfl | after
    · exact .inr ⟨same, before⟩
    · omega
    · have := stablePosition_lt_of_eq same.symm after
      omega
  · have := stablePosition_lt_of_lt larger
    omega

/-- No two entries have the same position. -/
theorem stablePosition_injective : Function.Injective (stablePosition column) := by
  intro first second same
  rcases lt_trichotomy column[first] column[second] with smaller | equal | larger
  · have := stablePosition_lt_of_lt smaller
    omega
  · rcases lt_trichotomy first second with before | rfl | after
    · have := stablePosition_lt_of_eq equal before
      omega
    · rfl
    · have := stablePosition_lt_of_eq equal.symm after
      omega
  · have := stablePosition_lt_of_lt larger
    omega

/-- Smaller and equal entries are no more than all of them. -/
theorem countP_add_count_le_length (column : List α) (entry : α) :
    column.countP (· < entry) + column.count entry ≤ column.length := by
  induction column with
  | nil => simp
  | cons x column ih =>
      simp only [List.countP_cons, List.count_cons, decide_eq_true_eq, beq_iff_eq, List.length_cons]
      by_cases below : x < entry
      · rw [if_pos below, if_neg below.ne]
        omega
      · rw [if_neg below]
        split <;> omega

/-- Every position is inside of the column. -/
theorem stablePosition_lt (index : Fin column.length) :
    stablePosition column index < column.length := by
  have counted := count_take_lt index index.isLt
  rw [List.take_length] at counted
  have := countP_add_count_le_length column column[index]
  unfold stablePosition
  omega

/-- **The last-to-first mapping**: every row of the matrix to the row of its right
rotation. -/
noncomputable def lastFirst (column : List α) : Equiv.Perm (Fin column.length) :=
  Equiv.ofBijective (fun index => ⟨stablePosition column index, stablePosition_lt index⟩)
    (Finite.injective_iff_bijective.mp fun _ _ same =>
      stablePosition_injective (Fin.mk.inj same))

/-! ## Rows -/

/-- A sorted matrix with the given last column whose rows are closed under right
rotation, up to the order of equal rows. -/
structure Matrix (column : List α) where
  row : Fin column.length → List α
  sorted : Monotone row
  init : Fin column.length → List α
  length_init : ∀ index, (init index).length + 1 = column.length
  row_eq : ∀ index, row index = init index ++ [column[index]]
  rotated : Equiv.Perm (Fin column.length)
  row_rotated : ∀ index, row (rotated index) = column[index] :: init index

namespace Matrix

variable (matrix : Matrix column)

/-- **Last-to-first mapping.** The row at the stable position of a row's last
entry is its right rotation. -/
theorem row_lastFirst (index : Fin column.length) :
    matrix.row (lastFirst column index) = column[index] :: matrix.init index := by
  have monotone : Monotone (matrix.row ∘ matrix.rotated ∘ (lastFirst column).symm) := by
    intro first second le
    obtain ⟨low, rfl⟩ := (lastFirst column).surjective first
    obtain ⟨high, rfl⟩ := (lastFirst column).surjective second
    simp only [Function.comp_apply, Equiv.symm_apply_apply, matrix.row_rotated]
    rcases le.eq_or_lt with same | less
    · rw [(lastFirst column).injective same]
    · rw [cons_le_cons_iff]
      -- Equal last entries keep the order of their rows.
      refine (lt_or_eq_of_stablePosition_lt less).imp_right fun ⟨same, before⟩ => ⟨same, ?_⟩
      have ordered := matrix.sorted before.le
      rw [matrix.row_eq, matrix.row_eq] at ordered
      have lengths := (matrix.length_init low).trans (matrix.length_init high).symm
      exact le_of_concat_le_concat (Nat.succ.inj lengths) ordered
  have unique := Tuple.unique_monotone (σ := (lastFirst column).symm.trans matrix.rotated) (τ := 1)
    monotone matrix.sorted
  have here := congrFun unique (lastFirst column index)
  simp only [Function.comp_apply, Equiv.trans_apply, Equiv.symm_apply_apply, Equiv.Perm.coe_one,
    id_eq, matrix.row_rotated] at here
  exact here.symm

/-- The inverse mapping goes to the left rotation. -/
theorem row_lastFirst_symm {index : Fin column.length} {first : α} {rest : List α}
    (starts : matrix.row index = first :: rest) :
    matrix.row ((lastFirst column).symm index) = rest ++ [first] ∧
      column[(lastFirst column).symm index] = first := by
  have rotated := matrix.row_lastFirst ((lastFirst column).symm index)
  rw [Equiv.apply_symm_apply, starts, List.cons.injEq] at rotated
  rw [matrix.row_eq, ← rotated.1, ← rotated.2]
  exact ⟨rfl, rfl⟩

/-- One step backwards: the last entry of a row moves to its front. -/
theorem row_lastFirst_concat {index : Fin column.length} {front : List α} {last : α}
    (ends : matrix.row index = front ++ [last]) :
    matrix.row (lastFirst column index) = last :: front ∧ column[index] = last := by
  have equal := matrix.row_eq index
  rw [ends] at equal
  obtain ⟨inits, lasts⟩ := List.append_inj' equal rfl
  rw [matrix.row_lastFirst, ← inits, ← List.singleton_inj.mp lasts]
  exact ⟨rfl, rfl⟩

end Matrix

/-! ## The matrix of a text -/

variable {text : List α}

/-- The position before another one, cyclically. -/
def previous (length position : ℕ) : ℕ := (position + length - 1) % length

theorem previous_lt {length position : ℕ} (inside : position < length) :
    previous length position < length := Nat.mod_lt _ (by omega)

/-- One step after the position before is where one started. -/
theorem previous_add_one {length position : ℕ} (inside : position < length) :
    (previous length position + 1) % length = position := by
  unfold previous
  rcases Nat.eq_zero_or_pos position with rfl | positive
  · rw [Nat.zero_add, Nat.mod_eq_of_lt (by omega : length - 1 < length),
      Nat.sub_add_cancel (by omega), Nat.mod_self]
  · have shifted : position + length - 1 = position - 1 + length := by omega
    rw [shifted, Nat.add_mod_right, Nat.mod_eq_of_lt (by omega : position - 1 < length),
      Nat.sub_add_cancel positive, Nat.mod_eq_of_lt inside]

omit [LinearOrder α] in
/-- A suffix of the doubled text starts with a rotation of the text. -/
theorem take_drop_doubled {position : ℕ} (inside : position ≤ text.length) :
    ((text ++ text).drop position).take text.length = text.rotate position := by
  rw [List.rotate_eq_drop_append_take inside, List.drop_append_of_le_length inside,
    List.take_append, List.length_drop, List.take_of_length_le (by simp)]
  congr 2
  omega

omit [LinearOrder α] in
/-- A rotation starts with the entry its left rotation ends with. -/
theorem rotate_succ {start : ℕ} (inside : start < text.length) :
    text.rotate start = text[start] :: (text.drop (start + 1) ++ text.take start) ∧
      text.rotate (start + 1) = (text.drop (start + 1) ++ text.take start) ++ [text[start]] := by
  constructor
  · rw [List.rotate_eq_drop_append_take inside.le, List.drop_eq_getElem_cons inside,
      List.cons_append]
  · rw [List.rotate_eq_drop_append_take inside, List.take_succ_eq_append_getElem inside,
      List.append_assoc]

/-- The starts of the rotations of a text in sorted order, as the suffix array of
the doubled text lists them. -/
structure SortedRotations (text : List α) (starts : List ℕ) : Prop where
  perm : starts.Perm (List.range text.length)
  sorted : starts.Pairwise fun first second =>
    (text ++ text).drop first < (text ++ text).drop second

namespace SortedRotations

variable {starts : List ℕ}

theorem lt_length (rotations : SortedRotations text starts) {start : ℕ} (member : start ∈ starts) :
    start < text.length :=
  List.mem_range.mp (rotations.perm.mem_iff.mp member)

theorem nodup (rotations : SortedRotations text starts) : starts.Nodup :=
  rotations.perm.nodup_iff.mpr List.nodup_range

theorem length_eq (rotations : SortedRotations text starts) : starts.length = text.length := by
  rw [rotations.perm.length_eq, List.length_range]

theorem previous_mem (rotations : SortedRotations text starts) {start : ℕ}
    (member : start ∈ starts) : previous text.length start ∈ starts :=
  rotations.perm.mem_iff.mpr (List.mem_range.mpr (previous_lt (rotations.lt_length member)))

/-- The transform: the entry before the start of each sorted rotation. -/
def transform (fallback : α) (text : List α) (starts : List ℕ) : List α :=
  starts.map fun start => text.getD (previous text.length start) fallback

omit [LinearOrder α] in
@[simp] theorem length_transform (fallback : α) (text : List α) (starts : List ℕ) :
    (transform fallback text starts).length = starts.length := List.length_map _

/-- The start of the rotation in a row. -/
theorem getD_mem {index : ℕ} (inside : index < starts.length) : starts.getD index 0 ∈ starts := by
  rw [List.getD_eq_getElem _ _ inside]
  exact List.getElem_mem inside

/-- The transform lists what stands before every rotation. -/
theorem getElem_transform (rotations : SortedRotations text starts) {fallback : α}
    (index : Fin (transform fallback text starts).length) :
    some (transform fallback text starts)[index] =
      text[previous text.length (starts.getD index 0)]? := by
  have inside : index.val < starts.length := by simpa using index.isLt
  have before := previous_lt (rotations.lt_length (getD_mem inside))
  rw [List.getElem?_eq_getElem before, Fin.getElem_fin]
  simp only [transform, List.getElem_map, List.getD_eq_getElem _ _ inside] at before ⊢
  rw [List.getD_eq_getElem _ _ before]

/-- The row of the right rotation of a row. -/
def previousRow (rotations : SortedRotations text starts) (fallback : α)
    (index : Fin (transform fallback text starts).length) :
    Fin (transform fallback text starts).length :=
  ⟨starts.idxOf (previous text.length (starts.getD index 0)), by
    have inside : index.val < starts.length := by simpa using index.isLt
    have found := List.idxOf_lt_length_iff.mpr (rotations.previous_mem (getD_mem inside))
    simpa using found⟩

/-- The row before starts one step before. -/
theorem getD_previousRow (rotations : SortedRotations text starts) {fallback : α}
    (index : Fin (transform fallback text starts).length) :
    starts.getD (rotations.previousRow fallback index) 0 =
      previous text.length (starts.getD index 0) := by
  have inside : (rotations.previousRow fallback index).val < starts.length := by
    simpa using (rotations.previousRow fallback index).isLt
  rw [List.getD_eq_getElem _ _ inside]
  exact List.getElem_idxOf inside

/-- No two rows have the same row before. -/
theorem previousRow_injective (rotations : SortedRotations text starts) (fallback : α) :
    Function.Injective (rotations.previousRow fallback) := by
  intro first second same
  have firstInside : first.val < starts.length := by simpa using first.isLt
  have secondInside : second.val < starts.length := by simpa using second.isLt
  have starting : starts.getD first 0 = starts.getD second 0 := by
    have here : starts.getD (rotations.previousRow fallback first) 0 =
        starts.getD (rotations.previousRow fallback second) 0 := by rw [same]
    rw [rotations.getD_previousRow, rotations.getD_previousRow] at here
    rw [← previous_add_one (rotations.lt_length (getD_mem firstInside)), here,
      previous_add_one (rotations.lt_length (getD_mem secondInside))]
  rw [List.getD_eq_getElem _ _ firstInside, List.getD_eq_getElem _ _ secondInside] at starting
  exact Fin.ext ((rotations.nodup.getElem_inj_iff).mp starting)

/-- **The sorted rotations form a matrix** over their last column. -/
noncomputable def matrix (rotations : SortedRotations text starts) (fallback : α) :
    Matrix (transform fallback text starts) where
  row index := text.rotate (starts.getD index 0)
  sorted := by
    intro first second le
    rcases le.eq_or_lt with rfl | less
    · exact le_rfl
    · have firstInside : first.val < starts.length := by simpa using first.isLt
      have secondInside : second.val < starts.length := by simpa using second.isLt
      have ordered := List.pairwise_iff_getElem.mp rotations.sorted first.val second.val
        firstInside secondInside less
      have truncated := take_le_take ordered.le text.length
      have firstLt := rotations.lt_length (List.getElem_mem firstInside)
      have secondLt := rotations.lt_length (List.getElem_mem secondInside)
      rw [take_drop_doubled firstLt.le, take_drop_doubled secondLt.le] at truncated
      dsimp only
      rw [List.getD_eq_getElem _ _ firstInside, List.getD_eq_getElem _ _ secondInside]
      exact truncated
  init index :=
    text.drop (previous text.length (starts.getD index 0) + 1) ++
      text.take (previous text.length (starts.getD index 0))
  length_init index := by
    have inside : index.val < starts.length := by simpa using index.isLt
    have before := previous_lt (rotations.lt_length (getD_mem inside))
    have total := rotations.length_eq
    simp only [List.length_append, List.length_drop, List.length_take, length_transform]
    omega
  row_eq index := by
    have inside : index.val < starts.length := by simpa using index.isLt
    have startLt := rotations.lt_length (getD_mem inside)
    have before := previous_lt startLt
    have entry := rotations.getElem_transform index
    rw [List.getElem?_eq_getElem before, Option.some.injEq] at entry
    rw [entry, ← (rotate_succ before).2, ← List.rotate_mod text (_ + 1), previous_add_one startLt]
  rotated := Equiv.ofBijective _
    (Finite.injective_iff_bijective.mp (rotations.previousRow_injective fallback))
  row_rotated index := by
    have inside : index.val < starts.length := by simpa using index.isLt
    have before := previous_lt (rotations.lt_length (getD_mem inside))
    have entry := rotations.getElem_transform index
    rw [List.getElem?_eq_getElem before, Option.some.injEq] at entry
    rw [entry, ← (rotate_succ before).1]
    exact congrArg text.rotate (rotations.getD_previousRow index)

theorem row_matrix (rotations : SortedRotations text starts) {fallback : α}
    (index : Fin (transform fallback text starts).length) :
    (rotations.matrix fallback).row index = text.rotate (starts.getD index 0) := rfl

end SortedRotations

end BurrowsWheeler
