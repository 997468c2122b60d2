import Mathlib.Data.List.Sort
import Mathlib.Order.Compare

/-! # Sorting without stability

A sorting algorithm that leaves entries which compare equal in whatever order it likes.
-/

/-- A sorting algorithm for entries of a type. -/
structure UnstableSort (α : Type) where
  sortBy : (α → α → Ordering) → List α → List α
  perm (compare : α → α → Ordering) (xs : List α) : (sortBy compare xs).Perm xs
  ordered (compare : α → α → Ordering) [Std.TransCmp compare] (xs : List α) :
    (sortBy compare xs).Pairwise fun x y => (compare x y).isLE = true

namespace UnstableSort

/-- Merge sort, which happens to be stable. -/
def mergeSort (α : Type) : UnstableSort α where
  sortBy compare xs := xs.mergeSort fun x y => (compare x y).isLE
  perm _ xs := List.mergeSort_perm xs _
  ordered compare _ xs := by
    apply List.pairwise_mergeSort
    · intro x y z
      exact Std.TransCmp.isLE_trans
    · intro x y
      have swapped : compare y x = (compare x y).swap := Std.OrientedCmp.eq_swap
      rw [Bool.or_eq_true, swapped]
      cases compare x y
      · exact .inl rfl
      · exact .inl rfl
      · exact .inr rfl

end UnstableSort
