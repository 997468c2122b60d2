import Mathlib.Data.List.Nodup

/-! # Stability of sorting

Merge sort leaves apart what the order tells apart, and keeps items that compare as equal in the
order they came in.
-/

namespace StableSort

variable {α : Type*} {le : α → α → Bool} {a b : α} {l : List α}

/-- Two different items come in one order or the other. -/
theorem pair_sublist_total (differ : a ≠ b) (first : a ∈ l) (second : b ∈ l) :
    [a, b].Sublist l ∨ [b, a].Sublist l := by
  obtain ⟨before, after, rfl⟩ := List.append_of_mem first
  rcases List.mem_append.mp second with earlier | later
  · refine Or.inr ?_
    have pair : ([b] ++ [a]).Sublist (before ++ a :: after) :=
      (List.singleton_sublist.mpr earlier).append
        (List.singleton_sublist.mpr List.mem_cons_self)
    exact pair
  · refine Or.inl ?_
    have behind : b ∈ after := (List.mem_cons.mp later).resolve_left differ.symm
    exact ((List.singleton_sublist.mpr behind).cons_cons a).trans (List.sublist_append_right ..)

/-- Without repetitions, two items come in one order only. -/
theorem not_pair_sublist_swap (nodup : l.Nodup) (pair : [a, b].Sublist l) :
    ¬[b, a].Sublist l := by
  intro swapped
  obtain ⟨early, late, rfl, first, second⟩ := List.cons_sublist_iff.mp pair
  obtain ⟨early', late', split, first', second'⟩ := List.cons_sublist_iff.mp swapped
  have second := List.singleton_sublist.mp second
  have second' := List.singleton_sublist.mp second'
  have apart := (List.nodup_append.mp nodup).2.2
  rcases List.append_eq_append_iff.mp split with ⟨between, rfl, rfl⟩ | ⟨between, rfl, rfl⟩
  · exact apart a first a (List.mem_append_right _ second') rfl
  · exact apart b (List.mem_append_left _ first') b second rfl

/-- **Sorting is stable.** -/
theorem pairwise_mergeSort (trans : ∀ a b c, le a b → le b c → le a c)
    (total : ∀ a b, le a b || le b a) (nodup : l.Nodup) :
    (l.mergeSort le).Pairwise fun a b => le a b ∧ (le b a → [a, b].Sublist l) := by
  have same := List.mergeSort_perm l le
  have distinct := same.nodup_iff.mpr nodup
  refine List.pairwise_iff_forall_sublist.mpr fun {a b} pair => ?_
  have ordered := List.pairwise_iff_forall_sublist.mp (List.pairwise_mergeSort trans total l) pair
  refine ⟨ordered, fun tied => ?_⟩
  have differ : a ≠ b := List.pairwise_iff_forall_sublist.mp distinct pair
  have first : a ∈ l := same.mem_iff.mp (pair.subset List.mem_cons_self)
  have second : b ∈ l := same.mem_iff.mp (pair.subset (List.mem_cons_of_mem a List.mem_cons_self))
  refine (pair_sublist_total differ first second).resolve_right fun swapped => ?_
  exact not_pair_sublist_swap distinct pair
    (List.pair_sublist_mergeSort trans total tied swapped)

end StableSort
