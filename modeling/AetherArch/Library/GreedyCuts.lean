import Mathlib.Algebra.BigOperators.Group.List.Basic
import Mathlib.Algebra.Order.Ring.Nat
import Mathlib.Data.List.Chain

/-! # Greedy cutting of a list

A list is cut into pieces of a limited weight. An item that would take the current piece past the
limit starts the next one. The pieces put together are the list, each is admissible, none is closed
early, and no other admissible cutting has fewer pieces.
-/

namespace GreedyCuts

variable {α : Type*} (weight : α → ℕ) (limit : ℕ)

/-- The weight of a piece. -/
def total (piece : List α) : ℕ := (piece.map weight).sum

/-- A piece that may be handed out: an item that is too heavy stands alone. -/
def Admissible (piece : List α) : Prop :=
  piece ≠ [] ∧ (piece.length = 1 ∨ total weight piece ≤ limit)

/-- Cut a list, with some items already in the current piece. -/
def cut (current : List α) : List α → List (List α)
  | [] => if current = [] then [] else [current]
  | x :: xs =>
      if limit < total weight current + weight x ∧ current ≠ [] then current :: cut [x] xs
      else cut (current ++ [x]) xs

variable {weight limit}

theorem total_append (first second : List α) :
    total weight (first ++ second) = total weight first + total weight second := by
  rw [total, List.map_append, List.sum_append]
  rfl

theorem total_singleton (x : α) : total weight [x] = weight x := by
  rw [total, List.map_singleton, List.sum_singleton]

theorem admissible_singleton (x : α) : Admissible weight limit [x] :=
  ⟨List.cons_ne_nil x [], Or.inl rfl⟩

theorem cut_of_full {current xs : List α} {x : α}
    (full : limit < total weight current + weight x ∧ current ≠ []) :
    cut weight limit current (x :: xs) = current :: cut weight limit [x] xs := by
  rw [cut, if_pos full]

theorem cut_of_room {current xs : List α} {x : α}
    (room : ¬(limit < total weight current + weight x ∧ current ≠ [])) :
    cut weight limit current (x :: xs) = cut weight limit (current ++ [x]) xs := by
  rw [cut, if_neg room]

/-! ## The pieces of a greedy cutting -/

/-- **Nothing is lost or moved.** -/
theorem flatten_cut (current xs : List α) :
    (cut weight limit current xs).flatten = current ++ xs := by
  induction xs generalizing current with
  | nil =>
      rw [cut, List.append_nil]
      split
      · rename_i empty
        rw [empty, List.flatten_nil]
      · rw [List.flatten_cons, List.flatten_nil, List.append_nil]
  | cons x xs recurse =>
      rw [cut]
      split
      · rw [List.flatten_cons, recurse, List.singleton_append]
      · rw [recurse, List.append_assoc, List.singleton_append]

/-- **Every piece is admissible.** -/
theorem admissible_of_mem_cut {current xs : List α}
    (before : current = [] ∨ Admissible weight limit current) :
    ∀ piece ∈ cut weight limit current xs, Admissible weight limit piece := by
  induction xs generalizing current with
  | nil =>
      intro piece member
      rw [cut] at member
      split at member
      · exact absurd member List.not_mem_nil
      · rename_i nonempty
        rw [List.mem_singleton.mp member]
        exact before.resolve_left nonempty
  | cons x xs recurse =>
      intro piece member
      by_cases full : limit < total weight current + weight x ∧ current ≠ []
      · rw [cut_of_full full] at member
        rcases List.mem_cons.mp member with rfl | later
        · exact before.resolve_left full.2
        · exact recurse (Or.inr (admissible_singleton x)) piece later
      · rw [cut_of_room full] at member
        refine recurse (Or.inr ?_) piece member
        by_cases empty : current = []
        · rw [empty]
          exact admissible_singleton x
        · have room : total weight current + weight x ≤ limit :=
            not_lt.mp fun heavy => full ⟨heavy, empty⟩
          refine ⟨List.append_ne_nil_of_left_ne_nil empty [x], Or.inr ?_⟩
          rw [total_append, total_singleton]
          exact room

/-- The first piece takes the current one along. -/
theorem exists_cut_eq_cons {current : List α} (nonempty : current ≠ []) (xs : List α) :
    ∃ more later, cut weight limit current xs = (current ++ more) :: later := by
  induction xs generalizing current with
  | nil =>
      refine ⟨[], [], ?_⟩
      rw [cut, if_neg nonempty, List.append_nil]
  | cons x xs recurse =>
      by_cases full : limit < total weight current + weight x ∧ current ≠ []
      · refine ⟨[], cut weight limit [x] xs, ?_⟩
        rw [cut_of_full full, List.append_nil]
      · have longer := List.append_ne_nil_of_left_ne_nil nonempty [x]
        obtain ⟨more, later, same⟩ := recurse longer
        refine ⟨[x] ++ more, later, ?_⟩
        rw [cut_of_room full, same, List.append_assoc]

/-- **No piece is closed early**: the next item would not have fitted. -/
theorem isChain_cut (current xs : List α) :
    (cut weight limit current xs).IsChain fun piece next =>
      ∀ x ∈ next.head?, limit < total weight piece + weight x := by
  induction xs generalizing current with
  | nil =>
      rw [cut]
      split
      · exact List.isChain_nil
      · exact List.isChain_singleton current
  | cons x xs recurse =>
      by_cases full : limit < total weight current + weight x ∧ current ≠ []
      · rw [cut_of_full full]
        refine (recurse [x]).cons fun next first y head => ?_
        obtain ⟨more, later, same⟩ := exists_cut_eq_cons (List.cons_ne_nil x []) xs
        rw [same, List.head?_cons] at first
        rw [← Option.some_inj.mp first, List.singleton_append, List.head?_cons] at head
        rw [← Option.some_inj.mp head]
        exact full.1
      · rw [cut_of_room full]
        exact recurse (current ++ [x])

/-! ## A greedy cutting has the fewest pieces -/

/-- Where another cutting puts the next item: in its current piece, or in a new one. -/
theorem next_of_flatten_eq_cons {rest xs : List α} {more : List (List α)} {x : α}
    (nonempty : ∀ piece ∈ more, piece ≠ []) (whole : rest ++ more.flatten = x :: xs) :
    (∃ after, rest = x :: after ∧ after ++ more.flatten = xs) ∨
      rest = [] ∧ ∃ after later, more = (x :: after) :: later ∧ after ++ later.flatten = xs := by
  cases rest with
  | cons y after =>
      obtain ⟨same, tail⟩ := List.cons.inj whole
      exact Or.inl ⟨after, by rw [same], tail⟩
  | nil =>
      refine Or.inr ⟨rfl, ?_⟩
      cases more with
      | nil => exact absurd whole (List.cons_ne_nil x xs).symm
      | cons piece later =>
          cases piece with
          | nil => exact absurd rfl (nonempty [] List.mem_cons_self)
          | cons y after =>
              obtain ⟨same, tail⟩ := List.cons.inj whole
              exact ⟨after, later, by rw [same], tail⟩

/-- A heavy item does not go into a piece that has the current one in it. -/
theorem not_admissible_of_full {current taken after : List α} {x : α}
    (full : limit < total weight current + weight x ∧ current ≠ []) (behind : current <:+ taken) :
    ¬Admissible weight limit (taken ++ x :: after) := by
  rintro ⟨-, single | light⟩
  · have occupied := List.length_pos_iff.mpr (behind.ne_nil full.2)
    rw [List.length_append, List.length_cons] at single
    omega
  · obtain ⟨earlier, rfl⟩ := behind
    rw [← List.singleton_append, total_append, total_append, total_append,
      total_singleton] at light
    have heavy := full.1
    omega

/-- Against a cutting that is inside a piece, `taken` from it and `rest` to come. The greedy one
needs no more pieces while what it has taken is the end of what the other has, and one more
otherwise. -/
theorem length_cut_le_add {current taken rest xs : List α} {more : List (List α)} {spare : ℕ}
    (ahead : current <:+ taken ∨ 1 ≤ spare) (this : Admissible weight limit (taken ++ rest))
    (others : ∀ piece ∈ more, Admissible weight limit piece)
    (whole : rest ++ more.flatten = xs) :
    (cut weight limit current xs).length ≤ more.length + 1 + spare := by
  induction xs generalizing current taken rest more spare with
  | nil =>
      have few : (cut weight limit current []).length ≤ 1 := by
        rw [cut]
        split
        · exact Nat.zero_le 1
        · exact le_rfl
      omega
  | cons x xs recurse =>
      have nonempty : ∀ piece ∈ more, piece ≠ [] := fun piece member => (others piece member).1
      by_cases full : limit < total weight current + weight x ∧ current ≠ []
      · rw [cut_of_full full, List.length_cons]
        rcases next_of_flatten_eq_cons nonempty whole with
          ⟨after, rfl, tail⟩ | ⟨-, after, later, rfl, tail⟩
        · -- the other piece goes on, which only the one ahead can do
          have spared : 1 ≤ spare :=
            ahead.resolve_left fun behind => not_admissible_of_full full behind this
          have bound := @recurse [x] (taken ++ [x]) after more 0
            (Or.inl (List.suffix_append taken [x])) (by rwa [List.append_assoc]) others tail
          omega
        · have bound := @recurse [x] [x] after later 0 (Or.inl (List.suffix_refl [x]))
            (others _ List.mem_cons_self)
            (fun piece member => others piece (List.mem_cons_of_mem _ member)) tail
          rw [List.length_cons]
          omega
      · rw [cut_of_room full]
        rcases next_of_flatten_eq_cons nonempty whole with
          ⟨after, rfl, tail⟩ | ⟨-, after, later, rfl, tail⟩
        · refine @recurse (current ++ [x]) (taken ++ [x]) after more spare ?_
            (by rwa [List.append_assoc]) others tail
          exact ahead.imp_left fun behind =>
            (List.suffix_append_inj_of_length_eq rfl).mpr ⟨behind, rfl⟩
        · -- the other starts a piece here, which pays for being behind
          have bound := @recurse (current ++ [x]) [x] after later 1 (Or.inr le_rfl)
            (others _ List.mem_cons_self)
            (fun piece member => others piece (List.mem_cons_of_mem _ member)) tail
          rw [List.length_cons]
          omega

/-- **No admissible cutting has fewer pieces.** -/
theorem length_cut_le {xs : List α} {pieces : List (List α)}
    (admissible : ∀ piece ∈ pieces, Admissible weight limit piece)
    (whole : pieces.flatten = xs) :
    (cut weight limit [] xs).length ≤ pieces.length := by
  cases xs with
  | nil => exact Nat.zero_le _
  | cons x xs =>
      have nonempty : ∀ piece ∈ pieces, piece ≠ [] :=
        fun piece member => (admissible piece member).1
      rcases @next_of_flatten_eq_cons α [] xs pieces x nonempty whole with
        ⟨after, nothing, -⟩ | ⟨-, after, later, rfl, tail⟩
      · exact absurd nothing (List.cons_ne_nil x after).symm
      · rw [cut_of_room fun full => full.2 rfl, List.nil_append, List.length_cons]
        exact @length_cut_le_add α weight limit [x] [x] after xs later 0
          (Or.inl (List.suffix_refl [x])) (admissible _ List.mem_cons_self)
          (fun piece member => admissible piece (List.mem_cons_of_mem _ member)) tail

end GreedyCuts
