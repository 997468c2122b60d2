import Mathlib.Data.List.Basic
import Mathlib.Data.List.Nodup
import Mathlib.Data.List.Perm.Subperm

/-! # Fresh names

A registry hands out names. A wanted name that is taken is numbered, starting from a counter that
remembers how far the numbers of that name have been tried. Numbers that were passed over are
taken, so a counter never runs far ahead of the names handed out.
-/

namespace FreshNames

variable {ν : Type*}

/-- The names handed out, and the next number to try for each name. -/
structure Registry (ν : Type*) where
  used : List ν
  next : ν → ℕ

/-- The registry that has handed out nothing. -/
def Registry.empty : Registry ν where
  used := []
  next := fun _ => 1

/-- Every number in front of a counter belongs to a name that is taken. -/
def Passed (number : ℕ → ν → ν) (registry : Registry ν) : Prop :=
  ∀ base k, 1 ≤ k → k < registry.next base → number k base ∈ registry.used

/-- A name is handed out for a wanted one. -/
inductive Claims [DecidableEq ν] (number : ℕ → ν → ν) (registry : Registry ν) (base : ν) : ν →
    Registry ν → Prop where
  | plain (free : base ∉ registry.used) :
      Claims number registry base base { registry with used := base :: registry.used }
  | numbered {k : ℕ} (taken : base ∈ registry.used) (tried : registry.next base ≤ k)
      (passed : ∀ j, registry.next base ≤ j → j < k → number j base ∈ registry.used)
      (free : number k base ∉ registry.used) :
      Claims number registry base (number k base)
        { used := number k base :: registry.used
          next := Function.update registry.next base (k + 1) }

variable [DecidableEq ν] {number : ℕ → ν → ν} {registry later : Registry ν} {base name : ν}

namespace Claims

/-- What is handed out is recorded. -/
theorem used_eq (claims : Claims number registry base name later) :
    later.used = name :: registry.used := by
  cases claims with
  | plain free => rfl
  | numbered taken tried passed free => rfl

/-- **What is handed out is new.** -/
theorem fresh (claims : Claims number registry base name later) : name ∉ registry.used := by
  cases claims with
  | plain free => exact free
  | numbered taken tried passed free => exact free

/-- **Counters stay behind taken numbers.** -/
theorem passed (claims : Claims number registry base name later)
    (before : Passed number registry) : Passed number later := by
  cases claims with
  | plain free =>
      intro other k positive below
      exact List.mem_cons_of_mem _ (before other k positive below)
  | @numbered last taken tried passed free =>
      intro other k positive below
      by_cases same : other = base
      · subst same
        change k < Function.update registry.next other (last + 1) other at below
        rw [Function.update_self] at below
        rcases Nat.lt_or_eq_of_le (Nat.le_of_lt_succ below) with earlier | rfl
        · apply List.mem_cons_of_mem
          rcases Nat.lt_or_ge k (registry.next other) with old | new
          · exact before other k positive old
          · exact passed k new earlier
        · exact List.mem_cons_self
      · change k < Function.update registry.next base (last + 1) other at below
        rw [Function.update_of_ne same] at below
        exact List.mem_cons_of_mem _ (before other k positive below)

end Claims

omit [DecidableEq ν] in
/-- Distinct numbers that are all taken are no more than the names taken. -/
theorem le_length_of_passed {used : List ν} {candidate : ℕ → ν}
    (injective : Function.Injective candidate) {last : ℕ}
    (taken : ∀ k, 1 ≤ k → k < last → candidate k ∈ used) : last ≤ used.length + 1 := by
  have distinct : ((List.range' 1 (last - 1)).map candidate).Nodup :=
    (@List.nodup_range' _ _ 1 Nat.one_pos).map injective
  have inside : (List.range' 1 (last - 1)).map candidate ⊆ used := by
    intro name member
    obtain ⟨k, range, rfl⟩ := List.mem_map.mp member
    obtain ⟨above, below⟩ := List.mem_range'_1.mp range
    exact taken k above (by omega)
  have count := (distinct.subperm inside).length_le
  rw [List.length_map, List.length_range'] at count
  omega

/-- Names handed out one after the other for a list of wanted ones. -/
inductive ClaimsAll (number : ℕ → ν → ν) : Registry ν → List ν → List ν → Registry ν → Prop where
  | nil {registry : Registry ν} : ClaimsAll number registry [] [] registry
  | snoc {registry middle later : Registry ν} {bases names : List ν} {base name : ν}
      (before : ClaimsAll number registry bases names middle)
      (last : Claims number middle base name later) :
      ClaimsAll number registry (bases ++ [base]) (names ++ [name]) later

/-- A run records all it hands out, and its counters stay behind taken numbers. -/
theorem ClaimsAll.invariant {bases names : List ν}
    (claims : ClaimsAll number registry bases names later) (start : Passed number registry) :
    Passed number later ∧ later.used = names.reverse ++ registry.used := by
  induction claims with
  | nil => exact ⟨start, rfl⟩
  | snoc before last recurse =>
      obtain ⟨passed, used⟩ := recurse
      refine ⟨last.passed passed, ?_⟩
      rw [last.used_eq, used, List.reverse_append]
      rfl

/-- **The names of a run are distinct.** -/
theorem ClaimsAll.nodup {bases names : List ν}
    (claims : ClaimsAll number registry bases names later) (start : Passed number registry) :
    names.Nodup := by
  induction claims with
  | nil => exact List.nodup_nil
  | snoc before last recurse =>
      have used := (before.invariant start).2
      have fresh := last.fresh
      rw [used, List.mem_append, not_or] at fresh
      apply List.Nodup.append recurse (List.nodup_singleton _)
      rw [List.disjoint_singleton]
      exact fun member => fresh.1 (List.mem_reverse.mpr member)

end FreshNames
