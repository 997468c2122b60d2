import Mathlib.Data.List.Infix

/-! # Texts around a separator

A text cut at the first occurrence of a separator, and what a text joined at a separator contains:
a pattern without the separator lies on one side of it.
-/

namespace Separator

variable {α : Type*}

/-- The parts of a text in front of and behind the first occurrence of a separator. -/
def splitOnce [DecidableEq α] (separator : List α) : List α → Option (List α × List α)
  | [] => if separator = [] then some ([], []) else none
  | c :: text =>
      if separator <+: c :: text then some ([], (c :: text).drop separator.length)
      else (splitOnce separator text).map fun parts => (c :: parts.1, parts.2)

/-- A text is cut where the separator first begins. -/
theorem splitOnce_append [DecidableEq α] {first : α} {others front : List α} (apart : first ∉ front)
    (rest : List α) :
    splitOnce (first :: others) (front ++ (first :: others ++ rest)) = some (front, rest) := by
  induction front with
  | nil =>
      unfold splitOnce
      rw [List.nil_append, List.cons_append]
      simp only [List.prefix_append, List.prefix_cons_inj, if_true, List.length_cons,
        List.drop_succ_cons, List.drop_left]
  | cons c front recurse =>
      rw [List.mem_cons, not_or] at apart
      have elsewhere : ¬first :: others <+: c :: (front ++ (first :: others ++ rest)) := by
        intro starts
        exact apart.1 (List.cons_prefix_cons.mp starts).1
      rw [List.cons_append, splitOnce, if_neg elsewhere, recurse apart.2]
      rfl

/-- **A pattern without the separator lies on one side of it.** -/
theorem isInfix_around {separator : α} {pattern : List α} (apart : separator ∉ pattern)
    (front rest : List α) :
    pattern <:+: front ++ separator :: rest ↔ pattern <:+: front ∨ pattern <:+: rest := by
  constructor
  · intro inside
    rcases List.infix_append_iff.mp inside with before | behind | ⟨left, right, rfl, ends, starts⟩
    · exact .inl before
    · rcases List.infix_cons_iff.mp behind with starts | after
      · cases pattern with
        | nil => exact .inl (List.nil_infix)
        | cons c pattern =>
            obtain ⟨rfl, -⟩ := List.cons_prefix_cons.mp starts
            exact absurd List.mem_cons_self apart
      · exact .inr after
    · cases right with
      | nil => exact .inl ((List.append_nil left).symm ▸ ends.isInfix)
      | cons c right =>
          obtain ⟨rfl, -⟩ := List.cons_prefix_cons.mp starts
          exact absurd (List.mem_append_right _ List.mem_cons_self) apart
  · intro inside
    rcases inside with before | behind
    · exact List.infix_append_of_infix_left before
    · exact List.infix_append_of_infix_right (List.infix_cons behind)

end Separator
