import AetherArch.Library.PathComponents
import Mathlib.Algebra.Order.BigOperators.Group.List
import Mathlib.Algebra.Order.Ring.Nat

/-! # Paths below a base

Names pushed one after the other onto a base, and what is left when the base is taken off again.
-/

namespace UnixPath

/-- A base that names can be pushed onto with a separator. -/
structure Base (base : Path) : Prop where
  rooted : HasRoot base
  unended : base.getLast? ≠ some SEPARATOR

variable {base : Path} {names : List (List UInt8)}

theorem Plain.unrooted {name : List UInt8} (plain : Plain name) : ¬HasRoot name :=
  fun rooted => plain.whole (List.mem_of_head? rooted)

theorem Plain.unended {name : List UInt8} (plain : Plain name) :
    name.getLast? ≠ some SEPARATOR :=
  fun ended => plain.whole (List.mem_of_getLast? ended)

/-- Pushing a plain name adds a separator and the name. -/
theorem push_plain {buffer name : List UInt8} (plain : Plain name) (some : buffer ≠ [])
    (unended : buffer.getLast? ≠ Option.some SEPARATOR) :
    push buffer name = buffer ++ SEPARATOR :: name := by
  rw [push, if_neg plain.unrooted, if_neg]
  rintro (empty | ended)
  · exact some empty
  · exact unended ended

/-- **Names pushed onto a buffer stand behind it**, each after a separator. -/
theorem foldl_push {buffer : Path} (plain : ∀ name ∈ names, Plain name) (some : buffer ≠ [])
    (unended : buffer.getLast? ≠ Option.some SEPARATOR) :
    names.foldl push buffer = buffer ++ names.flatMap fun name => SEPARATOR :: name := by
  induction names generalizing buffer with
  | nil => exact (List.append_nil _).symm
  | cons name names recurse =>
      obtain ⟨here, later⟩ := List.forall_mem_cons.mp plain
      rw [List.foldl_cons, List.flatMap_cons, push_plain here some unended]
      rw [recurse later, List.append_assoc]
      · exact List.append_ne_nil_of_left_ne_nil some _
      · rw [List.getLast?_append_of_ne_nil _ (List.cons_ne_nil _ _),
          List.getLast?_cons_of_ne_nil here.ne_nil]
        exact here.unended

/-- Names behind separators are joined names behind one. -/
theorem flatMap_separator (some : names ≠ []) :
    (names.flatMap fun name => SEPARATOR :: name) = SEPARATOR :: join names := by
  induction names with
  | nil => exact absurd rfl some
  | cons name names recurse =>
      cases names with
      | nil => rw [List.flatMap_cons, List.flatMap_nil, List.append_nil, join_singleton]
      | cons next rest =>
          rw [List.flatMap_cons, recurse (List.cons_ne_nil _ _), join, join,
            List.intercalate_cons_cons, List.cons_append, List.append_assoc]
          rfl

/-- The length of joined names. -/
theorem length_join (names : List (List UInt8)) :
    (join names).length = (names.map fun name => name.length + 1).sum - 1 := by
  induction names with
  | nil => rfl
  | cons name names recurse =>
      cases names with
      | nil => rw [join_singleton, List.map_singleton, List.sum_singleton, Nat.add_sub_cancel]
      | cons next rest =>
          rw [join] at recurse ⊢
          rw [List.intercalate_cons_cons, List.length_append, List.length_append, recurse]
          simp only [List.map_cons, List.sum_cons, List.length_singleton]
          omega

/-- Fewer names make a shorter path. -/
theorem length_join_le {fewer names : List (List UInt8)} (sublist : fewer.Sublist names) :
    (join fewer).length ≤ (join names).length := by
  rw [length_join, length_join]
  exact Nat.sub_le_sub_right ((sublist.map _).sum_le_sum fun _ _ => Nat.zero_le _) 1

/-- Taking off all names of a path leaves what stands for nothing, and what is behind it. -/
theorem partsAfter_append (front behind : List (List UInt8)) :
    ∃ junk, partsAfter (front ++ behind) (front.filter fun name => ¬isJunk name) =
      some (junk ++ behind) ∧ ∀ name ∈ junk, isJunk name = true := by
  induction front with
  | nil =>
      refine ⟨[], ?_, fun _ member => absurd member List.not_mem_nil⟩
      cases behind <;> rfl
  | cons name front recurse =>
      obtain ⟨junk, after, all⟩ := recurse
      by_cases useless : isJunk name = true
      · rw [List.filter_cons_of_neg (by rw [useless]; decide)]
        cases kept : front.filter fun name => ¬isJunk name with
        | nil =>
            refine ⟨name :: front, rfl, List.forall_mem_cons.mpr ⟨useless, fun other member => ?_⟩⟩
            have dropped := List.filter_eq_nil_iff.mp kept other member
            rw [decide_eq_true_eq, not_not] at dropped
            exact dropped
        | cons first rest =>
            rw [kept] at after
            refine ⟨junk, ?_, all⟩
            rw [List.cons_append, partsAfter, if_pos useless]
            exact after
      · have keeps : decide (¬isJunk name = true) = true := decide_eq_true useless
        refine ⟨junk, ?_, all⟩
        rw [List.filter_cons, if_pos keeps, List.cons_append, partsAfter, if_neg useless,
          if_pos rfl]
        exact after

/-- Dropping junk leaves the names. -/
theorem dropWhile_junk {junk : List (List UInt8)} (all : ∀ name ∈ junk, isJunk name = true)
    (plain : ∀ name ∈ names, Plain name) : (junk ++ names).dropWhile isJunk = names := by
  rw [List.dropWhile_append_of_pos all]
  cases names with
  | nil => rfl
  | cons name names =>
      rw [List.dropWhile_cons_of_neg]
      rw [(plain name List.mem_cons_self).named]
      exact Bool.false_ne_true

/-- **Taking the base off leaves the names.** -/
theorem stripPrefix_below (rooted : HasRoot base) (plain : ∀ name ∈ names, Plain name)
    (some : names ≠ []) :
    stripPrefix (base ++ SEPARATOR :: join names) base = Option.some (join names) := by
  cases base with
  | nil => cases rooted
  | cons first rest =>
      cases rooted
      obtain ⟨junk, after, all⟩ := partsAfter_append (rest.splitOn SEPARATOR) names
      rw [stripPrefix, if_neg (List.cons_ne_nil _ _), List.cons_append, parts_root, parts_root]
      dsimp only
      rw [if_neg (not_not.mpr rfl), List.splitOn_append_cons_self, splitOn_join plain some, after,
        Option.map_some, dropWhile_junk all plain, trimRight_plain plain]

end UnixPath
