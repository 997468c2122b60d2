import AetherArch.Library.FileTree
import Mathlib.Data.List.Dedup
import Mathlib.Data.List.Perm.Basic

/-! # Walking directories

A directory lists the names in it, each once and in an order of its own. A walk enters the
directories as it meets them, or keeps them on a stack for later. Either way it comes to every
file once.
-/

namespace FileTrees.FileTree

variable {Name File : Type} [DecidableEq Name]

/-! ## One directory -/

/-- The names in the directory at the top. -/
def names (tree : FileTree Name File) : List Name :=
  (tree.files.filterMap fun entry => entry.1.head?).dedup

/-- Where an entry stands below a name, if it is there. -/
def step? (name : Name) (entry : List Name × File) : Option (List Name × File) :=
  match entry.1 with
  | [] => none
  | first :: rest => if first = name then some (rest, entry.2) else none

/-- A step leads below its own name only. -/
theorem step?_eq_some {name : Name} {entry lower : List Name × File} :
    step? name entry = some lower ↔ entry = (name :: lower.1, lower.2) := by
  obtain ⟨place, file⟩ := entry
  obtain ⟨lowerPlace, lowerFile⟩ := lower
  cases place with
  | nil => simp only [step?, reduceCtorEq, Prod.mk.injEq, false_and]
  | cons first rest =>
      simp only [step?, Option.ite_none_right_eq_some, Option.some.injEq, Prod.mk.injEq,
        List.cons.injEq, and_assoc]

/-- What is below a name. -/
def below (tree : FileTree Name File) (name : Name) : FileTree Name File where
  files := tree.files.filterMap (step? name)
  distinct := by
    refine List.Nodup.map_on ?_ ?_
    · intro first firstMember second secondMember same
      obtain ⟨firstEntry, firstInside, firstStep⟩ := List.mem_filterMap.mp firstMember
      obtain ⟨secondEntry, secondInside, secondStep⟩ := List.mem_filterMap.mp secondMember
      obtain rfl := step?_eq_some.mp firstStep
      obtain rfl := step?_eq_some.mp secondStep
      have entries := List.inj_on_of_nodup_map tree.distinct firstInside secondInside
        (congrArg (name :: ·) same)
      exact Prod.ext same (Prod.ext_iff.mp entries).2
    · refine List.Nodup.filterMap ?_ (List.Nodup.of_map _ tree.distinct)
      intro first second lower firstStep secondStep
      rw [Option.mem_def] at firstStep secondStep
      rw [step?_eq_some.mp firstStep, step?_eq_some.mp secondStep]
  apart := by
    intro upper upperMember lower lowerMember onTheWay
    obtain ⟨upperEntry, upperInside, upperStep⟩ := List.mem_filterMap.mp upperMember
    obtain ⟨lowerEntry, lowerInside, lowerStep⟩ := List.mem_filterMap.mp lowerMember
    obtain rfl := step?_eq_some.mp upperStep
    obtain rfl := step?_eq_some.mp lowerStep
    have same := tree.apart _ upperInside _ lowerInside
      (List.cons_prefix_cons.mpr ⟨rfl, onTheWay⟩)
    exact (List.cons.inj same).2

variable {tree : FileTree Name File}

/-- What is below a name has it in front. -/
theorem mem_below {name : Name} {entry : List Name × File} :
    entry ∈ (tree.below name).files ↔ (name :: entry.1, entry.2) ∈ tree.files := by
  rw [below, List.mem_filterMap]
  constructor
  · rintro ⟨upper, inside, step⟩
    rw [step?_eq_some.mp step] at inside
    exact inside
  · intro inside
    exact ⟨_, inside, step?_eq_some.mpr rfl⟩

/-- The names are those that a location starts with. -/
theorem mem_names {name : Name} :
    name ∈ tree.names ↔ ∃ rest file, (name :: rest, file) ∈ tree.files := by
  rw [names, List.mem_dedup, List.mem_filterMap]
  constructor
  · rintro ⟨⟨place, file⟩, inside, head⟩
    cases place with
    | nil => cases head
    | cons first rest =>
        cases head
        exact ⟨rest, file, inside⟩
  · rintro ⟨rest, file, inside⟩
    exact ⟨_, inside, rfl⟩

/-- The top is a directory. -/
def Rooted (tree : FileTree Name File) : Prop := tree.find? [] = none

/-- No file of a rooted tree stands for the root. -/
theorem Rooted.ne_nil (rooted : tree.Rooted) {entry : List Name × File}
    (member : entry ∈ tree.files) : entry.1 ≠ [] := by
  intro top
  have found : tree.find? [] = some entry.2 := find?_eq_some.mpr (top ▸ member)
  exact Option.some_ne_none _ (found.symm.trans rooted)

/-- A file at the top is all there is. -/
theorem files_of_find?_nil {file : File} (found : tree.find? [] = some file) :
    tree.files = [([], file)] := by
  have here := find?_eq_some.mp found
  have all : ∀ entry ∈ tree.files, entry = ([], file) := by
    intro entry member
    have top : entry.1 = [] := (tree.apart _ here _ member (List.nil_prefix)).symm
    exact List.inj_on_of_nodup_map tree.distinct member here top
  have one := List.eq_replicate_of_mem all
  have few : tree.files.length ≤ 1 := by
    have distinct := List.Nodup.of_map _ tree.distinct
    rw [one] at distinct
    exact List.nodup_replicate.mp distinct
  have some : 0 < tree.files.length := List.length_pos_of_mem here
  rw [one, le_antisymm few some]
  rfl

/-- **A directory is what is below the names in it.** -/
theorem files_perm_names (rooted : tree.Rooted) {order : List Name}
    (lists : order.Perm tree.names) :
    (order.flatMap fun name => (tree.below name).files.map fun entry => (name :: entry.1, entry.2))
      |>.Perm tree.files := by
  have distinctFiles := List.Nodup.of_map _ tree.distinct
  refine (List.perm_ext_iff_of_nodup ?_ distinctFiles).mpr ?_
  · refine List.nodup_flatMap.mpr ⟨fun name _ => ?_, ?_⟩
    · refine List.Nodup.map ?_ (List.Nodup.of_map _ (tree.below name).distinct)
      rintro ⟨_, _⟩ ⟨_, _⟩ ⟨⟩
      rfl
    · refine (lists.nodup_iff.mpr (List.nodup_dedup _)).imp ?_
      intro first second different entry firstMember secondMember
      obtain ⟨_, -, rfl⟩ := List.mem_map.mp firstMember
      obtain ⟨_, -, same⟩ := List.mem_map.mp secondMember
      exact different (List.cons.inj (congrArg Prod.fst same)).1.symm
  · rintro ⟨place, file⟩
    rw [List.mem_flatMap]
    constructor
    · rintro ⟨name, -, member⟩
      obtain ⟨entry, inside, same⟩ := List.mem_map.mp member
      cases same
      exact mem_below.mp inside
    · intro member
      cases place with
      | nil => exact absurd rfl (rooted.ne_nil member)
      | cons name rest =>
          exact ⟨name, lists.mem_iff.mpr (mem_names.mpr ⟨rest, file, member⟩),
            List.mem_map.mpr ⟨(rest, file), mem_below.mpr member, rfl⟩⟩

/-! ## Depth -/

/-- The length of the longest way to a file. -/
def height (tree : FileTree Name File) : Nat :=
  (tree.files.map fun entry => entry.1.length).foldr max 0

omit [DecidableEq Name] in
/-- The height bounds the length of every location. -/
theorem height_le_iff {depth : Nat} :
    tree.height ≤ depth ↔ ∀ entry ∈ tree.files, entry.1.length ≤ depth := by
  rw [height]
  induction tree.files with
  | nil =>
      constructor
      · intro _ entry member
        exact absurd member List.not_mem_nil
      · intro _
        exact Nat.zero_le _
  | cons entry entries recurse =>
      rw [List.map_cons, List.foldr_cons, Nat.max_le, recurse, List.forall_mem_cons]

/-- Below a name the tree is lower. -/
theorem height_below {depth : Nat} (deep : tree.height ≤ depth + 1) (name : Name) :
    (tree.below name).height ≤ depth := by
  refine height_le_iff.mpr fun entry member => ?_
  have long := height_le_iff.mp deep _ (mem_below.mp member)
  rw [List.length_cons] at long
  exact Nat.le_of_succ_le_succ long

/-! ## Entering directories as they are met -/

/-- An order in which each directory lists the names in it. -/
structure Listing (Name : Type) where
  order : List Name → List Name → List Name
  lists : ∀ dir names, (order dir names).Perm names

/-- The files below a directory in the order of a walk that enters directories as it meets them. -/
def walk (listing : Listing Name) :
    (depth : Nat) → (dir : List Name) → FileTree Name File → List (List Name × File)
  | 0, _, _ => []
  | depth + 1, dir, tree =>
      (listing.order dir tree.names).flatMap fun name =>
        match (tree.below name).find? [] with
        | some file => [(dir ++ [name], file)]
        | none => walk listing depth (dir ++ [name]) (tree.below name)

/-- **A walk comes to every file once.** -/
theorem walk_perm (listing : Listing Name) {depth : Nat} {dir : List Name}
    (rooted : tree.Rooted) (deep : tree.height ≤ depth) :
    (walk listing depth dir tree).Perm (tree.files.map fun entry => (dir ++ entry.1, entry.2)) := by
  induction depth generalizing tree dir with
  | zero =>
      have empty : tree.files = [] := by
        refine List.eq_nil_iff_forall_not_mem.mpr fun entry member => ?_
        have short := height_le_iff.mp deep _ member
        exact rooted.ne_nil member (List.eq_nil_of_length_eq_zero (Nat.le_zero.mp short))
      rw [walk, empty]
      exact .refl _
  | succ depth recurse =>
      rw [walk]
      have files := (files_perm_names rooted (listing.lists dir tree.names)).map
        fun entry => (dir ++ entry.1, entry.2)
      refine .trans ?_ files
      rw [List.map_flatMap]
      refine List.Perm.flatMap_left _ fun name _ => ?_
      rw [List.map_map]
      cases found : (tree.below name).find? [] with
      | some file =>
          rw [files_of_find?_nil found]
          exact .refl _
      | none =>
          have behind : (fun entry : List Name × File => (dir ++ [name] ++ entry.1, entry.2)) =
              (fun entry => (dir ++ entry.1, entry.2)) ∘
                fun entry => (name :: entry.1, entry.2) := by
            funext entry
            rw [Function.comp_apply, List.append_assoc, List.singleton_append]
          exact behind ▸ recurse found (height_below deep name)

end FileTrees.FileTree
