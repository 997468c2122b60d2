import Mathlib.Data.List.Infix
import Mathlib.Data.List.Nodup

/-! # File trees

The regular files below a directory, each found by the names that lead to it. The directories are
the places on the way to a file, so no file stands on the way to another.
-/

namespace FileTrees

/-- The files below a directory. -/
structure FileTree (Name File : Type) where
  files : List (List Name × File)
  distinct : (files.map Prod.fst).Nodup
  apart : ∀ upper ∈ files, ∀ lower ∈ files, upper.1 <+: lower.1 → upper.1 = lower.1

namespace FileTree

variable {Name File : Type}

def empty : FileTree Name File where
  files := []
  distinct := List.nodup_nil
  apart _ member := absurd member List.not_mem_nil

/-- A tree is its files. -/
theorem ext {first second : FileTree Name File} (same : first.files = second.files) :
    first = second := by
  cases first
  cases second
  cases same
  rfl

variable [DecidableEq Name]

/-- The file at a place. -/
def find? (tree : FileTree Name File) (location : List Name) : Option File :=
  (tree.files.find? fun entry => entry.1 = location).map Prod.snd

/-- A file is found where it is stored. -/
theorem find?_eq_some {tree : FileTree Name File} {location : List Name} {file : File} :
    tree.find? location = some file ↔ (location, file) ∈ tree.files := by
  rw [find?, Option.map_eq_some_iff]
  constructor
  · rintro ⟨⟨place, found⟩, first, rfl⟩
    have here := List.find?_some first
    rw [decide_eq_true_eq] at here
    cases here
    exact List.mem_of_find?_eq_some first
  · intro member
    cases first : tree.files.find? fun entry => entry.1 = location with
    | none =>
        have nowhere := List.find?_eq_none.mp first _ member
        rw [decide_eq_true_eq] at nowhere
        exact absurd rfl nowhere
    | some entry =>
        have here := List.find?_some first
        rw [decide_eq_true_eq] at here
        have same := List.inj_on_of_nodup_map tree.distinct (List.mem_of_find?_eq_some first)
          member here
        exact ⟨entry, rfl, congrArg Prod.snd same⟩

/-- The first file on the way to a place, from the top. -/
def fileAbove (tree : FileTree Name File) (location : List Name) : Option (List Name) :=
  location.inits.find? fun above => above ≠ location ∧ above ∈ tree.files.map Prod.fst

/-- Whether a place is on the way to a file. -/
def isDirectory (tree : FileTree Name File) (location : List Name) : Bool :=
  tree.files.any fun entry => location <+: entry.1 ∧ location ≠ entry.1

/-- Whether a file can stand at a place. -/
structure Free (tree : FileTree Name File) (location : List Name) : Prop where
  above : tree.fileAbove location = none
  below : tree.isDirectory location = false

instance (tree : FileTree Name File) (location : List Name) : Decidable (tree.Free location) :=
  decidable_of_iff (tree.fileAbove location = none ∧ tree.isDirectory location = false)
    ⟨fun both => ⟨both.1, both.2⟩, fun free => ⟨free.above, free.below⟩⟩

/-- A free place is on no way, and no file is on the way to it. -/
theorem Free.comparable {tree : FileTree Name File} {location : List Name}
    (free : tree.Free location) {entry : List Name × File} (member : entry ∈ tree.files) :
    (entry.1 <+: location → entry.1 = location) ∧ (location <+: entry.1 → location = entry.1) := by
  constructor
  · intro onTheWay
    have passed := List.find?_eq_none.mp free.above entry.1 (List.mem_inits _ _ |>.mpr onTheWay)
    rw [decide_eq_true_eq, not_and'] at passed
    exact not_not.mp (passed (List.mem_map_of_mem member))
  · intro onTheWay
    have passed := List.any_eq_false.mp free.below entry member
    rw [decide_eq_true_eq, not_and] at passed
    exact not_not.mp (passed onTheWay)

/-- Put a file at a free place, in the place of the one that is there. -/
def put (tree : FileTree Name File) (location : List Name) (file : File)
    (free : tree.Free location) : FileTree Name File where
  files := tree.files.filter (fun entry => entry.1 ≠ location) ++ [(location, file)]
  distinct := by
    rw [List.map_append, List.nodup_append]
    refine ⟨(tree.distinct.sublist (List.filter_sublist.map _)), List.nodup_singleton _, ?_⟩
    rintro place member _ (_ | ⟨_, ⟨⟩⟩)
    obtain ⟨entry, kept, rfl⟩ := List.mem_map.mp member
    exact of_decide_eq_true (List.mem_filter.mp kept).2
  apart := by
    intro upper upperMember lower lowerMember onTheWay
    rcases List.mem_append.mp upperMember with old | new
    · have upperOld := (List.mem_filter.mp old).1
      rcases List.mem_append.mp lowerMember with old | new
      · exact tree.apart upper upperOld lower (List.mem_filter.mp old).1 onTheWay
      · cases List.mem_singleton.mp new
        exact (free.comparable upperOld).1 onTheWay
    · cases List.mem_singleton.mp new
      rcases List.mem_append.mp lowerMember with old | new
      · exact (free.comparable (List.mem_filter.mp old).1).2 onTheWay
      · cases List.mem_singleton.mp new
        rfl

/-- A stored file comes on top of the others. -/
theorem mem_put {tree : FileTree Name File} {location : List Name} {file : File}
    {free : tree.Free location} {entry : List Name × File} :
    entry ∈ (tree.put location file free).files ↔
      entry ∈ tree.files ∧ entry.1 ≠ location ∨ entry = (location, file) := by
  rw [put, List.mem_append, List.mem_filter, List.mem_singleton, decide_eq_true_eq]

/-- **A file that was put is found, and the others are where they were.** -/
theorem find?_put {tree : FileTree Name File} {location : List Name} {file : File}
    (free : tree.Free location) (place : List Name) :
    (tree.put location file free).find? place =
      if place = location then some file else tree.find? place := by
  apply Option.ext
  intro found
  rw [find?_eq_some, mem_put]
  split
  · rename_i here
    rw [Option.some.injEq]
    constructor
    · rintro (⟨-, elsewhere⟩ | same)
      · exact absurd here elsewhere
      · exact (congrArg Prod.snd same).symm
    · rintro rfl
      exact .inr (congrArg (·, file) here)
  · rename_i elsewhere
    rw [find?_eq_some]
    constructor
    · rintro (⟨member, -⟩ | same)
      · exact member
      · exact absurd (congrArg Prod.fst same) elsewhere
    · intro member
      exact .inl ⟨member, elsewhere⟩

/-! ## Storing one file after the other -/

/-- Put a file at a place if it is free. -/
def store? (tree : FileTree Name File) (entry : List Name × File) : Option (FileTree Name File) :=
  if free : tree.Free entry.1 then some (tree.put entry.1 entry.2 free) else none

/-- Store files in order, as long as their places are free. -/
def storeAll (tree : FileTree Name File) (entries : List (List Name × File)) :
    Option (FileTree Name File) :=
  entries.foldlM store? tree

/-- Storing succeeds at a free location. -/
theorem store?_eq_some {tree next : FileTree Name File} {entry : List Name × File} :
    tree.store? entry = some next ↔
      ∃ free : tree.Free entry.1, tree.put entry.1 entry.2 free = next := by
  rw [store?]
  split
  · rename_i free
    rw [Option.some.injEq]
    constructor
    · intro same
      exact ⟨free, same⟩
    · rintro ⟨_, same⟩
      exact same
  · rename_i taken
    constructor
    · rintro ⟨⟩
    · rintro ⟨free, -⟩
      exact absurd free taken

/-- Files are stored one after the other. -/
theorem storeAll_cons (tree : FileTree Name File) (entry : List Name × File)
    (entries : List (List Name × File)) :
    tree.storeAll (entry :: entries) = (tree.store? entry).bind fun next => next.storeAll entries :=
  List.foldlM_cons

/-- **The last file stored at a place is the one that is left.** -/
theorem find?_storeAll {tree final : FileTree Name File} {entries : List (List Name × File)}
    (stored : tree.storeAll entries = some final) (place : List Name) :
    final.find? place =
      ((entries.reverse.find? fun entry => entry.1 = place).map Prod.snd).or
        (tree.find? place) := by
  induction entries generalizing tree with
  | nil =>
      cases stored
      rfl
  | cons entry entries recurse =>
      rw [storeAll_cons, Option.bind_eq_some_iff] at stored
      obtain ⟨next, first, rest⟩ := stored
      obtain ⟨free, rfl⟩ := store?_eq_some.mp first
      rw [recurse rest, find?_put, List.reverse_cons, List.find?_append]
      cases entries.reverse.find? fun entry => entry.1 = place with
      | some last => rfl
      | none =>
          rw [Option.map_none, Option.none_or, Option.none_or, List.find?_singleton]
          by_cases here : entry.1 = place
          · rw [if_pos here.symm, if_pos (decide_eq_true here)]
            rfl
          · rw [if_neg (Ne.symm here), if_neg (by rwa [decide_eq_true_eq])]
            rfl

/-- A location is free when nothing is above or below it. -/
theorem free_of_apart {tree : FileTree Name File} {location : List Name}
    (above : ∀ entry ∈ tree.files, entry.1 <+: location → entry.1 = location)
    (below : ∀ entry ∈ tree.files, location <+: entry.1 → location = entry.1) :
    tree.Free location where
  above := by
    refine List.find?_eq_none.mpr fun place onTheWay => ?_
    rw [decide_eq_true_eq]
    rintro ⟨elsewhere, taken⟩
    obtain ⟨entry, member, rfl⟩ := List.mem_map.mp taken
    exact elsewhere (above entry member ((List.mem_inits _ _).mp onTheWay))
  below := by
    refine List.any_eq_false.mpr fun entry member => ?_
    rw [decide_eq_true_eq]
    rintro ⟨onTheWay, elsewhere⟩
    exact elsewhere (below entry member onTheWay)

/-- **Files can be stored when none stands on the way to another.** -/
theorem exists_storeAll {tree : FileTree Name File} {entries : List (List Name × File)}
    (apart : ∀ upper ∈ tree.files ++ entries, ∀ lower ∈ tree.files ++ entries,
      upper.1 <+: lower.1 → upper.1 = lower.1) :
    ∃ final, tree.storeAll entries = some final := by
  induction entries generalizing tree with
  | nil => exact ⟨tree, rfl⟩
  | cons entry entries recurse =>
      have first : entry ∈ tree.files ++ entry :: entries :=
        List.mem_append_right _ List.mem_cons_self
      have free : tree.Free entry.1 := free_of_apart
        (fun other member => apart other (List.mem_append_left _ member) entry first)
        (fun other member => apart entry first other (List.mem_append_left _ member))
      have inside : ∀ other ∈ (tree.put entry.1 entry.2 free).files ++ entries,
          other ∈ tree.files ++ entry :: entries := by
        intro other member
        rcases List.mem_append.mp member with put | later
        · rcases mem_put.mp put with ⟨old, -⟩ | rfl
          · exact List.mem_append_left _ old
          · exact first
        · exact List.mem_append_right _ (List.mem_cons_of_mem _ later)
      obtain ⟨final, stored⟩ := @recurse (tree.put entry.1 entry.2 free)
        fun upper upperMember lower lowerMember =>
          apart upper (inside upper upperMember) lower (inside lower lowerMember)
      refine ⟨final, ?_⟩
      rw [storeAll_cons, store?_eq_some.mpr ⟨free, rfl⟩]
      exact stored

/-- What is left was stored, or was there before. -/
theorem mem_of_storeAll {tree final : FileTree Name File} {entries : List (List Name × File)}
    (stored : tree.storeAll entries = some final) {entry : List Name × File}
    (member : entry ∈ final.files) : entry ∈ entries ∨ entry ∈ tree.files := by
  have found := find?_eq_some.mpr member
  rw [find?_storeAll stored, Option.or_eq_some_iff] at found
  rcases found with last | ⟨-, before⟩
  · obtain ⟨other, first, file⟩ := Option.map_eq_some_iff.mp last
    have place := List.find?_some first
    rw [decide_eq_true_eq] at place
    have same : other = entry := Prod.ext place file
    exact .inl (same ▸ List.mem_reverse.mp (List.mem_of_find?_eq_some first))
  · exact .inr (find?_eq_some.mp before)

/-- Where a file was stored there is one. -/
theorem exists_mem_of_storeAll {tree final : FileTree Name File}
    {entries : List (List Name × File)} (stored : tree.storeAll entries = some final)
    {entry : List Name × File} (member : entry ∈ entries) :
    ∃ file, (entry.1, file) ∈ final.files := by
  have found := find?_storeAll stored entry.1
  cases last : entries.reverse.find? fun other => other.1 = entry.1 with
  | none =>
      have nowhere := List.find?_eq_none.mp last entry (List.mem_reverse.mpr member)
      exact absurd (decide_eq_true rfl) nowhere
  | some other =>
      rw [last, Option.map_some, Option.some_or] at found
      exact ⟨other.2, find?_eq_some.mp found⟩

/-- **Files stored at different places are all left.** -/
theorem files_storeAll {tree final : FileTree Name File} {entries : List (List Name × File)}
    (distinct : ((tree.files ++ entries).map Prod.fst).Nodup)
    (stored : tree.storeAll entries = some final) : final.files = tree.files ++ entries := by
  induction entries generalizing tree with
  | nil =>
      cases stored
      exact (List.append_nil _).symm
  | cons entry entries recurse =>
      rw [storeAll_cons, Option.bind_eq_some_iff] at stored
      obtain ⟨next, first, rest⟩ := stored
      obtain ⟨free, rfl⟩ := store?_eq_some.mp first
      have others : tree.files.filter (fun other => other.1 ≠ entry.1) = tree.files := by
        refine List.filter_eq_self.mpr fun other member => decide_eq_true fun same => ?_
        rw [List.map_append, List.nodup_append] at distinct
        exact distinct.2.2 _ (List.mem_map_of_mem member) _
          (List.mem_map_of_mem List.mem_cons_self) same
      have files : (tree.put entry.1 entry.2 free).files = tree.files ++ [entry] := by
        exact congrArg (· ++ [entry]) others
      rw [List.append_cons, ← files] at distinct
      rw [recurse distinct rest, files, List.append_assoc, List.singleton_append]

end FileTree

end FileTrees
