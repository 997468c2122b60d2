import AetherArch.Pipeline.Reassembly

/-! # Consuming reassembly

Files are reassembled one after the other from blocks that are taken out with their last reader.
Each of them gets what it would get from the untouched blocks, and a block is gone exactly when
all its readers are done.
-/

namespace AetherArch

/-- Blocks with their readers counted. -/
def sharing (entries : List FileEntry) (blocks : List (Option Bytes)) : SharedBlocks where
  blocks := blocks
  refCounts := blockRefCounts entries blocks.length

/-- What the entries are reassembled to, one after the other, up to the first failure. -/
def sharedResults : List FileEntry → SharedBlocks → List (Result Bytes)
  | [], _ => []
  | entry :: entries, shared =>
      match reassembleFileShared entry shared with
      | .error error => [.error error]
      | .ok (data, next) => .ok data :: sharedResults entries next

/-- The blocks after some entries that were all reassembled. -/
def sharedAfter : List FileEntry → SharedBlocks → Result SharedBlocks
  | [], shared => .ok shared
  | entry :: entries, shared => do
      let (_, next) ← reassembleFileShared entry shared
      sharedAfter entries next

/-- Results up to the first failure, which is the last. -/
def upToFailure : List (Result Bytes) → List (Result Bytes)
  | [] => []
  | .error error :: _ => [.error error]
  | .ok data :: results => .ok data :: upToFailure results

/-! ## One entry -/

/-- What is left after each of some positions was read once. -/
structure ReadOnce (shared next : SharedBlocks) (indices : List Nat) : Prop where
  length_blocks : next.blocks.length = shared.blocks.length
  refCounts (j : Nat) : next.refCounts[j]? =
    if j ∈ indices then shared.refCounts[j]?.map (· - 1) else shared.refCounts[j]?
  blocks (j : Nat) : next.blocks[j]? =
    if j ∈ indices ∧ shared.refCounts[j]?.getD 1 ≤ 1 then some none else shared.blocks[j]?

/-- Reading nothing leaves the blocks. -/
theorem readOnce_nil (shared : SharedBlocks) : ReadOnce shared shared [] := by
  constructor
  · rfl
  · intro j
    rw [if_neg List.not_mem_nil]
  · intro j
    rw [if_neg fun read => List.not_mem_nil read.1]

/-- Taking or cloning reads one block once. -/
theorem readOnce_takeOrClone {shared next : SharedBlocks} {i : Nat} {data : Bytes}
    (success : takeOrClone shared i = .ok (data, next)) : ReadOnce shared next [i] := by
  rw [takeOrClone] at success
  split at success
  · rename_i found present
    cases success
    have inside : i < shared.blocks.length := (List.getElem?_eq_some_iff.mp present).1
    constructor
    · dsimp only
      split
      · rw [List.length_set]
      · rfl
    · intro j
      rw [List.getElem?_set]
      by_cases same : i = j
      · subst same
        rw [if_pos rfl, if_pos (List.mem_singleton_self i)]
        split
        · rename_i counted
          rw [List.getElem?_eq_getElem counted]
          rfl
        · rename_i uncounted
          rw [List.getElem?_eq_none (not_lt.mp uncounted)]
          rfl
      · rw [if_neg same, if_neg fun member => same (List.mem_singleton.mp member).symm]
    · intro j
      dsimp only
      by_cases same : j = i
      · subst same
        split
        · rename_i last
          rw [if_pos ⟨List.mem_singleton_self j, last⟩, List.getElem?_set_self inside]
        · rename_i others
          rw [if_neg fun read => others read.2]
      · have unread : ¬(j ∈ [i] ∧ shared.refCounts[j]?.getD 1 ≤ 1) :=
          fun read => same (List.mem_singleton.mp read.1)
        rw [if_neg unread]
        split
        · rw [List.getElem?_set_ne (Ne.symm same)]
        · rfl
  · cases success

/-- Positions that are read after others. -/
theorem ReadOnce.trans {shared between next : SharedBlocks} {i : Nat} {rest : List Nat}
    (first : ReadOnce shared between [i]) (later : ReadOnce between next rest)
    (fresh : i ∉ rest) : ReadOnce shared next (i :: rest) := by
  have others {j : Nat} (member : j ∈ rest) : j ∉ [i] := by
    intro same
    rw [List.mem_singleton.mp same] at member
    exact fresh member
  constructor
  · rw [later.length_blocks, first.length_blocks]
  · intro j
    rw [later.refCounts, first.refCounts]
    by_cases member : j ∈ rest
    · rw [if_pos member, if_neg (others member), if_pos (List.mem_cons_of_mem _ member)]
    · rw [if_neg member]
      simp only [List.mem_cons, member, List.not_mem_nil, or_false]
  · intro j
    rw [later.blocks, first.blocks, first.refCounts]
    by_cases member : j ∈ rest
    · simp only [member, others member, List.mem_cons, or_true, true_and, false_and, if_false]
    · simp only [member, false_and, if_false, List.mem_cons, List.not_mem_nil, or_false]

/-- Taking or cloning several blocks reads each of them once. -/
theorem readOnce_takeOrCloneAll {shared next : SharedBlocks} {indices : List Nat} {data : Bytes}
    (distinct : indices.Nodup) (success : takeOrCloneAll indices shared = .ok (data, next)) :
    ReadOnce shared next indices := by
  induction indices generalizing shared data with
  | nil =>
      cases success
      exact readOnce_nil _
  | cons i rest recurse =>
      obtain ⟨fresh, restDistinct⟩ := List.nodup_cons.mp distinct
      obtain ⟨⟨here, between⟩, taken, success⟩ := Result.bind_eq_ok.mp success
      obtain ⟨⟨later, last⟩, takenRest, same⟩ := Result.bind_eq_ok.mp success
      cases same
      exact (readOnce_takeOrClone taken).trans (recurse restDistinct takenRest) fresh

/-- Reassembling an entry reads each block of its range once. -/
theorem readOnce_reassembleFileShared {shared next : SharedBlocks} {entry : FileEntry}
    {data : Bytes} (success : reassembleFileShared entry shared = .ok (data, next)) :
    ReadOnce shared next
      (List.range' entry.chunkStartIdx.toNat entry.chunkCount.toNat) := by
  obtain ⟨range, ranged, success⟩ := Result.bind_eq_ok.mp success
  rcases fileBlockRange_eq_ok.mp ranged with ⟨empty, rfl⟩ | ⟨-, -, rfl⟩
  · cases success
    rw [empty]
    exact readOnce_nil _
  · obtain ⟨⟨combined, between⟩, taken, same⟩ := Result.bind_eq_ok.mp success
    cases same
    exact readOnce_takeOrCloneAll List.nodup_range' taken

/-! ## All entries -/

/-- The blocks after some entries, with others to follow. -/
structure Follows (original : List (Option Bytes)) (processed remaining : List FileEntry)
    (shared : SharedBlocks) : Prop where
  length_blocks : shared.blocks.length = original.length
  refCounts {i : Nat} : i < original.length → shared.refCounts[i]? = some (readers remaining i)
  blocks {i : Nat} : i < original.length → shared.blocks[i]? =
    if 0 < readers processed i ∧ readers remaining i = 0 then some none else original[i]?

/-- At the start the shared blocks follow the original. -/
theorem follows_sharing {entries : List FileEntry} (few : entries.length < 2 ^ 32)
    (original : List (Option Bytes)) : Follows original [] entries (sharing entries original) where
  length_blocks := rfl
  refCounts inside := blockRefCounts_getElem? few inside
  blocks _ := by
    rw [if_neg fun taken => absurd taken.1 (lt_irrefl 0)]
    rfl

variable {original : List (Option Bytes)} {processed remaining : List FileEntry}
  {entry : FileEntry} {shared next : SharedBlocks} {data : Bytes}

theorem readers_append (first second : List FileEntry) (i : Nat) :
    readers (first ++ second) i = readers first i + readers second i :=
  List.countP_append

/-- **An entry leaves the blocks to the entries after it.** -/
theorem Follows.step (follows : Follows original processed (entry :: remaining) shared)
    (success : reassembleFileShared entry shared = .ok (data, next)) :
    Follows original (processed ++ [entry]) remaining next := by
  have once := readOnce_reassembleFileShared success
  have single (i : Nat) : readers [entry] i = if reads entry i then 1 else 0 := by
    rw [readers_cons, readers, List.countP_nil, Nat.zero_add]
  constructor
  · rw [once.length_blocks, follows.length_blocks]
  · intro i inside
    rw [once.refCounts, follows.refCounts inside, readers_cons]
    simp only [mem_range'_reads]
    split <;> rfl
  · intro i inside
    rw [once.blocks, follows.refCounts inside, follows.blocks inside, readers_append, single,
      readers_cons]
    simp only [mem_range'_reads, Option.getD_some]
    by_cases read : reads entry i = true
    · have untaken : ¬(0 < readers processed i ∧ readers remaining i + 1 = 0) :=
        fun taken => Nat.succ_ne_zero _ taken.2
      have last : readers remaining i + 1 ≤ 1 ↔ readers remaining i = 0 := by omega
      simp only [read, ↓reduceIte, true_and, untaken, last, Nat.zero_lt_succ]
    · simp only [read, Bool.false_eq_true, ↓reduceIte, false_and, Nat.add_zero]

/-- An entry is reassembled as from the untouched blocks. -/
theorem Follows.result_eq (follows : Follows original processed (entry :: remaining) shared) :
    (reassembleFileShared entry shared).map Prod.fst = reassembleFileFromBlocks entry original := by
  rw [reassembleFileShared_eq_fromBlocks, reassembleFileFromBlocks, reassembleFileFromBlocks,
    follows.length_blocks]
  cases ranged : fileBlockRange entry original.length with
  | error error => rfl
  | ok range =>
      rcases fileBlockRange_eq_ok.mp ranged with ⟨-, rfl⟩ | ⟨-, inside, rfl⟩
      · rfl
      · have same : joinBlocks shared.blocks
            (List.range' entry.chunkStartIdx.toNat entry.chunkCount.toNat) = joinBlocks original
              (List.range' entry.chunkStartIdx.toNat entry.chunkCount.toNat) := by
          apply joinBlocks_congr
          intro i member
          have needed : readers (entry :: remaining) i ≠ 0 := by
            rw [readers_cons, if_pos (mem_range'_reads.mp member)]
            exact Nat.succ_ne_zero _
          rw [follows.blocks (lt_of_mem_range' inside member), if_neg fun taken => needed taken.2]
        rw [Result.ok_bind, Result.ok_bind]
        dsimp only
        rw [same]

/-- **Sharing yields what reassembling each entry yields.** -/
theorem Follows.sharedResults_eq {entries : List FileEntry}
    (follows : Follows original processed entries shared) :
    sharedResults entries shared =
      upToFailure (entries.map fun entry => reassembleFileFromBlocks entry original) := by
  induction entries generalizing processed shared with
  | nil => rfl
  | cons entry entries recurse =>
      have result := follows.result_eq
      rw [sharedResults, List.map_cons, ← result]
      cases reassembled : reassembleFileShared entry shared with
      | error error => rfl
      | ok taken =>
          have later := recurse (follows.step reassembled)
          change _ :: sharedResults entries taken.2 = _ :: upToFailure _
          rw [later]

/-- After some entries the shared blocks still follow the original. -/
theorem Follows.after {entries : List FileEntry}
    (follows : Follows original processed (entries ++ remaining) shared)
    (success : sharedAfter entries shared = .ok next) :
    Follows original (processed ++ entries) remaining next := by
  induction entries generalizing processed shared with
  | nil =>
      cases success
      rw [List.append_nil]
      exact follows
  | cons entry entries recurse =>
      obtain ⟨⟨data, between⟩, reassembled, success⟩ := Result.bind_eq_ok.mp success
      rw [List.append_cons]
      exact recurse (follows.step reassembled) success

theorem readers_pos {entries : List FileEntry} {i : Nat} :
    0 < readers entries i ↔ ∃ entry ∈ entries, reads entry i = true := List.countP_pos_iff

/-- **Taking the blocks out with their last reader changes no result**, and takes out exactly the
blocks that have been read and are not read again. -/
theorem consuming_reassembly (entries : List FileEntry) (few : entries.length < 2 ^ 32)
    (original : List (Option Bytes)) :
    sharedResults entries (sharing entries original) =
        upToFailure (entries.map fun entry => reassembleFileFromBlocks entry original) ∧
      ∀ processed remaining shared, entries = processed ++ remaining →
        sharedAfter processed (sharing entries original) = .ok shared →
        shared.blocks.length = original.length ∧
          ∀ (i : Nat) (data : Bytes), original[i]? = some (some data) →
            (shared.blocks[i]? = some none ↔
              (∃ entry ∈ processed, reads entry i = true) ∧
                ¬∃ entry ∈ remaining, reads entry i = true) ∧
            (shared.blocks[i]? ≠ some none → shared.blocks[i]? = some (some data)) := by
  have follows := follows_sharing few original
  refine ⟨follows.sharedResults_eq, ?_⟩
  intro processed remaining shared split success
  subst split
  have after := follows.after success
  rw [List.nil_append] at after
  refine ⟨after.length_blocks, fun i data present => ?_⟩
  have inside := (List.getElem?_eq_some_iff.mp present).1
  rw [after.blocks inside, present]
  have done : (∃ entry ∈ processed, reads entry i = true) ∧
      (¬∃ entry ∈ remaining, reads entry i = true) ↔
        0 < readers processed i ∧ readers remaining i = 0 := by
    rw [← readers_pos, ← readers_pos, not_lt, Nat.le_zero]
  rw [done]
  split
  · rename_i taken
    exact ⟨iff_of_true rfl taken, fun remains => absurd rfl remains⟩
  · rename_i left
    refine ⟨iff_of_false ?_ left, fun _ => rfl⟩
    simp only [Option.some.injEq, reduceCtorEq, not_false_eq_true]

/-- An entry with a range of blocks. -/
def rangeEntry (chunkStartIdx chunkCount : UInt32) : FileEntry where
  path := "a"
  originalSize := 8
  blake3Hash := ⟨List.replicate 32 0, rfl⟩
  solidGroupId := 0
  chunkStartIdx := chunkStartIdx
  chunkCount := chunkCount
  permissions := 0
  mtime := 0

/-- Two overlapping entries are reassembled. -/
theorem consuming_reassembly_overlap :
    sharedResults [rangeEntry 0 2, rangeEntry 1 1]
        (sharing [rangeEntry 0 2, rangeEntry 1 1] [some [7], some [8]]) =
      [.ok [7, 8], .ok [8]] := by
  rw [(consuming_reassembly _ (by decide) _).1]
  rfl

end AetherArch
