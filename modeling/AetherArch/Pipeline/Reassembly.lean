import AetherArch.Pipeline.Decompress

/-! # Reassembly

What a file holds is determined by its chunk range and the decoded blocks. Taking a block out
for its last reader and copying it for the others gives every file those bytes.
-/

namespace AetherArch

/-! ## What a file holds -/

/-- The decoded blocks of a file's chunk range, when all of them exist. -/
def chunkRange (entry : FileEntry) (decoded : List Bytes) : Option (List Bytes) :=
  let start := entry.chunkStartIdx.toNat
  let count := entry.chunkCount.toNat
  if count = 0 then some []
  else if start + count ≤ decoded.length then some ((decoded.drop start).take count)
  else none

/-- The bytes of a file. -/
def fileContent (entry : FileEntry) (decoded : List Bytes) : Option Bytes :=
  (chunkRange entry decoded).map fun blocks => truncateToFileSize entry blocks.flatten

/-- The bytes of a file that has its recorded digest. -/
def intactContent (hashing : Hashing) (decoded : List Bytes) (entry : FileEntry) : Option Bytes :=
  (fileContent entry decoded).filter fun data => hashing.blake3 data = entry.blake3Hash

/-- A file as it is handed to the file system. -/
def extractedFile (entry : FileEntry) (data : Bytes) : ExtractedFile where
  path := entry.path
  data := data
  mtime := entry.mtime
  permissions := entry.permissions &&& SAFE_PERMISSION_MASK

/-- An intact file with an acceptable path. -/
def extracted (hashing : Hashing) (decoded : List Bytes) (entry : FileEntry) :
    Option ExtractedFile :=
  if (validateExtractionPath entry.path).isOk then
    (intactContent hashing decoded entry).map (extractedFile entry)
  else none

/-- The blocks at some positions, joined. -/
def pieces (decoded : List Bytes) (indices : List Nat) : Bytes :=
  (indices.map fun i => decoded.getD i []).flatten

/-- Consecutive pieces are a slice of the decoded blocks. -/
theorem pieces_range' {decoded : List Bytes} {start count : Nat}
    (inside : start + count ≤ decoded.length) :
    pieces decoded (List.range' start count) = ((decoded.drop start).take count).flatten := by
  have same : (List.range' start count).map (fun i => decoded.getD i []) =
      (decoded.drop start).take count := by
    apply List.ext_getElem
    · simp only [List.length_map, List.length_range', List.length_take, List.length_drop]
      omega
    · intro i first second
      rw [List.length_map, List.length_range'] at first
      simp only [List.getElem_map, List.getElem_range', List.getElem_take, List.getElem_drop,
        one_mul]
      rw [List.getD_eq_getElem?_getD, List.getElem?_eq_getElem (by omega), Option.getD_some]
  rw [pieces, same]

theorem lt_of_mem_range' {start count bound i : Nat} (inside : start + count ≤ bound)
    (member : i ∈ List.range' start count) : i < bound :=
  (List.mem_range'_1.mp member).2.trans_le inside

/-- The range of an entry is empty, or lies inside the blocks. -/
theorem fileBlockRange_eq_ok {entry : FileEntry} {blockCount : Nat} {range : Option (Nat × Nat)} :
    fileBlockRange entry blockCount = .ok range ↔
      entry.chunkCount.toNat = 0 ∧ range = none ∨
      entry.chunkCount.toNat ≠ 0 ∧
        entry.chunkStartIdx.toNat + entry.chunkCount.toNat ≤ blockCount ∧
        range = some (entry.chunkStartIdx.toNat, entry.chunkCount.toNat) := by
  have start := entry.chunkStartIdx.toNat_lt
  have count := entry.chunkCount.toNat_lt
  have fits : ¬entry.chunkStartIdx.toNat + entry.chunkCount.toNat ≥ 2 ^ 64 := by omega
  simp only [fileBlockRange, fits, ↓reduceIte]
  split
  · rename_i empty
    simp only [empty, true_and, not_true_eq_false, false_and, or_false, ne_eq]
    constructor
    · rintro ⟨⟩
      rfl
    · rintro rfl
      rfl
  · rename_i some_blocks
    simp only [some_blocks, false_and, not_false_eq_true, true_and, false_or, ne_eq]
    split
    · rename_i outside
      constructor
      · rintro ⟨⟩
      · rintro ⟨inside, -⟩
        exact absurd inside (not_le.mpr outside)
    · rename_i inside
      constructor
      · rintro ⟨⟩
        exact ⟨not_lt.mp inside, rfl⟩
      · rintro ⟨-, rfl⟩
        rfl

/-- A reassembly is given by what it does with the positions of a range. -/
theorem fileContent_eq_some {entry : FileEntry} {decoded : List Bytes} {data : Bytes} :
    fileContent entry decoded = some data ↔
      ∃ range, fileBlockRange entry decoded.length = .ok range ∧
        data = match range with
          | none => []
          | some (start, count) =>
              truncateToFileSize entry (pieces decoded (List.range' start count)) := by
  simp only [fileBlockRange_eq_ok, fileContent, chunkRange]
  split
  · rename_i empty
    simp only [empty, true_and, not_true_eq_false, false_and, or_false, ne_eq, exists_eq_left,
      Option.map_some, List.flatten_nil, Option.some.injEq]
    rw [truncateToFileSize, List.take_nil, eq_comm]
  · rename_i some_blocks
    simp only [some_blocks, false_and, not_false_eq_true, true_and, false_or, ne_eq]
    split
    · rename_i inside
      simp only [inside, true_and, exists_eq_left, Option.map_some, Option.some.injEq,
        pieces_range' inside, eq_comm]
    · rename_i outside
      simp only [outside, false_and, exists_false, Option.map_none, reduceCtorEq]

/-- A file holds the blocks of its range, cut off at its size. -/
theorem fileContent_of_inside {entry : FileEntry} {decoded : List Bytes}
    (inside : entry.chunkStartIdx.toNat + entry.chunkCount.toNat ≤ decoded.length) :
    fileContent entry decoded = some (truncateToFileSize entry
      ((decoded.drop entry.chunkStartIdx.toNat).take entry.chunkCount.toNat).flatten) := by
  rw [fileContent, chunkRange]
  split
  · rename_i empty
    rw [empty, List.take_zero]
    rfl
  · rfl

/-! ## Leaving the blocks in place -/

/-- Blocks that are all there are joined. -/
theorem joinBlocks_map_some {decoded : List Bytes} {indices : List Nat}
    (inside : ∀ i ∈ indices, i < decoded.length) :
    joinBlocks (decoded.map some) indices = .ok (pieces decoded indices) := by
  induction indices with
  | nil => rfl
  | cons i rest recurse =>
      have here := inside i (List.mem_cons_self ..)
      have later := recurse fun j member => inside j (List.mem_cons_of_mem _ member)
      rw [joinBlocks, List.getElem?_map, List.getElem?_eq_getElem here, later]
      simp only [pieces, Option.map_some, Result.ok_bind, List.map_cons, List.flatten_cons,
        List.getD_eq_getElem?_getD, List.getElem?_eq_getElem here, Option.getD_some]
      rfl

/-- **Reassembling a file in place gives what it holds.** -/
theorem reassembleFileFromBlocks_eq_ok {entry : FileEntry} {decoded : List Bytes} {data : Bytes} :
    reassembleFileFromBlocks entry (decoded.map some) = .ok data ↔
      fileContent entry decoded = some data := by
  rw [reassembleFileFromBlocks, fileContent_eq_some, Result.bind_eq_ok, List.length_map]
  refine exists_congr fun range => and_congr_right fun ranged => ?_
  rcases fileBlockRange_eq_ok.mp ranged with ⟨-, rfl⟩ | ⟨-, inside, rfl⟩
  · rw [Result.pure_eq_ok, eq_comm]
  · dsimp only
    rw [joinBlocks_map_some fun i => lt_of_mem_range' inside]
    rw [Result.ok_bind, Result.pure_eq_ok, eq_comm]

/-! ## Sharing the blocks -/

/-- Whether a file reads a block. -/
def reads (entry : FileEntry) (i : Nat) : Bool :=
  entry.chunkStartIdx.toNat ≤ i ∧ i < entry.chunkStartIdx.toNat + entry.chunkCount.toNat

/-- Every block is counted as often as it is still needed, and present while it is. -/
structure SharedBlocks.Serves (shared : SharedBlocks) (decoded : List Bytes) (needs : Nat → Nat) :
    Prop where
  length_blocks : shared.blocks.length = decoded.length
  counts {i : Nat} : i < decoded.length → shared.refCounts[i]? = some (needs i)
  present {i : Nat} : i < decoded.length → 0 < needs i →
    shared.blocks[i]? = some (some (decoded.getD i []))

/-- Taking or copying a block that is needed gives the block and one need less. -/
theorem takeOrClone_serves {shared : SharedBlocks} {decoded : List Bytes} {needs : Nat → Nat}
    (serves : shared.Serves decoded needs) {i : Nat} (inside : i < decoded.length)
    (needed : 0 < needs i) :
    ∃ next, takeOrClone shared i = .ok (decoded.getD i [], next) ∧
      next.Serves decoded (Function.update needs i (needs i - 1)) := by
  have counted := serves.counts inside
  have countInside : i < shared.refCounts.length := (List.getElem?_eq_some_iff.mp counted).1
  have counts {j : Nat} (within : j < decoded.length) :
      (shared.refCounts.set i (needs i - 1))[j]? =
        some (Function.update needs i (needs i - 1) j) := by
    by_cases same : j = i
    · rw [same, List.getElem?_set_self countInside, Function.update_self]
    · rw [List.getElem?_set_ne (Ne.symm same), Function.update_of_ne same, serves.counts within]
  simp only [takeOrClone, serves.present inside needed, counted, Option.getD_some]
  refine ⟨_, rfl, ?_, counts, ?_⟩
  · dsimp only
    split
    · rw [List.length_set, serves.length_blocks]
    · exact serves.length_blocks
  · intro j within stillNeeded
    dsimp only
    split
    · rename_i last
      by_cases same : j = i
      · rw [same, Function.update_self] at stillNeeded
        omega
      · rw [Function.update_of_ne same] at stillNeeded
        rw [List.getElem?_set_ne (Ne.symm same), serves.present within stillNeeded]
    · by_cases same : j = i
      · rw [same, serves.present inside needed]
      · rw [Function.update_of_ne same] at stillNeeded
        exact serves.present within stillNeeded

/-- Taking or copying the blocks of a file, each needed once by it. -/
theorem takeOrCloneAll_serves {shared : SharedBlocks} {decoded : List Bytes} {needs : Nat → Nat}
    (serves : shared.Serves decoded needs) {indices : List Nat} (distinct : indices.Nodup)
    (inside : ∀ i ∈ indices, i < decoded.length) (needed : ∀ i ∈ indices, 0 < needs i) :
    ∃ next, takeOrCloneAll indices shared = .ok (pieces decoded indices, next) ∧
      next.Serves decoded (fun i => if i ∈ indices then needs i - 1 else needs i) := by
  induction indices generalizing shared needs with
  | nil => exact ⟨shared, rfl, by simpa only [List.not_mem_nil, if_false] using serves⟩
  | cons i rest recurse =>
      obtain ⟨fresh, restDistinct⟩ := List.nodup_cons.mp distinct
      obtain ⟨between, taken, betweenServes⟩ := takeOrClone_serves serves
        (inside i (List.mem_cons_self ..)) (needed i (List.mem_cons_self ..))
      have others {j : Nat} (member : j ∈ rest) : j ≠ i := by
        rintro rfl
        exact fresh member
      obtain ⟨next, takenRest, nextServes⟩ := recurse betweenServes restDistinct
        (fun j member => inside j (List.mem_cons_of_mem _ member)) (fun j member => by
          rw [Function.update_of_ne (others member)]
          exact needed j (List.mem_cons_of_mem _ member))
      refine ⟨next, ?_, ?_⟩
      · rw [takeOrCloneAll, taken, Result.ok_bind]
        dsimp only
        rw [takenRest]
        rfl
      · have same : (fun j => if j ∈ rest then Function.update needs i (needs i - 1) j - 1
            else Function.update needs i (needs i - 1) j) =
            fun j => if j ∈ i :: rest then needs j - 1 else needs j := by
          funext j
          by_cases first : j = i
          · subst first
            rw [if_neg fresh, if_pos (List.mem_cons_self ..), Function.update_self]
          · simp only [Function.update_of_ne first, List.mem_cons, first, false_or]
        exact same ▸ nextServes

/-- How many of the entries read a block. -/
def readers (entries : List FileEntry) (i : Nat) : Nat := entries.countP fun entry => reads entry i

theorem readers_cons (entry : FileEntry) (entries : List FileEntry) (i : Nat) :
    readers (entry :: entries) i = readers entries i + if reads entry i then 1 else 0 :=
  List.countP_cons

theorem mem_range'_reads {entry : FileEntry} {i : Nat} :
    i ∈ List.range' entry.chunkStartIdx.toNat entry.chunkCount.toNat ↔ reads entry i = true := by
  rw [List.mem_range'_1, reads, decide_eq_true_eq]

/-- **Reassembling a file from shared blocks gives what it holds**, and leaves the blocks to the
files after it. -/
theorem reassembleFileShared_eq_ok {shared next : SharedBlocks} {entry : FileEntry}
    {entries : List FileEntry} {decoded : List Bytes} {data : Bytes}
    (serves : shared.Serves decoded (readers (entry :: entries))) :
    reassembleFileShared entry shared = .ok (data, next) →
      fileContent entry decoded = some data ∧ next.Serves decoded (readers entries) := by
  intro success
  obtain ⟨range, ranged, success⟩ := Result.bind_eq_ok.mp success
  rw [serves.length_blocks] at ranged
  rw [fileContent_eq_some]
  rcases fileBlockRange_eq_ok.mp ranged with ⟨empty, rfl⟩ | ⟨-, inside, rfl⟩
  · cases success
    refine ⟨⟨none, ranged, rfl⟩, ?_⟩
    have same : readers (entry :: entries) = readers entries := by
      funext i
      have unread : reads entry i = false := by
        rw [reads, empty, Nat.add_zero, decide_eq_false_iff_not]
        omega
      rw [readers_cons, unread]
      rfl
    exact same ▸ serves
  · obtain ⟨⟨combined, between⟩, taken, same⟩ := Result.bind_eq_ok.mp success
    obtain ⟨expected, expectedTaken, expectedServes⟩ := takeOrCloneAll_serves serves
      List.nodup_range' (fun i => lt_of_mem_range' inside) (fun i member => by
        rw [readers_cons, if_pos (mem_range'_reads.mp member)]
        exact Nat.succ_pos _)
    rw [taken] at expectedTaken
    cases expectedTaken
    cases same
    refine ⟨⟨_, ranged, rfl⟩, ?_⟩
    have fewer : (fun i => if i ∈ List.range' entry.chunkStartIdx.toNat entry.chunkCount.toNat then
        readers (entry :: entries) i - 1 else readers (entry :: entries) i) = readers entries := by
      funext i
      simp only [mem_range'_reads, readers_cons]
      split
      · rfl
      · rfl
    exact fewer ▸ expectedServes

/-- **Sharing reassembles a file exactly when it has content.** -/
theorem reassembleFileShared_isOk {shared : SharedBlocks} {entry : FileEntry}
    {entries : List FileEntry} {decoded : List Bytes} {data : Bytes}
    (serves : shared.Serves decoded (readers (entry :: entries)))
    (content : fileContent entry decoded = some data) :
    ∃ next, reassembleFileShared entry shared = .ok (data, next) := by
  obtain ⟨range, ranged, rfl⟩ := fileContent_eq_some.mp content
  rw [reassembleFileShared, serves.length_blocks, ranged, Result.ok_bind]
  rcases fileBlockRange_eq_ok.mp ranged with ⟨-, rfl⟩ | ⟨-, inside, rfl⟩
  · exact ⟨shared, rfl⟩
  · obtain ⟨next, taken, -⟩ := takeOrCloneAll_serves serves List.nodup_range'
      (fun i => lt_of_mem_range' inside) (fun i member => by
        rw [readers_cons, if_pos (mem_range'_reads.mp member)]
        exact Nat.succ_pos _)
    dsimp only
    rw [taken]
    exact ⟨next, rfl⟩

/-! ## Taking the blocks out -/

/-- Joining depends on the blocks of the range only. -/
theorem joinBlocks_congr {first second : List (Option Bytes)} {indices : List Nat}
    (same : ∀ i ∈ indices, first[i]? = second[i]?) :
    joinBlocks first indices = joinBlocks second indices := by
  induction indices with
  | nil => rfl
  | cons i rest recurse =>
      rw [joinBlocks, joinBlocks, same i (List.mem_cons_self ..),
        recurse fun j member => same j (List.mem_cons_of_mem _ member)]

/-- Taking or copying each block once reads the blocks as they are. -/
theorem takeOrCloneAll_eq_joinBlocks {shared : SharedBlocks} {indices : List Nat}
    (distinct : indices.Nodup) :
    (takeOrCloneAll indices shared).map Prod.fst = joinBlocks shared.blocks indices := by
  induction indices generalizing shared with
  | nil => rfl
  | cons i rest recurse =>
      obtain ⟨fresh, restDistinct⟩ := List.nodup_cons.mp distinct
      rw [takeOrCloneAll, takeOrClone, joinBlocks]
      split
      · rename_i data present
        simp only [Result.ok_bind]
        have unchanged (emptied : Prop) [Decidable emptied] :
            joinBlocks (if emptied then shared.blocks.set i none else shared.blocks) rest =
              joinBlocks shared.blocks rest := by
          apply joinBlocks_congr
          intro j member
          split
          · rw [List.getElem?_set_ne]
            rintro rfl
            exact fresh member
          · rfl
        have later := @recurse
          { blocks := if shared.refCounts[i]?.getD 1 ≤ 1 then shared.blocks.set i none
              else shared.blocks
            refCounts := shared.refCounts.set i (shared.refCounts[i]?.getD 1 - 1) } restDistinct
        dsimp only at later
        rw [← unchanged (shared.refCounts[i]?.getD 1 ≤ 1), ← later]
        cases takeOrCloneAll rest _ with
        | error error => rfl
        | ok taken => rfl
      · rfl

/-- **Sharing the blocks reassembles what leaving them in place does**, to the error. -/
theorem reassembleFileShared_eq_fromBlocks (entry : FileEntry) (shared : SharedBlocks) :
    (reassembleFileShared entry shared).map Prod.fst =
      reassembleFileFromBlocks entry shared.blocks := by
  rw [reassembleFileShared, reassembleFileFromBlocks]
  cases fileBlockRange entry shared.blocks.length with
  | error error => rfl
  | ok range =>
      rcases range with _ | ⟨start, count⟩
      · rfl
      · rw [Result.ok_bind, Result.ok_bind]
        dsimp only
        rw [← takeOrCloneAll_eq_joinBlocks List.nodup_range']
        cases takeOrCloneAll (List.range' start count) shared with
        | error error => rfl
        | ok taken => rfl

/-- **Taking the blocks out reassembles what leaving them in place does**, to the error. -/
theorem reassembleFileConsuming_eq_fromBlocks (entry : FileEntry) (blocks : List (Option Bytes)) :
    reassembleFileConsuming entry blocks = reassembleFileFromBlocks entry blocks := by
  rw [reassembleFileConsuming, ← reassembleFileShared_eq_fromBlocks entry
    { blocks := blocks, refCounts := List.replicate blocks.length 1 }]
  cases reassembleFileShared entry _ with
  | error error => rfl
  | ok taken => rfl

/-- What was joined was there. -/
theorem present_of_joinBlocks {blocks : List (Option Bytes)} {indices : List Nat} {data : Bytes}
    (joined : joinBlocks blocks indices = .ok data) {i : Nat} (member : i ∈ indices) :
    ∃ block, blocks[i]? = some (some block) := by
  induction indices generalizing data with
  | nil => cases member
  | cons first rest recurse =>
      rw [joinBlocks] at joined
      split at joined
      · rename_i block present
        obtain ⟨others, joinedRest, -⟩ := Result.bind_eq_ok.mp joined
        rcases List.mem_cons.mp member with rfl | later
        · exact ⟨block, present⟩
        · exact recurse joinedRest later
      · cases joined

/-- A file whose own blocks are decoded alone, from the first position on. -/
theorem reassembleFileConsuming_eq_ok {entry : FileEntry} {found : List Bytes} {missing : Nat}
    {data : Bytes} (fits : found.length + missing ≤ entry.chunkCount.toNat) :
    reassembleFileConsuming { entry with chunkStartIdx := 0 }
        (found.map some ++ List.replicate missing none) = .ok data ↔
      found.length = entry.chunkCount.toNat ∧ data = truncateToFileSize entry found.flatten := by
  rw [reassembleFileConsuming_eq_fromBlocks]
  rcases Nat.eq_zero_or_pos missing with rfl | some_missing
  · rw [List.replicate_zero, List.append_nil, reassembleFileFromBlocks_eq_ok, fileContent,
      chunkRange, Option.map_eq_some_iff]
    have start : (0 : UInt32).toNat = 0 := rfl
    dsimp only
    rw [start, Nat.zero_add, List.drop_zero]
    split
    · rename_i empty
      have nothing : found = [] := List.length_eq_zero_iff.mp (by omega)
      subst nothing
      simp only [Option.some.injEq, exists_eq_left', List.length_nil, empty, true_and]
      exact eq_comm
    · split
      · rename_i inside
        have length : found.length = entry.chunkCount.toNat := le_antisymm fits inside
        rw [← length, List.take_length]
        simp only [Option.some.injEq, exists_eq_left', true_and]
        exact eq_comm
      · rename_i outside
        simp only [reduceCtorEq, false_and, exists_false, false_iff, not_and]
        intro length
        exact absurd length.ge outside
  · constructor
    · intro success
      obtain ⟨range, ranged, success⟩ := Result.bind_eq_ok.mp success
      rw [fileBlockRange_eq_ok] at ranged
      rcases ranged with ⟨empty, -⟩ | ⟨-, inside, rfl⟩
      · dsimp only at empty
        omega
      · obtain ⟨combined, joined, -⟩ := Result.bind_eq_ok.mp success
        dsimp only at inside joined
        rw [List.length_append, List.length_map, List.length_replicate] at inside
        obtain ⟨block, present⟩ := present_of_joinBlocks joined
          (List.mem_range'_1.mpr ⟨Nat.zero_le found.length, by omega⟩)
        rw [List.getElem?_append_right (by rw [List.length_map]), List.length_map, Nat.sub_self,
          List.getElem?_replicate, if_pos some_missing] at present
        cases present
    · rintro ⟨length, -⟩
      omega

/-! ## All files -/

/-- Counting the readers of every block, below the point where the counters saturate. -/
theorem blockRefCounts_getElem? {entries : List FileEntry} {blockCount i : Nat}
    (few : entries.length < 2 ^ 32) (inside : i < blockCount) :
    (blockRefCounts entries blockCount)[i]? = some (readers entries i) := by
  have counting (counts : List Nat) (count : Nat) (counted : counts[i]? = some count)
      (fits : count + entries.length < 2 ^ 32) :
      (entries.foldl (fun counts entry =>
        let start := entry.chunkStartIdx.toNat
        let stop := min (start + entry.chunkCount.toNat) blockCount
        counts.mapIdx fun i count =>
          if start ≤ i ∧ i < stop then min (count + 1) (2 ^ 32 - 1) else count) counts)[i]? =
        some (count + readers entries i) := by
    clear few
    induction entries generalizing counts count with
    | nil => exact counted
    | cons entry entries recurse =>
        rw [List.length_cons] at fits
        rw [List.foldl_cons, readers_cons]
        by_cases read : reads entry i = true
        · have within := read
          rw [reads, decide_eq_true_eq] at within
          rw [recurse _ (count + 1) _ (by omega), if_pos read, Nat.add_assoc, Nat.add_comm 1]
          rw [List.getElem?_mapIdx, counted, Option.map_some, if_pos (by omega)]
          congr 1
          omega
        · have outside := read
          rw [reads, decide_eq_true_eq] at outside
          rw [recurse _ count _ (by omega), if_neg read, Nat.add_zero]
          rw [List.getElem?_mapIdx, counted, Option.map_some, if_neg (by omega)]
  rw [blockRefCounts, counting _ 0 _ (by omega), Nat.zero_add]
  rw [List.getElem?_replicate, if_pos inside]

/-- The counted references serve every entry. -/
theorem serves_blockRefCounts {entries : List FileEntry} (few : entries.length < 2 ^ 32)
    (decoded : List Bytes) :
    SharedBlocks.Serves { blocks := decoded.map some
                          refCounts := blockRefCounts entries (decoded.map some).length } decoded
      (readers entries) where
  length_blocks := List.length_map ..
  counts inside := by
    dsimp only
    rw [List.length_map]
    exact blockRefCounts_getElem? few inside
  present inside _ := by
    dsimp only
    rw [List.getElem?_map, List.getD_eq_getElem?_getD, List.getElem?_eq_getElem inside]
    rfl

theorem checkFileHash_eq_ok {hashing : Hashing} {entry : FileEntry} {data : Bytes} {done : Unit} :
    checkFileHash hashing entry data = .ok done ↔ hashing.blake3 data = entry.blake3Hash := by
  rw [checkFileHash, Result.failIf_eq_ok, not_not]

/-- Intact content has the recorded hash. -/
theorem intactContent_eq_some {hashing : Hashing} {decoded : List Bytes} {entry : FileEntry}
    {data : Bytes} :
    intactContent hashing decoded entry = some data ↔
      fileContent entry decoded = some data ∧ hashing.blake3 data = entry.blake3Hash := by
  rw [intactContent, Option.filter_eq_some_iff, decide_eq_true_eq]

/-- An extracted file has a valid path and intact content. -/
theorem extracted_eq_some {hashing : Hashing} {decoded : List Bytes} {entry : FileEntry}
    {file : ExtractedFile} :
    extracted hashing decoded entry = some file ↔
      validateExtractionPath entry.path = .ok () ∧
        ∃ data, intactContent hashing decoded entry = some data ∧
          extractedFile entry data = file := by
  rw [extracted]
  cases validateExtractionPath entry.path with
  | error error =>
      simp only [Except.isOk, Except.toBool, Bool.false_eq_true, ↓reduceIte, reduceCtorEq,
        false_and]
  | ok done =>
      simp only [Except.isOk, Except.toBool, ↓reduceIte, true_and, Option.map_eq_some_iff]

/-- A traversal succeeds when each of its steps does. -/
theorem mapM_isSome {α β : Type} {f : α → Option β} {values : List α} :
    (∃ results, values.mapM f = some results) ↔
      ∀ value ∈ values, ∃ result, f value = some result := by
  induction values with
  | nil =>
      constructor
      · intro _ value member
        cases member
      · intro _
        exact ⟨[], rfl⟩
  | cons value values recurse =>
      rw [List.forall_mem_cons, ← recurse]
      simp only [List.mapM_cons, Option.bind_eq_bind, Option.bind_eq_some_iff, Option.pure_def,
        Option.some.injEq]
      constructor
      · rintro ⟨_, result, here, rest, later, -⟩
        exact ⟨⟨result, here⟩, rest, later⟩
      · rintro ⟨⟨result, here⟩, rest, later⟩
        exact ⟨_, result, here, rest, later, rfl⟩

/-- A traversal succeeds when it takes every value to its result. -/
theorem mapM_eq_some {α β : Type} {f : α → Option β} {values : List α} {results : List β} :
    values.mapM f = some results ↔
      List.Forall₂ (fun value result => f value = some result) values results := by
  induction values generalizing results with
  | nil =>
      rw [List.mapM_nil, List.forall₂_nil_left_iff]
      constructor
      · rintro ⟨⟩
        rfl
      · rintro rfl
        rfl
  | cons value values recurse =>
      simp only [List.mapM_cons, Option.bind_eq_bind, Option.bind_eq_some_iff, Option.pure_def,
        Option.some.injEq, recurse, List.forall₂_cons_left_iff]
      constructor
      · rintro ⟨result, here, rest, later, rfl⟩
        exact ⟨result, rest, here, later, rfl⟩
      · rintro ⟨result, rest, here, later, rfl⟩
        exact ⟨result, here, rest, later, rfl⟩

/-- **Writing the files succeeds when every one is intact and has an acceptable path.** -/
theorem writeFiles_eq_ok {hashing : Hashing} {entries : List FileEntry} {decoded : List Bytes}
    {shared : SharedBlocks} {files : List ExtractedFile}
    (serves : shared.Serves decoded (readers entries)) :
    writeFiles hashing entries shared = .ok files ↔
      entries.mapM (extracted hashing decoded) = some files := by
  induction entries generalizing shared files with
  | nil =>
      rw [writeFiles, List.mapM_nil]
      constructor
      · rintro ⟨⟩
        rfl
      · rintro ⟨⟩
        rfl
  | cons entry entries recurse =>
      simp only [writeFiles, List.mapM_cons, Option.bind_eq_bind, Option.bind_eq_some_iff,
        Option.pure_def, Option.some.injEq]
      constructor
      · intro success
        obtain ⟨⟨data, next⟩, reassembled, success⟩ := Result.bind_eq_ok.mp success
        obtain ⟨_, hash, success⟩ := Result.bind_eq_ok.mp success
        obtain ⟨file, written, success⟩ := Result.bind_eq_ok.mp success
        obtain ⟨rest, writtenRest, same⟩ := Result.bind_eq_ok.mp success
        obtain ⟨_, valid, sameFile⟩ := Result.bind_eq_ok.mp written
        obtain ⟨content, nextServes⟩ := reassembleFileShared_eq_ok serves reassembled
        cases same
        cases sameFile
        refine ⟨_, extracted_eq_some.mpr ⟨valid, data, ?_, rfl⟩, rest, ?_, rfl⟩
        · exact intactContent_eq_some.mpr ⟨content, checkFileHash_eq_ok.mp hash⟩
        · exact (recurse nextServes).mp writtenRest
      · rintro ⟨file, accepted, rest, acceptedRest, rfl⟩
        obtain ⟨valid, data, intact, rfl⟩ := extracted_eq_some.mp accepted
        obtain ⟨content, hash⟩ := intactContent_eq_some.mp intact
        obtain ⟨next, reassembled⟩ := reassembleFileShared_isOk serves content
        obtain ⟨-, nextServes⟩ := reassembleFileShared_eq_ok serves reassembled
        have checked : checkFileHash hashing entry data = .ok () := checkFileHash_eq_ok.mpr hash
        rw [reassembled, Result.ok_bind, checked, Result.ok_bind, writeValidatedFile, valid,
          Result.ok_bind, (recurse nextServes).mpr acceptedRest]
        rfl

end AetherArch
