import AetherArch.Pipeline.Compress
import AetherArch.Pipeline.Layout

/-! # Writing blocks

What holds while the blocks are written, whatever the files and their chunks are: the blocks
stand one after the other, numbered from zero, the index describes each of them, every group has
the blocks written for it, and every file those of its chunks.
-/

namespace AetherArch

namespace Compressor

/-- Writing appends, if it succeeds. -/
theorem writeAll_eq_ok {output next : Output} {bytes : Bytes} :
    writeAll output bytes = .ok next ↔ next.bytes = output.bytes ++ bytes := by
  rw [← Output.append?_eq_some, writeAll]
  cases output.append? bytes with
  | none => exact iff_of_false nofun nofun
  | some written => rw [Except.ok.injEq, Option.some.injEq]

/-- Writing at a position overwrites there, if it succeeds. -/
theorem seekWriteAll_eq_ok {output next : Output} {position : UInt64} {bytes : Bytes} :
    seekWriteAll output position bytes = .ok next ↔
      next.bytes = overwrite output.bytes position.toNat bytes := by
  rw [← Output.overwrite?_eq_some, seekWriteAll]
  cases output.overwrite? position bytes with
  | none => exact iff_of_false nofun nofun
  | some written => rw [Except.ok.injEq, Option.some.injEq]

end Compressor

/-! ## Blocks with their chunks -/

/-- A block with the chunk it was made from. -/
structure WrittenBlock where
  groupId : UInt32
  compressed : CompressedChunk
  payload : Bytes

namespace WrittenBlock

/-- The block as it stands in the archive. -/
def stored (blockId : Nat) (written : WrittenBlock) : StoredBlock where
  header :=
    { blockId := UInt32.ofNat blockId, solidGroupId := written.groupId
      compressionMethod := written.compressed.method
      predictorStateFlag := !written.compressed.predictorSynced
      compressedSize := UInt32.ofNat written.payload.length
      uncompressedSize := UInt32.ofNat written.compressed.originalSize }
  payload := written.payload
  trailer := { contentBlake3 := written.compressed.blake3Hash }

/-- The payload is the encrypted data of the chunk, and no size is too large for its field. -/
structure Fits (ext : WriterExternals) (encryption : EncryptionState) (blockId : Nat)
    (written : WrittenBlock) : Prop where
  payload : Compressor.blockData ext encryption (UInt32.ofNat blockId) written.compressed.data =
    .ok written.payload
  total : BLOCK_HEADER_SIZE + written.payload.length + BLOCK_TRAILER_SIZE < 2 ^ 32
  originalSize : written.compressed.originalSize < 2 ^ 32

/-- The header of a block records the length of its payload. -/
theorem Fits.compressedSize {ext : WriterExternals} {encryption : EncryptionState}
    {blockId : Nat} {written : WrittenBlock} (fits : written.Fits ext encryption blockId) :
    (written.stored blockId).header.compressedSize.toNat = written.payload.length :=
  UInt32.toNat_ofNat_of_lt' (lt_of_le_of_lt
    ((Nat.le_add_left ..).trans (Nat.le_add_right ..)) fits.total)

/-- The header of a block records the length of its data. -/
theorem Fits.uncompressedSize {ext : WriterExternals} {encryption : EncryptionState}
    {blockId : Nat} {written : WrittenBlock} (fits : written.Fits ext encryption blockId) :
    (written.stored blockId).header.uncompressedSize.toNat = written.compressed.originalSize :=
  UInt32.toNat_ofNat_of_lt' fits.originalSize

end WrittenBlock

/-- Blocks numbered from zero. -/
def storedBlocks (written : List WrittenBlock) : List StoredBlock :=
  written.mapIdx WrittenBlock.stored

/-- The last block is stored under the next id. -/
theorem storedBlocks_append (written : List WrittenBlock) (last : WrittenBlock) :
    storedBlocks (written ++ [last]) = storedBlocks written ++ [last.stored written.length] := by
  rw [storedBlocks, List.mapIdx_append, List.mapIdx_cons, List.mapIdx_nil, Nat.zero_add]
  rfl

@[simp] theorem length_storedBlocks (written : List WrittenBlock) :
    (storedBlocks written).length = written.length := List.length_mapIdx ..

theorem getElem_storedBlocks {written : List WrittenBlock} {i : Nat} (inside : i < written.length)
    (stored : i < (storedBlocks written).length) :
    (storedBlocks written)[i] = written[i].stored i := List.getElem_mapIdx ..

/-- Storing a block leaves its payload alone. -/
theorem map_payload_storedBlocks (written : List WrittenBlock) :
    (storedBlocks written).map (fun block => block.payload.length) =
      written.map fun block => block.payload.length := by
  apply List.ext_getElem
  · rw [List.length_map, List.length_map, length_storedBlocks]
  · intro i _ inside
    rw [List.length_map] at inside
    rw [List.getElem_map, List.getElem_map, getElem_storedBlocks inside]
    rfl

/-- An index entry that covers the header and the trailer of its block too. -/
def wholeBlock (entry : BlockIndexEntry) : BlockIndexEntry :=
  { entry with
    compressedSize := UInt32.ofNat (BLOCK_HEADER_SIZE + entry.compressedSize.toNat +
      BLOCK_TRAILER_SIZE) }

/-- The last index entry points behind the blocks ahead of it. -/
theorem indexFrom_append (hashing : Hashing) (offset : Nat) (blocks : List StoredBlock)
    (last : StoredBlock) :
    indexFrom hashing offset (blocks ++ [last]) = indexFrom hashing offset blocks ++
      [last.indexEntry (UInt64.ofNat
        (offset + (blocks.flatMap (StoredBlock.bytes hashing)).length))] := by
  induction blocks generalizing offset with
  | nil => rfl
  | cons block blocks recurse =>
      rw [List.cons_append, indexFrom, recurse, indexFrom, List.flatMap_cons, List.length_append,
        Nat.add_assoc, List.cons_append]

/-! ## One block -/

namespace Compressor

variable {n : Nat} {ext : WriterExternals} {encryption : EncryptionState}

/-- What has been written after the opening of an archive. -/
structure Progress (ext : WriterExternals) (encryption : EncryptionState) (opening : Bytes)
    (writer : BlockWriter n) (written : List WrittenBlock) : Prop where
  output : writer.output.bytes =
    opening ++ (storedBlocks written).flatMap (StoredBlock.bytes ext.toHashing)
  index : writer.allBlockIndices =
    (indexFrom ext.toHashing opening.length (storedBlocks written)).map wholeBlock
  counter : writer.blockIdCounter = UInt32.ofNat written.length
  count : written.length < 2 ^ 32
  fits : ∀ i (inside : i < written.length), written[i].Fits ext encryption i

/-- The counter of block ids is the number of blocks. -/
theorem Progress.toNat_counter {opening : Bytes} {writer : BlockWriter n}
    {written : List WrittenBlock} (progress : Progress ext encryption opening writer written) :
    writer.blockIdCounter.toNat = written.length := by
  rw [progress.counter]
  exact UInt32.toNat_ofNat_of_lt' progress.count

/-- Writing a block changes nothing else. -/
theorem Progress.writeBlock {opening : Bytes} {writer next : BlockWriter n}
    {written : List WrittenBlock} (progress : Progress ext encryption opening writer written)
    {groupId : UInt32} {compressed : CompressedChunk}
    (success : Compressor.writeBlock ext encryption groupId writer compressed = .ok next) :
    ∃ last : WrittenBlock, last.groupId = groupId ∧ last.compressed = compressed ∧
      Progress ext encryption opening next (written ++ [last]) ∧
      next.fileEntries = writer.fileEntries ∧ next.globalChunkIdx = writer.globalChunkIdx := by
  simp only [Compressor.writeBlock, Result.bind_eq_ok, Result.failIf_eq_ok, writeAll_eq_ok,
    Result.pure_eq_ok, not_le, ge_iff_le] at success
  obtain ⟨payload, encrypted, -, payloadFits, -, sizeFits, afterHeader, header, afterPayload, body,
    output, trailer, -, total, -, last, rfl⟩ := success
  rw [progress.counter] at encrypted last header
  have counted : written.length + 1 < 2 ^ 32 := by
    refine lt_of_le_of_ne progress.count fun full => last ?_
    rw [show written.length = 2 ^ 32 - 1 by omega]
  refine ⟨⟨groupId, compressed, payload⟩, rfl, rfl, ?_, rfl, rfl⟩
  constructor
  · dsimp only
    rw [trailer, body, header, progress.output, storedBlocks_append, List.flatMap_append,
      List.flatMap_singleton, List.append_assoc, List.append_assoc, List.append_assoc]
    rfl
  · dsimp only
    rw [storedBlocks_append, indexFrom_append, List.map_append, progress.index, progress.counter,
      List.map_singleton, Output.position, progress.output, List.length_append, wholeBlock]
    dsimp only [WrittenBlock.stored, StoredBlock.indexEntry]
    rw [UInt32.toNat_ofNat_of_lt' payloadFits]
  · dsimp only
    rw [progress.counter, List.length_append, List.length_singleton, UInt32.ofNat_add]
    rfl
  · rw [List.length_append]
    exact counted
  · intro i inside
    rcases Nat.lt_or_eq_of_le (Nat.le_of_lt_succ (List.length_append ▸ inside)) with before | rfl
    · rw [List.getElem_append_left before]
      exact progress.fits i before
    · rw [List.getElem_concat_length rfl]
      exact ⟨encrypted, total, sizeFits⟩

/-- Writing blocks one after the other. -/
theorem Progress.writeBlocks {opening : Bytes} {writer next : BlockWriter n}
    {written : List WrittenBlock} (progress : Progress ext encryption opening writer written)
    {groupId : UInt32} {blocks : List CompressedChunk}
    (success : blocks.foldlM (Compressor.writeBlock ext encryption groupId) writer = .ok next) :
    ∃ more : List WrittenBlock, (∀ block ∈ more, block.groupId = groupId) ∧
      more.map WrittenBlock.compressed = blocks ∧
      Progress ext encryption opening next (written ++ more) ∧
      next.fileEntries = writer.fileEntries ∧ next.globalChunkIdx = writer.globalChunkIdx := by
  induction blocks generalizing writer written with
  | nil =>
      obtain rfl := Except.ok.inj success
      exact ⟨[], fun _ member => absurd member List.not_mem_nil, rfl,
        (List.append_nil written).symm ▸ progress, rfl, rfl⟩
  | cons compressed blocks recurse =>
      rw [List.foldlM_cons, Result.bind_eq_ok] at success
      obtain ⟨between, first, others⟩ := success
      obtain ⟨block, group, made, progressed, entries, chunks⟩ := progress.writeBlock first
      obtain ⟨more, groups, madeMore, finished, entriesMore, chunksMore⟩ :=
        recurse progressed others
      refine ⟨block :: more, ?_, ?_, ?_, entriesMore.trans entries, chunksMore.trans chunks⟩
      · intro other member
        rcases List.mem_cons.mp member with rfl | member
        · exact group
        · exact groups other member
      · rw [List.map_cons, made, madeMore]
      · rw [← List.append_cons] at finished
        exact finished

/-! ## One file -/

/-- The chunks of a file stand in the range its entry names. -/
structure FileRange (written : List WrittenBlock) (first stop : Nat) (entry : FileEntry)
    (chunks : List CompressedChunk) : Prop where
  starts : first ≤ entry.chunkStartIdx.toNat
  ends : entry.chunkStartIdx.toNat + entry.chunkCount.toNat ≤ stop
  chunks : ((written.drop entry.chunkStartIdx.toNat).take entry.chunkCount.toNat).map
    WrittenBlock.compressed = chunks

/-- The blocks of a file stay its blocks when more are written. -/
theorem FileRange.append {written more : List WrittenBlock} {first stop : Nat} {entry : FileEntry}
    {chunks : List CompressedChunk} (range : FileRange written first stop entry chunks)
    (inside : stop ≤ written.length) : FileRange (written ++ more) first stop entry chunks := by
  refine ⟨range.starts, range.ends, ?_⟩
  have start := le_of_add_le_left (range.ends.trans inside)
  have room : entry.chunkCount.toNat ≤ (written.drop entry.chunkStartIdx.toNat).length := by
    rw [List.length_drop]
    exact Nat.le_sub_of_add_le' (range.ends.trans inside)
  rw [List.drop_append_of_le_length start, List.take_append_of_le_length room]
  exact range.chunks

/-- The blocks of a file end no later than later blocks. -/
theorem FileRange.mono {written : List WrittenBlock} {first stop later : Nat} {entry : FileEntry}
    {chunks : List CompressedChunk} (range : FileRange written first stop entry chunks)
    (le : stop ≤ later) : FileRange written first later entry chunks :=
  ⟨range.starts, range.ends.trans le, range.chunks⟩

/-- The chunks written for a file. -/
def ownBlocks (fb : CompressedFileBlocks n) : List CompressedChunk :=
  if fb.dupOfFileIdx.isSome then [] else fb.blocks

/-- The files with chunks of their own. -/
def owners (fileResults : List (CompressedFileBlocks n)) : List (Fin n × List CompressedChunk) :=
  (fileResults.filter fun fb => fb.dupOfFileIdx.isNone).map fun fb => (fb.fileIdx, fb.blocks)

/-- The blocks of the owners are all blocks that are stored. -/
theorem flatMap_owners (fileResults : List (CompressedFileBlocks n)) :
    (owners fileResults).flatMap Prod.snd = fileResults.flatMap ownBlocks := by
  induction fileResults with
  | nil => rfl
  | cons fb fileResults recurse =>
      rw [List.flatMap_cons, ← recurse, owners, ownBlocks, List.filter_cons]
      cases fb.dupOfFileIdx with
      | none => rfl
      | some origIdx => rfl

/-- The owners come in the order of the files. -/
theorem sublist_owners (fileResults : List (CompressedFileBlocks n)) :
    ((owners fileResults).map Prod.fst).Sublist
      (fileResults.map CompressedFileBlocks.fileIdx) := by
  rw [owners, List.map_map]
  exact List.filter_sublist.map CompressedFileBlocks.fileIdx

/-- An owner is a file that is no duplicate. -/
theorem mem_owners {fileResults : List (CompressedFileBlocks n)}
    {owner : Fin n × List CompressedChunk} (among : owner ∈ owners fileResults) :
    ∃ fb ∈ fileResults, fb.dupOfFileIdx = none ∧ owner = (fb.fileIdx, fb.blocks) := by
  obtain ⟨fb, kept, rfl⟩ := List.mem_map.mp among
  obtain ⟨member, unshared⟩ := List.mem_filter.mp kept
  exact ⟨fb, member, Option.isNone_iff_eq_none.mp unshared, rfl⟩

/-- An entry that differs in its blocks at most. -/
def SameFile (before after : FileEntry) : Prop :=
  after = { before with chunkStartIdx := after.chunkStartIdx, chunkCount := after.chunkCount }

/-- A file keeps its path. -/
theorem SameFile.path {before after : FileEntry} (same : SameFile before after) :
    after.path = before.path := by
  rw [SameFile] at same
  rw [same]

theorem SameFile.refl (entry : FileEntry) : SameFile entry entry := rfl

/-- What is kept twice is kept. -/
theorem SameFile.trans {first second third : FileEntry} (before : SameFile first second)
    (after : SameFile second third) : SameFile first third := by
  rw [SameFile] at before after ⊢
  rw [after, before]

section

variable (Matches : Fin n → List CompressedChunk → Prop)

/-- What compression hands over for a file: its own chunks, or an earlier file whose chunks it
shares. -/
structure FileResult (earlier : List (Fin n)) (fb : CompressedFileBlocks n) : Prop where
  shared : ∀ origIdx ∈ fb.dupOfFileIdx, origIdx ∈ earlier ∧
    ∀ chunks, Matches origIdx chunks → Matches fb.fileIdx chunks
  own : fb.dupOfFileIdx = none → Matches fb.fileIdx fb.blocks ∧ fb.chunkCount = fb.blocks.length

/-- What compression hands over for a group, file by file. -/
inductive GroupResult : List (Fin n) → List (CompressedFileBlocks n) → Prop
  | nil {earlier : List (Fin n)} : GroupResult earlier []
  | cons {earlier : List (Fin n)} {fb : CompressedFileBlocks n}
      {fileResults : List (CompressedFileBlocks n)} :
      FileResult Matches earlier fb → GroupResult (fb.fileIdx :: earlier) fileResults →
      GroupResult earlier (fb :: fileResults)

variable {Matches} in

/-- A file that is no duplicate matches its own blocks. -/
theorem GroupResult.own {earlier : List (Fin n)} {fileResults : List (CompressedFileBlocks n)}
    (result : GroupResult Matches earlier fileResults) {fb : CompressedFileBlocks n}
    (among : fb ∈ fileResults) (unshared : fb.dupOfFileIdx = none) :
    Matches fb.fileIdx fb.blocks := by
  induction result with
  | nil => cases among
  | cons here _ recurse =>
      rcases List.mem_cons.mp among with rfl | later
      · exact (here.own unshared).1
      · exact recurse later

/-- What holds within a group whose blocks start at `first`, after some of its files. -/
structure GroupProgress (ext : WriterExternals) (encryption : EncryptionState) (opening : Bytes)
    (first : Nat) (finished : List (Fin n)) (writer : BlockWriter n)
    (written : List WrittenBlock) : Prop extends
    Progress ext encryption opening writer written where
  synced : writer.globalChunkIdx = writer.blockIdCounter
  started : first ≤ written.length
  ranges : ∀ idx ∈ finished, ∃ chunks, Matches idx chunks ∧
    FileRange written first written.length (writer.fileEntries idx) chunks

variable {Matches}

/-- Recording a range changes that one entry. -/
theorem setRange_fileEntries (writer : BlockWriter n) (fileIdx : Fin n)
    (chunkStartIdx chunkCount : UInt32) (idx : Fin n) :
    (writer.setRange fileIdx chunkStartIdx chunkCount).fileEntries idx =
      if idx = fileIdx then { writer.fileEntries fileIdx with chunkStartIdx, chunkCount }
      else writer.fileEntries idx :=
  Function.update_apply ..

/-- Setting a range of blocks changes nothing else of a file. -/
theorem sameFile_setRange (writer : BlockWriter n) (fileIdx : Fin n)
    (chunkStartIdx chunkCount : UInt32) (idx : Fin n) :
    SameFile (writer.fileEntries idx)
      ((writer.setRange fileIdx chunkStartIdx chunkCount).fileEntries idx) := by
  rw [setRange_fileEntries]
  split
  · rename_i this
    subst this
    rfl
  · rfl

/-- Setting a range of blocks writes nothing. -/
theorem Progress.setRange {opening : Bytes} {writer : BlockWriter n} {written : List WrittenBlock}
    (progress : Progress ext encryption opening writer written) (fileIdx : Fin n)
    (chunkStartIdx chunkCount : UInt32) :
    Progress ext encryption opening (writer.setRange fileIdx chunkStartIdx chunkCount) written :=
  ⟨progress.output, progress.index, progress.counter, progress.count, progress.fits⟩

/-- **Writing the blocks of a file** extends what holds of the files before it. -/
theorem GroupProgress.writeFileBlocks {opening : Bytes} {first : Nat} {finished : List (Fin n)}
    {writer next : BlockWriter n} {written : List WrittenBlock}
    (progress : GroupProgress Matches ext encryption opening first finished writer written)
    {fb : CompressedFileBlocks n} (result : FileResult Matches finished fb) {groupId : UInt32}
    (success : Compressor.writeFileBlocks ext encryption groupId writer fb = .ok next) :
    ∃ more : List WrittenBlock, (∀ block ∈ more, block.groupId = groupId) ∧
      more.map WrittenBlock.compressed = ownBlocks fb ∧
      GroupProgress Matches ext encryption opening first (fb.fileIdx :: finished) next
        (written ++ more) ∧
      (∀ idx, SameFile (writer.fileEntries idx) (next.fileEntries idx)) ∧
      ∀ idx, idx ≠ fb.fileIdx → next.fileEntries idx = writer.fileEntries idx := by
  rw [Compressor.writeFileBlocks] at success
  split at success
  · rename_i origIdx shares
    obtain rfl := Except.ok.inj success
    obtain ⟨earlier, shared⟩ := result.shared origIdx shares
    obtain ⟨chunks, matched, range⟩ := progress.ranges origIdx earlier
    refine ⟨[], fun _ member => absurd member List.not_mem_nil, ?_, ?_, ?_, ?_⟩
    · rw [ownBlocks, shares]
      rfl
    · rw [List.append_nil]
      refine ⟨progress.toProgress.setRange .., progress.synced, progress.started, ?_⟩
      intro idx member
      rw [setRange_fileEntries]
      split
      · rename_i this
        subst this
        exact ⟨chunks, shared chunks matched, range.starts, range.ends, range.chunks⟩
      · rename_i other
        exact progress.ranges idx ((List.mem_cons.mp member).resolve_left other)
    · exact sameFile_setRange writer fb.fileIdx _ _
    · intro idx other
      rw [setRange_fileEntries, if_neg other]
  · rename_i own
    simp only [Result.bind_eq_ok, Result.failIf_eq_ok, not_le, ge_iff_le,
      Result.pure_eq_ok] at success
    obtain ⟨-, countFits, after, blocks, rfl⟩ := success
    obtain ⟨matched, count⟩ := result.own own
    obtain ⟨more, groups, made, progressed, entries, chunks⟩ :=
      (progress.toProgress.setRange fb.fileIdx writer.globalChunkIdx
        (UInt32.ofNat fb.chunkCount)).writeBlocks blocks
    have length : more.length = fb.chunkCount := by
      rw [count, ← made, List.length_map]
    have counted : (UInt32.ofNat fb.chunkCount).toNat = more.length := by
      rw [length]
      exact UInt32.toNat_ofNat_of_lt' countFits
    have start : writer.globalChunkIdx.toNat = written.length := by
      rw [progress.synced, progress.toNat_counter]
    refine ⟨more, groups, ?_, ?_, ?_, ?_⟩
    · rw [ownBlocks, own, made]
      rfl
    · refine ⟨⟨progressed.output, progressed.index, progressed.counter, progressed.count,
        progressed.fits⟩, ?_, ?_, ?_⟩
      · dsimp only
        have before : after.globalChunkIdx = writer.globalChunkIdx := chunks
        rw [before, progress.synced, progress.counter, progressed.counter, List.length_append,
          UInt32.ofNat_add, length]
      · rw [List.length_append]
        exact progress.started.trans (Nat.le_add_right ..)
      · intro idx member
        dsimp only
        rw [entries, setRange_fileEntries]
        split
        · rename_i this
          subst this
          refine ⟨fb.blocks, matched, ?_, ?_, ?_⟩
          · exact start ▸ progress.started
          · dsimp only
            rw [start, counted, List.length_append]
          · dsimp only
            rw [start, counted, List.drop_left, List.take_length, made]
        · rename_i other
          obtain ⟨earlierChunks, fits, range⟩ :=
            progress.ranges idx ((List.mem_cons.mp member).resolve_left other)
          refine ⟨earlierChunks, fits, (range.append le_rfl).mono ?_⟩
          rw [List.length_append]
          exact Nat.le_add_right ..
    · exact entries ▸ sameFile_setRange writer fb.fileIdx _ _
    · intro idx other
      dsimp only
      rw [entries, setRange_fileEntries, if_neg other]

/-! ## Groups -/

/-- **Writing the blocks of a group.** -/
theorem GroupProgress.writeGroup {opening : Bytes} {first : Nat} {finished : List (Fin n)}
    {writer next : BlockWriter n} {written : List WrittenBlock}
    (progress : GroupProgress Matches ext encryption opening first finished writer written)
    {fileResults : List (CompressedFileBlocks n)}
    (result : GroupResult Matches finished fileResults) {groupId : UInt32}
    (success : fileResults.foldlM (Compressor.writeFileBlocks ext encryption groupId) writer =
      .ok next) :
    ∃ more : List WrittenBlock, (∀ block ∈ more, block.groupId = groupId) ∧
      more.map WrittenBlock.compressed = fileResults.flatMap ownBlocks ∧
      GroupProgress Matches ext encryption opening first
        ((fileResults.map CompressedFileBlocks.fileIdx).reverse ++ finished) next
        (written ++ more) ∧
      (∀ idx, SameFile (writer.fileEntries idx) (next.fileEntries idx)) ∧
      ∀ idx, idx ∉ fileResults.map CompressedFileBlocks.fileIdx →
        next.fileEntries idx = writer.fileEntries idx := by
  induction result generalizing writer written with
  | nil =>
      obtain rfl := Except.ok.inj success
      exact ⟨[], fun _ member => absurd member List.not_mem_nil, rfl,
        (List.append_nil written).symm ▸ progress, fun idx => .refl _, fun _ _ => rfl⟩
  | @cons finished fb fileResults result results recurse =>
      rw [List.foldlM_cons, Result.bind_eq_ok] at success
      obtain ⟨between, file, others⟩ := success
      obtain ⟨more, groups, made, progressed, same, frame⟩ := progress.writeFileBlocks result file
      obtain ⟨moreOthers, groupsOthers, madeOthers, ended, sameOthers, frameOthers⟩ :=
        recurse progressed others
      refine ⟨more ++ moreOthers, ?_, ?_, ?_, fun idx => (same idx).trans (sameOthers idx), ?_⟩
      · intro block member
        exact (List.mem_append.mp member).elim (groups block) (groupsOthers block)
      · rw [List.map_append, made, madeOthers, List.flatMap_cons]
      · rw [List.map_cons, List.reverse_cons, List.append_assoc, List.singleton_append,
          ← List.append_assoc]
        exact ended
      · intro idx outside
        rw [List.map_cons, List.mem_cons, not_or] at outside
        rw [frameOthers idx outside.2, frame idx outside.1]

variable (Matches)

/-- The blocks of a group and the ranges of its files, as its entry records them. -/
structure GroupWritten (written : List WrittenBlock) (fileEntries : Fin n → FileEntry)
    (group : SolidGroupEntry × List (CompressedFileBlocks n)) (entry : SolidGroupEntry) :
    Prop where
  same : entry =
    { group.1 with firstBlockIdx := entry.firstBlockIdx, blockCount := entry.blockCount }
  ends : entry.firstBlockIdx.toNat + entry.blockCount.toNat ≤ written.length
  groupIds : ∀ i (inside : i < written.length), entry.firstBlockIdx.toNat ≤ i →
    i < entry.firstBlockIdx.toNat + entry.blockCount.toNat → written[i].groupId = entry.groupId
  ranges : ∀ idx ∈ group.2.map CompressedFileBlocks.fileIdx, ∃ chunks, Matches idx chunks ∧
    FileRange written entry.firstBlockIdx.toNat
      (entry.firstBlockIdx.toNat + entry.blockCount.toNat) (fileEntries idx) chunks

/-- Group entries whose blocks follow each other from a position to another. -/
inductive Consecutive : Nat → List SolidGroupEntry → Nat → Prop
  | nil {start : Nat} : Consecutive start [] start
  | cons {start stop : Nat} {entry : SolidGroupEntry} {entries : List SolidGroupEntry} :
      entry.firstBlockIdx.toNat = start →
      Consecutive (start + entry.blockCount.toNat) entries stop →
      Consecutive start (entry :: entries) stop

/-- A group ends no later than the last one. -/
theorem Consecutive.ends {start stop : Nat} {entries : List SolidGroupEntry}
    (consecutive : Consecutive start entries stop) {entry : SolidGroupEntry}
    (among : entry ∈ entries) :
    entry.firstBlockIdx.toNat + entry.blockCount.toNat ≤ stop := by
  have rises : ∀ {start stop : Nat} {entries : List SolidGroupEntry},
      Consecutive start entries stop → start ≤ stop := by
    intro start stop entries consecutive
    induction consecutive with
    | nil => exact le_rfl
    | cons _ _ recurse => exact (Nat.le_add_right ..).trans recurse
  induction consecutive with
  | nil => cases among
  | cons first rest recurse =>
      rcases List.mem_cons.mp among with rfl | later
      · rw [first]
        exact rises rest
      · exact recurse later

variable {Matches}

/-- A group that is written stays written when more follows. -/
theorem GroupWritten.append {written more : List WrittenBlock}
    {fileEntries laterEntries : Fin n → FileEntry}
    {group : SolidGroupEntry × List (CompressedFileBlocks n)} {entry : SolidGroupEntry}
    (done : GroupWritten Matches written fileEntries group entry)
    (frame : ∀ idx ∈ group.2.map CompressedFileBlocks.fileIdx,
      laterEntries idx = fileEntries idx) :
    GroupWritten Matches (written ++ more) laterEntries group entry := by
  refine ⟨done.same, ?_, ?_, ?_⟩
  · rw [List.length_append]
    exact done.ends.trans (Nat.le_add_right ..)
  · intro i inside after before
    have early : i < written.length := before.trans_le done.ends
    rw [List.getElem_append_left early]
    exact done.groupIds i early after before
  · intro idx member
    obtain ⟨chunks, matched, range⟩ := done.ranges idx member
    rw [frame idx member]
    exact ⟨chunks, matched, range.append done.ends⟩

/-- **Writing the blocks of all groups.** -/
theorem writeGroups_spec {opening : Bytes} {writer final : BlockWriter n}
    {written : List WrittenBlock} (progress : Progress ext encryption opening writer written)
    (synced : writer.globalChunkIdx = writer.blockIdCounter)
    {groups : List (SolidGroupEntry × List (CompressedFileBlocks n))}
    {entries : List SolidGroupEntry}
    (results : ∀ group ∈ groups, GroupResult Matches [] group.2)
    (distinct : groups.Pairwise fun first second => List.Disjoint
      (first.2.map CompressedFileBlocks.fileIdx) (second.2.map CompressedFileBlocks.fileIdx))
    (success : writeGroups ext encryption groups writer = .ok (final, entries)) :
    ∃ more : List WrittenBlock,
      more.map WrittenBlock.compressed = groups.flatMap (fun group => group.2.flatMap ownBlocks) ∧
      Progress ext encryption opening final (written ++ more) ∧
      Consecutive written.length entries (written ++ more).length ∧
      List.Forall₂ (GroupWritten Matches (written ++ more) final.fileEntries) groups entries ∧
      (∀ idx, SameFile (writer.fileEntries idx) (final.fileEntries idx)) ∧
      ∀ idx, (∀ group ∈ groups, idx ∉ group.2.map CompressedFileBlocks.fileIdx) →
        final.fileEntries idx = writer.fileEntries idx := by
  induction groups generalizing writer written entries with
  | nil =>
      obtain ⟨rfl, rfl⟩ := Prod.mk.inj (Except.ok.inj success)
      refine ⟨[], rfl, ?_, ?_, .nil, fun idx => .refl _, fun _ _ => rfl⟩
      · rw [List.append_nil]
        exact progress
      · rw [List.append_nil]
        exact .nil
  | cons group groups recurse =>
      simp only [writeGroups, Result.bind_eq_ok, Result.pure_eq_ok] at success
      obtain ⟨between, thisGroup, ⟨after, entriesRest⟩, rest, ended⟩ := success
      obtain ⟨rfl, rfl⟩ := Prod.mk.inj ended
      obtain ⟨apart, distinct⟩ := List.pairwise_cons.mp distinct
      have start : GroupProgress Matches ext encryption opening written.length [] writer written :=
        ⟨progress, synced, le_rfl, fun _ member => absurd member List.not_mem_nil⟩
      obtain ⟨more, groupIds, made, progressed, same, frame⟩ :=
        start.writeGroup (results group List.mem_cons_self) thisGroup
      obtain ⟨moreRest, madeRest, finished, consecutive, others, sameRest, frameRest⟩ :=
        recurse progressed.toProgress progressed.synced
          (fun other member => results other (List.mem_cons_of_mem _ member)) distinct rest
      have firstBlock : writer.blockIdCounter.toNat = written.length := progress.toNat_counter
      have blockCount : (between.blockIdCounter - writer.blockIdCounter).toNat = more.length := by
        rw [UInt32.toNat_sub_of_le, progressed.toNat_counter, firstBlock, List.length_append,
          Nat.add_sub_cancel_left]
        rw [UInt32.le_iff_toNat_le, progressed.toNat_counter, firstBlock, List.length_append]
        exact Nat.le_add_right ..
      have stop : written.length + more.length = (written ++ more).length :=
        (List.length_append).symm
      have thisWritten : GroupWritten Matches (written ++ more) between.fileEntries group
          { group.1 with
            firstBlockIdx := writer.blockIdCounter
            blockCount := between.blockIdCounter - writer.blockIdCounter } := by
        refine ⟨rfl, ?_, ?_, ?_⟩ <;> dsimp only <;> rw [blockCount, firstBlock]
        · exact stop.le
        · intro i inside later before
          rw [List.getElem_append_right later]
          exact groupIds _ (List.getElem_mem _)
        · rw [stop]
          intro idx member
          refine progressed.ranges idx ?_
          rw [List.append_nil, List.mem_reverse]
          exact member
      refine ⟨more ++ moreRest, ?_, ?_, ?_, ?_, fun idx => (same idx).trans (sameRest idx), ?_⟩
      · rw [List.map_append, made, madeRest, List.flatMap_cons]
      · rw [← List.append_assoc]
        exact finished
      · rw [← List.append_assoc]
        refine .cons firstBlock ?_
        dsimp only
        rw [blockCount, stop]
        exact consecutive
      · rw [← List.append_assoc]
        refine .cons (thisWritten.append fun idx member => ?_) others
        refine frameRest idx fun other among shared => ?_
        exact apart other among member shared
      · intro idx outside
        rw [frameRest idx fun other member => outside other (List.mem_cons_of_mem _ member),
          frame idx (outside group List.mem_cons_self)]

end

end Compressor

end AetherArch
