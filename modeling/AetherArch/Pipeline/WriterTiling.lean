import AetherArch.Pipeline.ShortFiles

/-! # Archives without gaps or overlaps

The parts of a written archive follow each other, the index spans its blocks, the group entries
partition them, and every file has blocks of its own group that add up to its size.
-/

namespace AetherArch

/-! ## Positions of blocks -/

/-- A stored block is its header, its payload and its trailer. -/
theorem StoredBlock.length_bytes (hashing : Hashing) (block : StoredBlock) :
    (block.bytes hashing).length =
      BLOCK_HEADER_SIZE + block.payload.length + BLOCK_TRAILER_SIZE := by
  simp only [bytes, List.length_append, BlockHeader.length_writeTo, BlockTrailer.length_writeTo,
    Nat.add_assoc]

/-- The index places each block at the end of the one before. -/
theorem getElem?_indexFrom (hashing : Hashing) (offset : Nat) (blocks : List StoredBlock)
    (i : Nat) :
    (indexFrom hashing offset blocks)[i]? = blocks[i]?.map fun block =>
      block.indexEntry (UInt64.ofNat
        (offset + ((blocks.take i).flatMap (StoredBlock.bytes hashing)).length)) := by
  induction blocks generalizing offset i with
  | nil => rfl
  | cons block blocks recurse =>
      cases i with
      | zero => rfl
      | succ i =>
          rw [indexFrom, List.getElem?_cons_succ, recurse, List.getElem?_cons_succ,
            List.take_succ_cons, List.flatMap_cons, List.length_append, Nat.add_assoc]

/-- There is one index entry for each block. -/
theorem length_indexFrom (hashing : Hashing) (offset : Nat) (blocks : List StoredBlock) :
    (indexFrom hashing offset blocks).length = blocks.length := by
  have ids := congrArg List.length (map_blockId_indexFrom hashing offset blocks)
  rwa [List.length_map, List.length_map] at ids

/-- The position where a part of the blocks ends. -/
def blockEnd (hashing : Hashing) (offset : Nat) (blocks : List StoredBlock) (count : Nat) : Nat :=
  offset + ((blocks.take count).flatMap (StoredBlock.bytes hashing)).length

/-- A block ends its own length after it starts. -/
theorem blockEnd_succ {hashing : Hashing} {offset : Nat} {blocks : List StoredBlock} {i : Nat}
    (inside : i < blocks.length) :
    blockEnd hashing offset blocks (i + 1) =
      blockEnd hashing offset blocks i + (blocks[i].bytes hashing).length := by
  rw [blockEnd, List.take_succ_eq_append_getElem inside, List.flatMap_append, List.length_append,
    List.flatMap_singleton, ← Nat.add_assoc]
  rfl

/-- No block ends behind the last one. -/
theorem blockEnd_le (hashing : Hashing) (offset : Nat) (blocks : List StoredBlock) (count : Nat) :
    blockEnd hashing offset blocks count ≤
      offset + (blocks.flatMap (StoredBlock.bytes hashing)).length := by
  refine Nat.add_le_add_left ?_ offset
  conv_rhs => rw [← List.take_append_drop count blocks, List.flatMap_append, List.length_append]
  exact Nat.le_add_right ..

/-- A block stands where the ones before it end. -/
theorem take_drop_blocks {hashing : Hashing} {blocks : List StoredBlock} {before after : Bytes}
    {i : Nat} (inside : i < blocks.length) :
    ((before ++ (blocks.flatMap (StoredBlock.bytes hashing) ++ after)).drop
        (blockEnd hashing before.length blocks i)).take (blocks[i].bytes hashing).length =
      blocks[i].bytes hashing := by
  have split : blocks = blocks.take i ++ blocks[i] :: blocks.drop (i + 1) := by
    rw [← List.drop_eq_getElem_cons inside, List.take_append_drop]
  have parts : blocks.flatMap (StoredBlock.bytes hashing) =
      (blocks.take i).flatMap (StoredBlock.bytes hashing) ++ (blocks[i].bytes hashing ++
        (blocks.drop (i + 1)).flatMap (StoredBlock.bytes hashing)) := by
    conv_lhs => rw [split, List.flatMap_append, List.flatMap_cons]
  rw [blockEnd, parts, List.append_assoc, List.append_assoc, ← List.append_assoc before,
    ← List.length_append, List.drop_left, List.take_left]

/-! ## The tiling -/

/-- An index entry that spans a block and ends where the next one or the index begins. -/
structure Spans (hashing : Hashing) (layout : Layout) (block : StoredBlock) (i : Nat)
    (entry : BlockIndexEntry) : Prop where
  blockId : entry.blockId.toNat = i
  sameId : block.header.blockId = entry.blockId
  size : entry.compressedSize.toNat =
    BLOCK_HEADER_SIZE + block.payload.length + BLOCK_TRAILER_SIZE
  bytes : ((layout.archive hashing).drop entry.archiveOffset.toNat).take
    entry.compressedSize.toNat = block.bytes hashing
  ends : entry.archiveOffset.toNat + entry.compressedSize.toNat =
    layout.blockIndex[i + 1]?.elim layout.header.blockIndexOffset.toNat
      fun next => next.archiveOffset.toNat

/-- A file whose blocks are blocks of its own group and add up to its size. -/
structure InsideGroup (layout : Layout) (blocks : List StoredBlock) (entry : FileEntry)
    (group : SolidGroupEntry) : Prop where
  groupId : group.groupId = entry.solidGroupId
  unique : ∀ other ∈ layout.solidGroups, other.groupId = entry.solidGroupId → other = group
  starts : group.firstBlockIdx.toNat ≤ entry.chunkStartIdx.toNat
  ends : entry.chunkStartIdx.toNat + entry.chunkCount.toNat ≤
    group.firstBlockIdx.toNat + group.blockCount.toNat
  sizes : (((blocks.drop entry.chunkStartIdx.toNat).take entry.chunkCount.toNat).map
    fun block => block.header.uncompressedSize.toNat).sum = entry.originalSize.toNat

/-- An archive whose parts tile it and whose tables describe its blocks. -/
structure WriterTiling (hashing : Hashing) (layout : Layout) (blocks : List StoredBlock) :
    Prop where
  encrypted : hasFlag layout.header.flags FLAG_ENCRYPTED = layout.encryptionHeader.isSome
  dictionary : hasFlag layout.header.flags FLAG_HAS_DICTIONARY = layout.dictionaryHash.isSome
  tables : ∃ fileTable, writeFileTable (hasFlag layout.header.flags FLAG_PATH_PREFIXES)
      layout.fileEntries "" = .ok fileTable ∧
    layout.tables = fileTable ++ layout.solidGroups.flatMap SolidGroupEntry.writeTo
  body : layout.body = blocks.flatMap (StoredBlock.bytes hashing)
  fileCount : layout.header.fileCount.toNat = layout.fileEntries.length
  groupCount : layout.header.solidGroupCount.toNat = layout.solidGroups.length
  blockCount : layout.header.blockCount.toNat = blocks.length
  indexLength : layout.blockIndex.length = blocks.length
  fileTableOffset :
    layout.header.fileTableOffset.toNat = (layout.toFrontMatter.bytes hashing).length
  firstBlock : layout.blockIndex[0]?.elim layout.header.blockIndexOffset.toNat
      (fun first => first.archiveOffset.toNat) =
    (layout.toFrontMatter.bytes hashing).length + layout.tables.length
  indexed : ∀ i (inside : i < blocks.length), ∃ entry, layout.blockIndex[i]? = some entry ∧
    Spans hashing layout blocks[i] i entry
  groups : Compressor.Consecutive 0 layout.solidGroups blocks.length
  groupBlocks : ∀ group ∈ layout.solidGroups, ∀ i (inside : i < blocks.length),
    group.firstBlockIdx.toNat ≤ i → i < group.firstBlockIdx.toNat + group.blockCount.toNat →
      blocks[i].header.solidGroupId = group.groupId
  files : ∀ entry ∈ layout.fileEntries, ∃ group ∈ layout.solidGroups,
    InsideGroup layout blocks entry group

namespace Compressor

variable {σ : Type} {ext : WriterExternals} {compressor : Compressor σ}

/-- What the flags of the compressor say. -/
theorem hasFlag_flags (usePathPrefixes : Bool) :
    hasFlag (compressor.flags usePathPrefixes) FLAG_PATH_PREFIXES = usePathPrefixes ∧
      hasFlag (compressor.flags usePathPrefixes) FLAG_HAS_DICTIONARY =
        compressor.dictionary.isSome ∧
      hasFlag (compressor.flags usePathPrefixes) FLAG_ENCRYPTED =
        compressor.encryptionConfig.isSome := by
  rw [flags]
  generalize compressor.dictionary.isSome = hasDictionary
  generalize compressor.encryptionConfig.isSome = isEncrypted
  revert usePathPrefixes hasDictionary isEncrypted
  decide

/-- A key is used when one is configured. -/
theorem isSome_encryptionState {encryption : EncryptionState}
    (keyed : compressor.encryptionState ext = .ok encryption) :
    encryption.isSome = compressor.encryptionConfig.isSome := by
  rw [encryptionState] at keyed
  split at keyed
  · rename_i plain
    cases keyed
    rw [plain]
    rfl
  · rename_i config configured
    simp only [Result.bind_eq_ok, Result.pure_eq_ok] at keyed
    obtain ⟨-, -, key, -, rfl⟩ := keyed
    rw [configured]
    rfl

variable [ProbabilityPredictor σ] {files : List (ScannedFile ext.arith.double)}
  {encryption : EncryptionState} {baseline : Option Bytes} {usePathPrefixes : Bool}
  {layout : Layout} {written : List WrittenBlock}

/-- Where the blocks start. -/
def bodyOffset (hashing : Hashing) (layout : Layout) : Nat :=
  (layout.toFrontMatter.bytes hashing).length + layout.tables.length

section

variable
  (wrote : Wrote ext compressor files encryption baseline usePathPrefixes layout written)
  (addressable : (layout.archive ext.toHashing).length < 2 ^ 63)

include wrote

/-- The written index places each block. -/
theorem Wrote.getElem?_blockIndex (i : Nat) : layout.blockIndex[i]? =
    (storedBlocks written)[i]?.map fun block => wholeBlock (block.indexEntry (UInt64.ofNat
      (blockEnd ext.toHashing (bodyOffset ext.toHashing layout) (storedBlocks written) i))) := by
  rw [wrote.blockIndex, List.getElem?_map, getElem?_indexFrom, Option.map_map]
  rfl

/-- The last block ends where the index begins. -/
theorem Wrote.blockEnd_length : blockEnd ext.toHashing (bodyOffset ext.toHashing layout)
    (storedBlocks written) (storedBlocks written).length =
      layout.header.blockIndexOffset.toNat := by
  rw [blockEnd, List.take_length, ← wrote.body, wrote.blockIndexOffset, ← Nat.add_assoc]
  rfl

include addressable

/-- The end of a block fits its offset. -/
theorem Wrote.toNat_blockEnd (i : Nat) :
    (UInt64.ofNat (blockEnd ext.toHashing (bodyOffset ext.toHashing layout)
      (storedBlocks written) i)).toNat =
        blockEnd ext.toHashing (bodyOffset ext.toHashing layout) (storedBlocks written) i := by
  refine UInt64.toNat_ofNat_of_lt' (lt_of_le_of_lt (blockEnd_le ..) ?_)
  rw [← wrote.body, bodyOffset]
  refine lt_of_le_of_lt ?_ (addressable.trans (by decide))
  simp only [Layout.archive, Layout.afterTables, List.length_append, Nat.add_assoc]
  exact Nat.add_le_add_left (Nat.add_le_add_left (Nat.le_add_right ..) _) _

/-- A block starts where the one before it ends, and so does the index. -/
theorem Wrote.archiveOffset {i : Nat} (inside : i ≤ (storedBlocks written).length) :
    (layout.blockIndex[i]?.elim layout.header.blockIndexOffset.toNat fun next =>
      next.archiveOffset.toNat) =
        blockEnd ext.toHashing (bodyOffset ext.toHashing layout) (storedBlocks written) i := by
  rw [wrote.getElem?_blockIndex]
  rcases Nat.lt_or_eq_of_le inside with before | rfl
  · rw [List.getElem?_eq_getElem before, Option.map_some, Option.elim_some]
    exact wrote.toNat_blockEnd addressable i
  · rw [List.getElem?_eq_none le_rfl, Option.map_none, Option.elim_none]
    exact wrote.blockEnd_length.symm

/-- **Every index entry spans its block.** -/
theorem Wrote.spans {i : Nat} (inside : i < (storedBlocks written).length) :
    ∃ entry, layout.blockIndex[i]? = some entry ∧
      Spans ext.toHashing layout (storedBlocks written)[i] i entry := by
  have counted : i < written.length := length_storedBlocks written ▸ inside
  have fits := wrote.fits i counted
  have stored := getElem_storedBlocks counted inside
  have start := wrote.toNat_blockEnd addressable i
  have number : (UInt32.ofNat i).toNat = i := by
    refine UInt32.toNat_ofNat_of_lt' (counted.trans ?_)
    rw [← wrote.blockCount]
    exact layout.header.blockCount.toNat_lt
  have size : (wholeBlock ((storedBlocks written)[i].indexEntry (UInt64.ofNat
      (blockEnd ext.toHashing (bodyOffset ext.toHashing layout) (storedBlocks written)
        i)))).compressedSize.toNat =
      BLOCK_HEADER_SIZE + (storedBlocks written)[i].payload.length + BLOCK_TRAILER_SIZE := by
    rw [stored]
    dsimp only [wholeBlock, StoredBlock.indexEntry]
    rw [fits.compressedSize]
    exact UInt32.toNat_ofNat_of_lt' fits.total
  refine ⟨_, ?_, ?_, rfl, size, ?_, ?_⟩
  · rw [wrote.getElem?_blockIndex, List.getElem?_eq_getElem inside]
    rfl
  · rw [stored]
    exact number
  · rw [size, ← StoredBlock.length_bytes ext.toHashing]
    dsimp only [wholeBlock, StoredBlock.indexEntry]
    rw [start, Layout.archive, Layout.afterTables, wrote.body, ← List.append_assoc, bodyOffset,
      ← List.length_append]
    exact take_drop_blocks inside
  · rw [size, wrote.archiveOffset addressable inside, blockEnd_succ inside,
      StoredBlock.length_bytes]
    exact congrArg (· + _) start

end

/-- The headers record the sizes of the written contents. -/
theorem Wrote.toNat_uncompressedSize
    (wrote : Wrote ext compressor files encryption baseline usePathPrefixes layout written) :
    (storedBlocks written).map (fun block => block.header.uncompressedSize.toNat) =
      written.map fun block => block.compressed.originalSize := by
  apply List.ext_getElem
  · rw [List.length_map, List.length_map, length_storedBlocks]
  · intro i _ inside
    rw [List.length_map] at inside
    rw [List.getElem_map, List.getElem_map, getElem_storedBlocks inside]
    exact (wrote.fits i inside).uncompressedSize

/-- Group numbers are different. -/
theorem Wrote.groupId_injective
    (wrote : Wrote ext compressor files encryption baseline usePathPrefixes layout written)
    {first second : SolidGroupEntry} (firstAmong : first ∈ layout.solidGroups)
    (secondAmong : second ∈ layout.solidGroups) (same : first.groupId = second.groupId) :
    first = second := by
  have distinct : (layout.solidGroups.map SolidGroupEntry.groupId).Nodup := by
    rw [wrote.groupIds]
    refine List.nodup_range.map_on fun i inside j insideJ equal => ?_
    have small := wrote.groupCount ▸ layout.header.solidGroupCount.toNat_lt
    have values := congrArg UInt32.toNat equal
    rwa [UInt32.toNat_ofNat_of_lt' ((List.mem_range.mp inside).trans small),
      UInt32.toNat_ofNat_of_lt' ((List.mem_range.mp insideJ).trans small)] at values
  exact List.inj_on_of_nodup_map distinct firstAmong secondAmong same

/-- **Every file has blocks of its own group, which add up to its size.** -/
theorem Wrote.insideGroup
    (wrote : Wrote ext compressor files encryption baseline usePathPrefixes layout written)
    (partitions : Chunker.FastCdc.Partitions ext.fastCdc)
    (sizes : ∀ file ∈ files, file.entry.originalSize.toNat = file.data.length)
    {entry : FileEntry} (among : entry ∈ layout.fileEntries) :
    ∃ group ∈ layout.solidGroups, InsideGroup layout (storedBlocks written) entry group := by
  obtain ⟨i, inside, rfl⟩ := List.getElem_of_mem among
  obtain ⟨found, lookedUp, describes, group, groupAmong, numbered, chunks,
    ⟨type, source, key, compresses⟩, range⟩ := wrote.ranges ⟨i, wrote.entryCount ▸ inside⟩
  obtain rfl := Option.some.inj ((List.getElem?_eq_getElem inside).symm.trans lookedUp)
  refine ⟨group, groupAmong, numbered, ?_, range.starts, range.ends, ?_⟩
  · exact fun other otherAmong same =>
      wrote.groupId_injective otherAmong groupAmong (same.trans numbered.symm)
  · have total : (chunks.map CompressedChunk.originalSize).sum =
        files[source].data.length := compresses.sum_originalSize partitions
    have sourceSize := sizes files[source] (List.getElem_mem _)
    have sameSize : files[source].entry.originalSize = layout.fileEntries[i].originalSize := by
      rw [describes]
      exact congrArg Prod.snd key
    rw [List.map_take, List.map_drop, wrote.toNat_uncompressedSize, ← List.map_drop,
      ← List.map_take, ← sameSize, sourceSize, ← total, ← range.chunks, List.map_map]
    rfl

/-- **Layout of what the writer writes.** The archive is its parts one after the other, its index
spans the blocks, its group entries partition them, and every file lies within its group and has
the size of its input. -/
theorem compressToArchive_tiling (partitions : Chunker.FastCdc.Partitions ext.fastCdc)
    {baseDir : UnixPath.Path} {filePaths : List InputFile} {stats : CompressionStats}
    {output : Output}
    (success : compressor.compressToArchive ext baseDir filePaths = .ok (stats, output)) :
    ∃ layout blocks, output.bytes = layout.archive ext.toHashing ∧
      layout.fileEntries.length = filePaths.length ∧
      List.Forall₂ (fun input entry => ∃ data, input.content = .ok data ∧
        entry.originalSize.toNat = data.length) filePaths layout.fileEntries ∧
      WriterTiling ext.toHashing layout blocks := by
  obtain ⟨files, scans, writes⟩ := Result.bind_eq_ok.mp success
  obtain ⟨scanned, total⟩ := scanFiles_spec scans
  obtain ⟨encryption, baseline, usePathPrefixes, layout, written, wrote, bytes⟩ :=
    compressScanned_spec writes
  have addressable : (layout.archive ext.toHashing).length < 2 ^ 63 := bytes ▸ output.addressable
  have sizes : ∀ file ∈ files, file.entry.originalSize.toNat = file.data.length := by
    intro file member
    obtain ⟨input, -, scannedFrom⟩ := scanned.exists_left member
    refine scannedFrom.originalSize ?_
    have one := List.single_le_sum (l := files.map fun file => file.data.length)
      (fun _ _ => Nat.zero_le _) _ (List.mem_map_of_mem member)
    exact one.trans ((Nat.le_add_left ..).trans (total (Nat.zero_le _)))
  obtain ⟨prefixes, hasDictionary, isEncrypted⟩ :=
    @hasFlag_flags σ compressor usePathPrefixes
  have flags : layout.header.flags = compressor.flags usePathPrefixes := by
    rw [wrote.header]
    rfl
  have described : List.Forall₂ (fun input entry => ∃ data, input.content = .ok data ∧
      entry.originalSize.toNat = data.length) filePaths layout.fileEntries := by
    rw [List.forall₂_iff_get] at scanned ⊢
    refine ⟨scanned.1.trans wrote.entryCount.symm, fun i inside entryInside => ?_⟩
    have counted : i < files.length := scanned.1 ▸ inside
    obtain ⟨data, relPath, content, -, read⟩ := scanned.2 i inside counted
    have size := sizes _ (List.getElem_mem counted)
    refine ⟨data, content, ?_⟩
    rw [(List.forall₂_iff_get.mp wrote.describes).2 i counted entryInside]
    exact size.trans (congrArg (fun file => file.data.length) read)
  refine ⟨layout, storedBlocks written, bytes, wrote.entryCount.trans scanned.length_eq.symm,
    described,
    { encrypted := ?_, dictionary := ?_, tables := ?_, body := wrote.body, fileCount := ?_
      groupCount := wrote.groupCount, blockCount := ?_, indexLength := ?_
      fileTableOffset := wrote.fileTableOffset, firstBlock := ?_
      indexed := fun i inside => wrote.spans addressable inside, groups := ?_
      groupBlocks := ?_, files := fun entry among => wrote.insideGroup partitions sizes among }⟩
  · rw [flags, isEncrypted, wrote.front, ← isSome_encryptionState wrote.keyed]
    exact (Option.isSome_map ..).symm
  · rw [flags, hasDictionary, wrote.front]
    exact (Option.isSome_map ..).symm
  · rw [flags, prefixes]
    exact wrote.fileTable
  · rw [wrote.fileCount, wrote.entryCount]
  · rw [wrote.blockCount, length_storedBlocks]
  · rw [wrote.blockIndex, List.length_map, length_indexFrom]
  · rw [wrote.archiveOffset addressable (Nat.zero_le _), blockEnd, List.take_zero]
    rfl
  · rw [length_storedBlocks]
    exact wrote.consecutive
  · intro group among i inside later before
    have counted : i < written.length := length_storedBlocks written ▸ inside
    rw [getElem_storedBlocks counted]
    exact wrote.groupBlocks group among i counted later before

/-- The archive of three texts, two of them equal, is tiled. -/
theorem compressToArchive_tiling_texts :
    ∃ stats output layout blocks,
      (plain Order0Model.new).compressToArchive sealingWriter [] threeTexts = .ok (stats, output) ∧
      output.bytes = layout.archive sealingWriter.toHashing ∧
      layout.fileEntries.map (fun entry => entry.originalSize.toNat) = [3, 2, 3] ∧
      blocks ≠ [] ∧ WriterTiling sealingWriter.toHashing layout blocks := by
  obtain ⟨stats, output, written⟩ := compressToArchive_short (keyless Order0Model.new) rfl
    sealingWriter_untroubled threeTexts_short (by decide)
  obtain ⟨layout, blocks, bytes, -, described, tiling⟩ :=
    compressToArchive_tiling sealingWriter_reliable.partitions written
  have sizes : threeTexts.map (fun input => (input.content.toOption.getD []).length) =
      layout.fileEntries.map fun entry => entry.originalSize.toNat :=
    described.map_eq_map fun input entry sized => by
      obtain ⟨data, content, size⟩ := sized
      rw [content, size]
      rfl
  refine ⟨stats, output, layout, blocks, written, bytes, sizes.symm, ?_, tiling⟩
  rintro rfl
  have sized : 3 ∈ layout.fileEntries.map fun entry => entry.originalSize.toNat :=
    sizes ▸ List.mem_cons_self
  obtain ⟨entry, among, size⟩ := List.mem_map.mp sized
  obtain ⟨group, -, inside⟩ := tiling.files entry among
  have total := inside.sizes
  rw [List.drop_nil, List.take_nil, List.map_nil, List.sum_nil, size] at total
  cases total

end Compressor

end AetherArch
