import AetherArch.Pipeline.DecompressStreaming

/-! # What the two readers accept

The seekable reader finds its tables through the footer, the streaming reader by position.
Each accepts an archive exactly when its parts read as stated here.
-/

namespace AetherArch

open Decompressor

/-! ## Counts -/

/-- The counts pass within their limits. -/
theorem ArchiveHeader.checkCounts_eq_ok {fileCount blockCount solidGroupCount : UInt32}
    {done : Unit} : checkCounts fileCount blockCount solidGroupCount = .ok done ↔
      fileCount ≤ MAX_FILE_COUNT ∧ blockCount ≤ MAX_BLOCK_COUNT ∧
        solidGroupCount ≤ MAX_SOLID_GROUP_COUNT := by
  simp only [checkCounts, Result.bind_eq_ok, Result.failIf_eq_ok, exists_and_left, gt_iff_lt,
    UInt32.not_lt, exists_const]

/-- The cross-check passes on equal counts. -/
theorem Decompressor.crossCheck_eq_ok {header : ArchiveHeader} {footer : ArchiveFooter}
    {done : Unit} : crossCheck header footer = .ok done ↔
      header.fileCount = footer.fileCount ∧ header.blockCount = footer.blockCount ∧
        header.fileTableOffset = footer.fileTableOffset ∧
        header.blockIndexOffset = footer.blockIndexOffset := by
  simp only [crossCheck, Result.bind_eq_ok, Result.failIf_eq_ok, exists_and_left, not_not,
    exists_const, ne_eq]

/-- The offsets pass in order and inside the archive. -/
theorem Decompressor.checkOffsets_eq_ok {footer : ArchiveFooter} {archiveSize : Nat} {done : Unit} :
    checkOffsets footer archiveSize = .ok done ↔
      footer.fileTableOffset.toNat < archiveSize ∧ footer.blockIndexOffset.toNat < archiveSize ∧
        footer.blockIndexOffset.toNat + footer.blockCount.toNat * BLOCK_INDEX_ENTRY_SIZE < 2 ^ 64 ∧
        footer.blockIndexOffset.toNat + footer.blockCount.toNat * BLOCK_INDEX_ENTRY_SIZE ≤
          archiveSize := by
  simp only [checkOffsets, Result.bind_eq_ok, Result.failIf_eq_ok, exists_and_left, not_le,
    exists_const, ge_iff_le, gt_iff_lt, not_lt]

/-- Ids are unique when none repeats one before. -/
theorem Decompressor.checkUniqueIds_eq_ok {blockIndex : List BlockIndexEntry} {seen : List UInt32}
    {done : Unit} : checkUniqueIds blockIndex seen = .ok done ↔
      (blockIndex.map BlockIndexEntry.blockId).Nodup ∧
        ∀ entry ∈ blockIndex, entry.blockId ∉ seen := by
  induction blockIndex generalizing seen with
  | nil =>
      rw [checkUniqueIds]
      exact ⟨fun _ => ⟨List.nodup_nil, fun _ member => by cases member⟩, fun _ => rfl⟩
  | cons entry entries recurse =>
      rw [List.forall_mem_cons]
      simp only [checkUniqueIds, Result.bind_eq_ok, Result.failIf_eq_ok, recurse, List.map_cons,
        List.nodup_cons, List.mem_map, not_exists, not_and, List.mem_cons, not_or,
        exists_and_left, exists_const]
      constructor
      · rintro ⟨fresh, distinct, others⟩
        exact ⟨⟨fun other member => (others other member).1, distinct⟩, fresh,
          fun other member => (others other member).2⟩
      · rintro ⟨⟨different, distinct⟩, fresh, others⟩
        exact ⟨fresh, distinct, fun other member => ⟨different other member, others other member⟩⟩

/-! ## Lengths of tables -/

/-- There is one entry for each file. -/
theorem length_of_readFileTable {isPrefixed : Bool} {count : Nat} {previousPath : String}
    {input rest : Bytes} {entries : List FileEntry}
    (success : readFileTable isPrefixed count previousPath input = .ok (entries, rest)) :
    entries.length = count := by
  induction count generalizing previousPath input entries with
  | zero =>
      cases success
      rfl
  | succ count recurse =>
      obtain ⟨entry, between, -, success⟩ := ByteReader.bind_eq_ok.mp success
      obtain ⟨others, after, read, success⟩ := ByteReader.bind_eq_ok.mp success
      cases success
      rw [List.length_cons, recurse read]

/-! ## The seekable reader -/

/-- The parts of an archive the seekable reader accepts. -/
structure SeekableRead (ext : Externals) (archive : Bytes) (metadata : ArchiveMetadata) : Prop where
  footer_fits : ARCHIVE_FOOTER_SIZE ≤ archive.length
  footer : ∃ rest, ArchiveFooter.readFrom ext.toHashing
    (archive.drop (archive.length - ARCHIVE_FOOTER_SIZE)) = .ok (metadata.footer, rest)
  counts : ArchiveHeader.checkCounts metadata.footer.fileCount metadata.footer.blockCount
    metadata.header.solidGroupCount = .ok ()
  front : ∃ afterHeader afterEncryption rest,
    ArchiveHeader.readFrom ext.toHashing archive = .ok (metadata.header, afterHeader) ∧
      readEncryptionHeader metadata.header.flags afterHeader =
        .ok (metadata.encryptionHeader, afterEncryption) ∧
      readDictionaryHash metadata.header.flags afterEncryption =
        .ok (metadata.dictionaryHash, rest)
  crossCheck : crossCheck metadata.header metadata.footer = .ok ()
  checkOffsets : checkOffsets metadata.footer archive.length = .ok ()
  tables : ∃ afterFiles rest,
    readFileTable (hasFlag metadata.header.flags FLAG_PATH_PREFIXES)
        metadata.footer.fileCount.toNat ""
        (archive.drop metadata.footer.fileTableOffset.toNat) =
        .ok (metadata.fileEntries, afterFiles) ∧
      ByteReader.readMany SolidGroupEntry.readFrom metadata.header.solidGroupCount.toNat
        afterFiles = .ok (metadata.solidGroups, rest)
  index : ∃ rest, ByteReader.readMany BlockIndexEntry.readFrom metadata.footer.blockCount.toNat
    (archive.drop metadata.footer.blockIndexOffset.toNat) = .ok (metadata.blockIndex, rest)
  uniqueIds : checkUniqueIds metadata.blockIndex [] = .ok ()

/-- **What the seekable reader accepts.** -/
theorem readMetadata_eq_ok {ext : Externals} {archive : Bytes} {metadata : ArchiveMetadata} :
    readMetadata ext archive = .ok metadata ↔ SeekableRead ext archive metadata := by
  simp only [readMetadata, Result.bind_eq_ok, Result.failIf_eq_ok, Result.pure_eq_ok, not_lt,
    gt_iff_lt, UInt32.not_lt]
  constructor
  · rintro ⟨_, footerFits, ⟨footer, _⟩, footerRead, _, files, _, blocks, ⟨header, afterHeader⟩,
      headerRead, ⟨encryption, afterEncryption⟩, encryptionRead, ⟨dictionary, _⟩, dictionaryRead,
      _, groups, _, crossed, _, offsets, ⟨fileEntries, afterFiles⟩, filesRead, ⟨solidGroups, _⟩,
      groupsRead, ⟨blockIndex, _⟩, indexRead, _, unique, rfl⟩
    exact ⟨footerFits, ⟨_, footerRead⟩,
      ArchiveHeader.checkCounts_eq_ok.mpr ⟨files, blocks, groups⟩,
      ⟨_, _, _, headerRead, encryptionRead, dictionaryRead⟩, crossed, offsets,
      ⟨_, _, filesRead, groupsRead⟩, ⟨_, indexRead⟩, unique⟩
  · rintro ⟨footerFits, ⟨_, footerRead⟩, counts, ⟨_, _, _, headerRead, encryptionRead,
      dictionaryRead⟩, crossed, offsets, ⟨_, _, filesRead, groupsRead⟩, ⟨_, indexRead⟩, unique⟩
    obtain ⟨files, blocks, groups⟩ := ArchiveHeader.checkCounts_eq_ok.mp counts
    exact ⟨(), footerFits, _, footerRead, (), files, (), blocks, _, headerRead, _, encryptionRead,
      _, dictionaryRead, (), groups, (), crossed, (), offsets, _, filesRead, _, groupsRead, _,
      indexRead, (), unique, rfl⟩

variable {ext : Externals} {archive : Bytes}

/-- The footer counts the entries. -/
theorem SeekableRead.length_fileEntries {metadata : ArchiveMetadata}
    (read : SeekableRead ext archive metadata) :
    metadata.fileEntries.length = metadata.footer.fileCount.toNat := by
  obtain ⟨_, _, files, -⟩ := read.tables
  exact length_of_readFileTable files

/-- The limit on the file count keeps every counter of readers exact. -/
theorem SeekableRead.few_files {metadata : ArchiveMetadata}
    (read : SeekableRead ext archive metadata) : metadata.fileEntries.length < 2 ^ 32 := by
  rw [read.length_fileEntries]
  exact UInt32.toNat_lt _

/-! ## The streaming reader -/

/-- The parts of a stream the streaming reader accepts. -/
structure StreamingRead (ext : Externals) (archive : Bytes) (metadata : StreamingMetadata)
    (rest : Bytes) : Prop where
  counts : ArchiveHeader.checkCounts metadata.header.fileCount metadata.header.blockCount
    metadata.header.solidGroupCount = .ok ()
  front : ∃ afterHeader afterEncryption afterDictionary afterFiles,
    ArchiveHeader.readFrom ext.toHashing archive = .ok (metadata.header, afterHeader) ∧
      readEncryptionHeader metadata.header.flags afterHeader =
        .ok (metadata.encryptionHeader, afterEncryption) ∧
      readDictionaryHash metadata.header.flags afterEncryption =
        .ok (metadata.dictionaryHash, afterDictionary) ∧
      readFileTable (hasFlag metadata.header.flags FLAG_PATH_PREFIXES)
        metadata.header.fileCount.toNat "" afterDictionary =
        .ok (metadata.fileEntries, afterFiles) ∧
      ByteReader.readMany SolidGroupEntry.readFrom metadata.header.solidGroupCount.toNat
        afterFiles = .ok (metadata.solidGroups, rest)

/-- **What the streaming reader accepts.** -/
theorem readMetadataStreaming_eq_ok {metadata : StreamingMetadata} {rest : Bytes} :
    readMetadataStreaming ext archive = .ok (metadata, rest) ↔
      StreamingRead ext archive metadata rest := by
  simp only [readMetadataStreaming, ByteReader.bind_eq_ok, ByteReader.lift_eq_ok,
    ByteReader.pure_eq_ok]
  constructor
  · rintro ⟨header, afterHeader, headerRead, _, _, ⟨counts, rfl⟩, encryption, afterEncryption,
      encryptionRead, dictionary, afterDictionary, dictionaryRead, fileEntries, afterFiles,
      filesRead, solidGroups, _, groupsRead, same⟩
    cases same
    exact ⟨counts, _, _, _, _, headerRead, encryptionRead, dictionaryRead, filesRead, groupsRead⟩
  · rintro ⟨counts, _, _, _, _, headerRead, encryptionRead, dictionaryRead, filesRead, groupsRead⟩
    exact ⟨_, _, headerRead, (), _, ⟨counts, rfl⟩, _, _, encryptionRead, _, _, dictionaryRead, _,
      _, filesRead, _, _, groupsRead, rfl⟩

/-- There are fewer files than a word counts. -/
theorem StreamingRead.few_files {metadata : StreamingMetadata} {rest : Bytes}
    (read : StreamingRead ext archive metadata rest) : metadata.fileEntries.length < 2 ^ 32 := by
  obtain ⟨_, _, _, _, -, -, -, files, -⟩ := read.front
  rw [length_of_readFileTable files]
  exact UInt32.toNat_lt _

end AetherArch
