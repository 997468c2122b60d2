import AetherArch.Pipeline.BlockDecoding
import AetherArch.Pipeline.DecodedSize
import AetherArch.Pipeline.Metadata
import AetherArch.RecordRoundTrip

/-! # Archives written part by part

An archive whose parts stand where its header and footer say is read back by both readers.
-/

namespace AetherArch

open ByteReader (Reads)
open Decompressor

/-! ## Front matter -/

/-- The records in front of the file table. -/
structure FrontMatter where
  header : ArchiveHeader
  encryptionHeader : Option EncryptionHeader
  dictionaryHash : Option Digest
  deriving DecidableEq

namespace FrontMatter

def bytes (hashing : Hashing) (front : FrontMatter) : Bytes :=
  front.header.writeTo hashing ++ (front.encryptionHeader.elim [] EncryptionHeader.writeTo ++
    front.dictionaryHash.elim [] Subtype.val)

/-- Front matter the readers take as it is. -/
structure Readable (front : FrontMatter) : Prop where
  counts : ArchiveHeader.checkCounts front.header.fileCount front.header.blockCount
    front.header.solidGroupCount = .ok ()
  encrypted : hasFlag front.header.flags FLAG_ENCRYPTED = front.encryptionHeader.isSome
  hasDictionary : hasFlag front.header.flags FLAG_HAS_DICTIONARY = front.dictionaryHash.isSome
  encryption : ∀ header ∈ front.encryptionHeader, header.version = Crypto.HEADER_VERSION ∧
    validateArgon2Params header.mCost header.tCost header.pCost = .ok ()

variable {front : FrontMatter}

/-- A readable key header is read back. -/
theorem Readable.reads_readEncryptionHeader (readable : front.Readable) :
    Reads (readEncryptionHeader front.header.flags)
      (front.encryptionHeader.elim [] EncryptionHeader.writeTo) front.encryptionHeader := by
  rw [readEncryptionHeader, readable.encrypted]
  cases present : front.encryptionHeader with
  | none => exact ByteReader.reads_pure none
  | some header =>
      obtain ⟨version, costs⟩ := readable.encryption header present
      intro rest
      have read := header.reads version costs rest
      change (EncryptionHeader.readFrom (header.writeTo ++ rest) >>= _) = _
      rw [read]
      rfl

/-- A readable dictionary hash is read back. -/
theorem Readable.reads_readDictionaryHash (readable : front.Readable) :
    Reads (readDictionaryHash front.header.flags) (front.dictionaryHash.elim [] Subtype.val)
      front.dictionaryHash := by
  rw [readDictionaryHash, readable.hasDictionary]
  cases front.dictionaryHash with
  | none => exact ByteReader.reads_pure none
  | some hash =>
      intro rest
      have read := Reader.reads_readExact hash rest
      change (Reader.readExact 32 (hash.1 ++ rest) >>= _) = _
      rw [read]
      rfl

/-- The three records are read one after the other. -/
theorem Readable.readsAll (readable : front.Readable) (hashing : Hashing) (rest : Bytes) :
    ∃ afterHeader afterEncryption,
      ArchiveHeader.readFrom hashing (front.bytes hashing ++ rest) =
          .ok (front.header, afterHeader) ∧
        readEncryptionHeader front.header.flags afterHeader =
          .ok (front.encryptionHeader, afterEncryption) ∧
        readDictionaryHash front.header.flags afterEncryption =
          .ok (front.dictionaryHash, rest) := by
  have header := front.header.reads hashing readable.counts
    (front.encryptionHeader.elim [] EncryptionHeader.writeTo ++
      (front.dictionaryHash.elim [] Subtype.val ++ rest))
  rw [bytes, List.append_assoc, List.append_assoc]
  exact ⟨_, _, header, readable.reads_readEncryptionHeader _, readable.reads_readDictionaryHash _⟩

end FrontMatter

/-! ## Tables -/

@[simp] theorem ArchiveFooter.length_writeTo (hashing : Hashing) (footer : ArchiveFooter) :
    (footer.writeTo hashing).length = ARCHIVE_FOOTER_SIZE := by
  simp only [writeTo, fields, List.length_append, length_writeU64, length_writeU32]
  rfl

@[simp] theorem BlockHeader.length_writeTo (hashing : Hashing) (header : BlockHeader) :
    (header.writeTo hashing).length = BLOCK_HEADER_SIZE := by
  simp only [writeTo, fields, List.length_append, length_writeU32, length_writeU16, length_writeU8]
  rfl

@[simp] theorem BlockTrailer.length_writeTo (hashing : Hashing) (trailer : BlockTrailer) :
    (trailer.writeTo hashing).length = BLOCK_TRAILER_SIZE := by
  simp only [writeTo, List.length_append, length_writeU32, trailer.contentBlake3.2]
  rfl

@[simp] theorem BlockIndexEntry.length_writeTo (entry : BlockIndexEntry) :
    entry.writeTo.length = BLOCK_INDEX_ENTRY_SIZE := by
  simp only [writeTo, List.length_append, length_writeU64, length_writeU32]
  rfl

/-- The length of the index. -/
theorem length_flatMap_writeTo (blockIndex : List BlockIndexEntry) :
    (blockIndex.flatMap BlockIndexEntry.writeTo).length =
      blockIndex.length * BLOCK_INDEX_ENTRY_SIZE := by
  rw [List.length_flatMap, List.map_congr_left fun entry _ => entry.length_writeTo,
    List.map_const', List.sum_replicate, smul_eq_mul]

/-- A file table and a group table as they are written one after the other. -/
structure WrittenTables (flags : UInt16) (fileEntries : List FileEntry)
    (solidGroups : List SolidGroupEntry) (bytes : Bytes) : Prop where
  written : ∃ fileTable, writeFileTable (hasFlag flags FLAG_PATH_PREFIXES) fileEntries "" =
      .ok fileTable ∧ bytes = fileTable ++ solidGroups.flatMap SolidGroupEntry.writeTo
  readable : ∀ entry ∈ fileEntries, entry.Readable

/-- Written tables are read back. -/
theorem WrittenTables.reads {flags : UInt16} {fileEntries : List FileEntry}
    {solidGroups : List SolidGroupEntry} {bytes : Bytes}
    (tables : WrittenTables flags fileEntries solidGroups bytes) (rest : Bytes) :
    ∃ afterFiles,
      readFileTable (hasFlag flags FLAG_PATH_PREFIXES) fileEntries.length "" (bytes ++ rest) =
          .ok (fileEntries, afterFiles) ∧
        ByteReader.readMany SolidGroupEntry.readFrom solidGroups.length afterFiles =
          .ok (solidGroups, rest) := by
  obtain ⟨fileTable, written, rfl⟩ := tables.written
  refine ⟨solidGroups.flatMap SolidGroupEntry.writeTo ++ rest, ?_, ?_⟩
  · rw [List.append_assoc]
    exact reads_readFileTable tables.readable written _
  · exact ByteReader.reads_readMany (fun entry _ => entry.reads) rest

/-! ## The streaming reader -/

/-- **Front matter and tables at the front of a stream are read back.** -/
theorem streamingRead_of_parts {ext : Externals} {front : FrontMatter} (readable : front.Readable)
    {fileEntries : List FileEntry} {solidGroups : List SolidGroupEntry} {tables : Bytes}
    (written : WrittenTables front.header.flags fileEntries solidGroups tables)
    (fileCount : fileEntries.length = front.header.fileCount.toNat)
    (groupCount : solidGroups.length = front.header.solidGroupCount.toNat) (rest : Bytes) :
    StreamingRead ext (front.bytes ext.toHashing ++ (tables ++ rest))
      { header := front.header, fileEntries, solidGroups
        encryptionHeader := front.encryptionHeader, dictionaryHash := front.dictionaryHash }
      rest := by
  obtain ⟨afterHeader, afterEncryption, header, encryption, dictionary⟩ :=
    readable.readsAll ext.toHashing (tables ++ rest)
  obtain ⟨afterFiles, files, groups⟩ := written.reads rest
  rw [fileCount] at files
  rw [groupCount] at groups
  exact ⟨readable.counts, _, _, _, _, header, encryption, dictionary, files, groups⟩

/-! ## The seekable reader -/

/-- **Parts that stand where the footer says are read back.** -/
theorem seekableRead_of_parts {ext : Externals} {front : FrontMatter} {footer : ArchiveFooter}
    {fileEntries : List FileEntry} {solidGroups : List SolidGroupEntry}
    {blockIndex : List BlockIndexEntry} {archive tables rest before afterTables afterIndex : Bytes}
    (readable : front.Readable) (opens : archive = front.bytes ext.toHashing ++ rest)
    (closes : archive = before ++ footer.writeTo ext.toHashing)
    (crossed : crossCheck front.header footer = .ok ())
    (offsets : checkOffsets footer archive.length = .ok ())
    (written : WrittenTables front.header.flags fileEntries solidGroups tables)
    (located : archive.drop footer.fileTableOffset.toNat = tables ++ afterTables)
    (indexed : archive.drop footer.blockIndexOffset.toNat =
      blockIndex.flatMap BlockIndexEntry.writeTo ++ afterIndex)
    (fileCount : fileEntries.length = footer.fileCount.toNat)
    (groupCount : solidGroups.length = front.header.solidGroupCount.toNat)
    (blockCount : blockIndex.length = footer.blockCount.toNat)
    (distinct : (blockIndex.map BlockIndexEntry.blockId).Nodup) :
    SeekableRead ext archive
      { header := front.header, footer, fileEntries, solidGroups, blockIndex
        encryptionHeader := front.encryptionHeader
        dictionaryHash := front.dictionaryHash } where
  footer_fits := by
    rw [closes, List.length_append, footer.length_writeTo]
    exact Nat.le_add_left _ _
  footer := by
    have last : archive.drop (archive.length - ARCHIVE_FOOTER_SIZE) =
        footer.writeTo ext.toHashing ++ [] := by
      rw [closes, List.length_append, footer.length_writeTo, Nat.add_sub_cancel, List.drop_left,
        List.append_nil]
    exact ⟨[], last ▸ footer.reads ext.toHashing []⟩
  counts := by
    obtain ⟨files, blocks, -, -⟩ := crossCheck_eq_ok.mp crossed
    exact files ▸ blocks ▸ readable.counts
  front := by
    obtain ⟨afterHeader, afterEncryption, header, encryption, dictionary⟩ :=
      readable.readsAll ext.toHashing rest
    exact ⟨_, _, _, opens ▸ header, encryption, dictionary⟩
  crossCheck := crossed
  checkOffsets := offsets
  tables := by
    obtain ⟨afterFiles, files, groups⟩ := written.reads afterTables
    rw [fileCount, ← located] at files
    rw [groupCount] at groups
    exact ⟨_, _, files, groups⟩
  index := by
    have read := ByteReader.reads_readMany (fun entry (_ : entry ∈ blockIndex) => entry.reads)
      afterIndex
    rw [blockCount, ← indexed] at read
    exact ⟨_, read⟩
  uniqueIds := checkUniqueIds_eq_ok.mpr ⟨distinct, fun _ _ member => by cases member⟩

/-! ## Tiled archives -/

/-- An archive as a sequence of parts, each where the one before it ends. -/
structure Layout extends FrontMatter where
  fileEntries : List FileEntry
  solidGroups : List SolidGroupEntry
  tables : Bytes
  body : Bytes
  blockIndex : List BlockIndexEntry

namespace Layout

def footer (layout : Layout) : ArchiveFooter where
  blockIndexOffset := layout.header.blockIndexOffset
  fileTableOffset := layout.header.fileTableOffset
  blockCount := layout.header.blockCount
  fileCount := layout.header.fileCount

def indexBytes (layout : Layout) : Bytes := layout.blockIndex.flatMap BlockIndexEntry.writeTo

/-- The blocks and what follows them. -/
def afterTables (hashing : Hashing) (layout : Layout) : Bytes :=
  layout.body ++ (layout.indexBytes ++ layout.footer.writeTo hashing)

def archive (hashing : Hashing) (layout : Layout) : Bytes :=
  layout.toFrontMatter.bytes hashing ++ (layout.tables ++ layout.afterTables hashing)

/-- Every part is well formed and its position and count recorded. -/
structure Tiled (hashing : Hashing) (layout : Layout) : Prop where
  readable : layout.toFrontMatter.Readable
  written : WrittenTables layout.header.flags layout.fileEntries layout.solidGroups layout.tables
  fileCount : layout.fileEntries.length = layout.header.fileCount.toNat
  groupCount : layout.solidGroups.length = layout.header.solidGroupCount.toNat
  blockCount : layout.blockIndex.length = layout.header.blockCount.toNat
  fileTableOffset :
    layout.header.fileTableOffset.toNat = (layout.toFrontMatter.bytes hashing).length
  blockIndexOffset : layout.header.blockIndexOffset.toNat =
    (layout.toFrontMatter.bytes hashing).length + (layout.tables.length + layout.body.length)
  distinct : (layout.blockIndex.map BlockIndexEntry.blockId).Nodup
  fits : (layout.archive hashing).length < 2 ^ 64

def metadata (layout : Layout) : ArchiveMetadata where
  header := layout.header
  footer := layout.footer
  fileEntries := layout.fileEntries
  solidGroups := layout.solidGroups
  blockIndex := layout.blockIndex
  encryptionHeader := layout.encryptionHeader
  dictionaryHash := layout.dictionaryHash

def streamingMetadata (layout : Layout) : StreamingMetadata where
  header := layout.header
  fileEntries := layout.fileEntries
  solidGroups := layout.solidGroups
  encryptionHeader := layout.encryptionHeader
  dictionaryHash := layout.dictionaryHash

variable {layout : Layout} {ext : Externals}

/-- **A tiled archive is read back from a stream**, up to its first block. -/
theorem Tiled.streamingRead (tiled : layout.Tiled ext.toHashing) :
    StreamingRead ext (layout.archive ext.toHashing) layout.streamingMetadata
      (layout.afterTables ext.toHashing) :=
  streamingRead_of_parts tiled.readable tiled.written tiled.fileCount tiled.groupCount _

/-- **A tiled archive is read back by seeking.** -/
theorem Tiled.seekableRead (tiled : layout.Tiled ext.toHashing) :
    SeekableRead ext (layout.archive ext.toHashing) layout.metadata := by
  have length : (layout.archive ext.toHashing).length =
      (layout.toFrontMatter.bytes ext.toHashing).length + (layout.tables.length +
        (layout.body.length + (layout.blockIndex.length * BLOCK_INDEX_ENTRY_SIZE +
          ARCHIVE_FOOTER_SIZE))) := by
    simp only [archive, afterTables, indexBytes, List.length_append, length_flatMap_writeTo,
      ArchiveFooter.length_writeTo]
  have entrySize : BLOCK_INDEX_ENTRY_SIZE = 24 := rfl
  have footerSize : ARCHIVE_FOOTER_SIZE = 32 := rfl
  have fits := tiled.fits
  have tableOffset := tiled.fileTableOffset
  have indexOffset := tiled.blockIndexOffset
  have blockCount := tiled.blockCount
  rw [blockCount] at length
  have offsets : checkOffsets layout.footer (layout.archive ext.toHashing).length = .ok () := by
    rw [checkOffsets_eq_ok]
    dsimp only [footer]
    refine ⟨?_, ?_, ?_, ?_⟩ <;> omega
  have closes : layout.archive ext.toHashing = (layout.toFrontMatter.bytes ext.toHashing ++
      (layout.tables ++ (layout.body ++ layout.indexBytes))) ++
        layout.footer.writeTo ext.toHashing := by
    simp only [archive, afterTables, List.append_assoc]
  have located : (layout.archive ext.toHashing).drop layout.footer.fileTableOffset.toNat =
      layout.tables ++ layout.afterTables ext.toHashing := by
    dsimp only [footer]
    rw [tableOffset, archive, List.drop_left]
  have indexed : (layout.archive ext.toHashing).drop layout.footer.blockIndexOffset.toNat =
      layout.indexBytes ++ layout.footer.writeTo ext.toHashing := by
    dsimp only [footer]
    rw [indexOffset, archive, afterTables, ← List.append_assoc, ← List.append_assoc,
      ← Nat.add_assoc, ← List.length_append, ← List.length_append, List.drop_left]
    rfl
  exact seekableRead_of_parts tiled.readable rfl closes (crossCheck_eq_ok.mpr ⟨rfl, rfl, rfl, rfl⟩)
    offsets tiled.written located indexed tiled.fileCount tiled.groupCount blockCount
    tiled.distinct

end Layout

/-! ## Blocks -/

/-- A block as it stands in an archive. -/
structure StoredBlock where
  header : BlockHeader
  payload : Bytes
  trailer : BlockTrailer
  deriving DecidableEq

namespace StoredBlock

def bytes (hashing : Hashing) (block : StoredBlock) : Bytes :=
  block.header.writeTo hashing ++ (block.payload ++ block.trailer.writeTo hashing)

/-- The index entry of a block at an offset. -/
def indexEntry (block : StoredBlock) (archiveOffset : UInt64) : BlockIndexEntry where
  blockId := block.header.blockId
  archiveOffset := archiveOffset
  compressedSize := block.header.compressedSize
  uncompressedSize := block.header.uncompressedSize
  solidGroupId := block.header.solidGroupId

/-- A block that decodes to some data. -/
structure Holds (ext : Externals) (baseline : Option Bytes) (key : Option DecryptKey)
    (block : StoredBlock) (data : Bytes) : Prop where
  compressedSize : block.header.compressedSize.toNat = block.payload.length
  bounded : block.payload.length ≤ MAX_DECOMPRESSED_BLOCK_SIZE
  decodes : ∃ plain, maybeDecryptPayload ext block.payload key block.header.blockId = .ok plain ∧
    decompressChunkWithBaseline ext.toCodecs plain block.header.compressionMethod
      block.header.uncompressedSize.toNat baseline = .ok data
  digest : ext.blake3 data = block.trailer.contentBlake3

variable {ext : Externals} {baseline : Option Bytes} {key : Option DecryptKey}
  {block : StoredBlock} {data : Bytes}

/-- The data of a block has the recorded length, within the limit. -/
theorem Holds.length_data (holds : block.Holds ext baseline key data) :
    data.length = block.header.uncompressedSize.toNat ∧
      block.header.uncompressedSize.toNat ≤ MAX_DECOMPRESSED_BLOCK_SIZE := by
  obtain ⟨_, -, decoded⟩ := holds.decodes
  exact length_decompressChunk decoded

/-- **A block in a stream decodes**, and the stream goes on after it. -/
theorem Holds.streams (holds : block.Holds ext baseline key data) :
    Reads (decompressBlockStreaming ext baseline key) (block.bytes ext.toHashing)
      (data, block.header.blockId, block.header.compressedSize) := by
  obtain ⟨plain, decrypted, decoded⟩ := holds.decodes
  obtain ⟨length, bounded⟩ := holds.length_data
  have digest : checkBlockHash ext.toHashing block.header.blockId block.trailer.contentBlake3
      data = .ok () := checkBlockHash_eq_ok.mpr holds.digest
  have sizes : checkStreamedSizes block.header = .ok () := by
    simp only [checkStreamedSizes, Result.bind_eq_ok, Result.failIf_eq_ok, not_lt]
    exact ⟨(), holds.compressedSize.trans_le holds.bounded, bounded⟩
  rw [bytes]
  refine (block.header.reads ext.toHashing 0).bind ?_
  refine (ByteReader.reads_lift sizes).nil_bind ?_
  refine (Reader.reads_readExact ⟨block.payload, holds.compressedSize.symm⟩).bind ?_
  refine (block.trailer.reads ext.toHashing _).bind_nil ?_
  refine (ByteReader.reads_lift decrypted).nil_bind ?_
  refine (ByteReader.reads_lift (Result.mapError_eq_ok.mpr decoded)).nil_bind ?_
  refine (Reader.reads_failIf _ (not_not.mpr length)).nil_bind ?_
  exact (ByteReader.reads_lift digest).nil_bind (ByteReader.reads_pure _)

/-- An index entry that finds a block, whatever compressed size it records. -/
structure IndexedBy (block : StoredBlock) (offset : Nat) (entry : BlockIndexEntry) : Prop where
  archiveOffset : entry.archiveOffset.toNat = offset
  blockId : block.header.blockId = entry.blockId
  uncompressedSize : block.header.uncompressedSize = entry.uncompressedSize
  solidGroupId : block.header.solidGroupId = entry.solidGroupId

/-- **A block decodes at its offset**, and is read with its decrypted payload. -/
theorem Holds.decompressBlock_eq (holds : block.Holds ext baseline key data)
    {archive rest : Bytes} {offset : Nat} {entry : BlockIndexEntry}
    (indexed : block.IndexedBy offset entry)
    (stands : archive.drop offset = block.bytes ext.toHashing ++ rest) :
    decompressBlock ext archive entry baseline key = .ok data ∧
      ∃ plain, maybeDecryptPayload ext block.payload key block.header.blockId = .ok plain ∧
        payloadSize ext archive key entry = plain.length := by
  obtain ⟨plain, decrypted, decoded⟩ := holds.decodes
  obtain ⟨length, bounded⟩ := holds.length_data
  have valid : validateBlockHeader block.header entry entry.archiveOffset.toNat = .ok () := by
    simp only [validateBlockHeader, Result.bind_eq_ok, Result.failIf_eq_ok, not_lt, not_not]
    exact ⟨(), indexed.blockId, (), indexed.uncompressedSize, (), indexed.solidGroupId, (),
      holds.compressedSize.trans_le holds.bounded, bounded⟩
  have header := block.header.reads ext.toHashing entry.archiveOffset.toNat
    (block.payload ++ (block.trailer.writeTo ext.toHashing ++ rest))
  have payload := Reader.reads_readExact ⟨block.payload, holds.compressedSize.symm⟩
    (block.trailer.writeTo ext.toHashing ++ rest)
  have trailer := block.trailer.reads ext.toHashing block.header.blockId rest
  have read : readRawBlock ext archive 0 entry key = .ok
      { globalIdx := 0, payload := plain, compressionMethod := block.header.compressionMethod
        uncompressedSize := block.header.uncompressedSize.toNat
        contentBlake3 := block.trailer.contentBlake3, blockId := block.header.blockId
        archiveOffset := entry.archiveOffset, solidGroupId := block.header.solidGroupId } := by
    simp only [readRawBlock, Result.bind_eq_ok, Result.pure_eq_ok]
    rw [indexed.archiveOffset, stands, bytes, List.append_assoc, List.append_assoc,
      ← indexed.archiveOffset, header]
    exact ⟨_, rfl, (), valid, _, payload, _, trailer, plain, decrypted, rfl⟩
  refine ⟨(decompressBlock_eq_ok 0).mpr ⟨_, read, ?_⟩, plain, decrypted, ?_⟩
  · exact decompressRawBlock_eq_ok.mpr ⟨decoded, length, holds.digest⟩
  · rw [payloadSize, read]

end StoredBlock

/-! ### Blocks in sequence -/

/-- Index entries that find blocks standing one after the other. -/
inductive Indexes (hashing : Hashing) :
    (offset : Nat) → List StoredBlock → List BlockIndexEntry → Prop where
  | nil {offset : Nat} : Indexes hashing offset [] []
  | cons {offset : Nat} {block : StoredBlock} {blocks : List StoredBlock}
      {entry : BlockIndexEntry} {entries : List BlockIndexEntry} :
      block.IndexedBy offset entry →
      Indexes hashing (offset + (block.bytes hashing).length) blocks entries →
      Indexes hashing offset (block :: blocks) (entry :: entries)

variable {ext : Externals} {baseline : Option Bytes} {key : Option DecryptKey}
  {blocks : List StoredBlock} {contents : List Bytes}

/-- **Indexed blocks all decode.** -/
theorem Indexes.decodeAll_eq {offset : Nat} {entries : List BlockIndexEntry}
    {archive rest : Bytes} (indexes : Indexes ext.toHashing offset blocks entries)
    (hold : List.Forall₂ (StoredBlock.Holds ext baseline key) blocks contents)
    (stand : archive.drop offset = blocks.flatMap (StoredBlock.bytes ext.toHashing) ++ rest) :
    decodeAll ext archive baseline key entries = some contents := by
  induction indexes generalizing contents with
  | nil =>
      cases hold
      rfl
  | @cons offset block blocks entry entries indexed indexes recurse =>
      obtain _ | @⟨_, data, _, others, holds, holdRest⟩ := hold
      rw [List.flatMap_cons, List.append_assoc] at stand
      have standRest : archive.drop (offset + (block.bytes ext.toHashing).length) =
          blocks.flatMap (StoredBlock.bytes ext.toHashing) ++ rest := by
        rw [← List.drop_drop, stand, List.drop_left]
      exact decodeAll_cons_eq_some.mpr ⟨data, (holds.decompressBlock_eq indexed stand).1, others,
        recurse holdRest standRest, rfl⟩

/-- Without encryption the payloads are counted as they are stored. -/
theorem Indexes.payloadTotal_eq {offset : Nat} {entries : List BlockIndexEntry}
    {archive rest : Bytes} (indexes : Indexes ext.toHashing offset blocks entries)
    (hold : List.Forall₂ (StoredBlock.Holds ext baseline none) blocks contents)
    (stand : archive.drop offset = blocks.flatMap (StoredBlock.bytes ext.toHashing) ++ rest) :
    payloadTotal ext archive none entries =
      (blocks.map fun block => block.payload.length).sum := by
  induction indexes generalizing contents with
  | nil => rfl
  | @cons offset block blocks entry entries indexed indexes recurse =>
      obtain _ | @⟨_, data, _, others, holds, holdRest⟩ := hold
      rw [List.flatMap_cons, List.append_assoc] at stand
      have standRest : archive.drop (offset + (block.bytes ext.toHashing).length) =
          blocks.flatMap (StoredBlock.bytes ext.toHashing) ++ rest := by
        rw [← List.drop_drop, stand, List.drop_left]
      obtain ⟨-, plain, undecrypted, size⟩ := holds.decompressBlock_eq indexed stand
      cases undecrypted
      rw [payloadTotal_cons, size, recurse holdRest standRest, List.map_cons, List.sum_cons]

/-- Decrypting does not make payloads longer. -/
theorem Indexes.payloadTotal_le {offset : Nat} {entries : List BlockIndexEntry}
    {archive rest : Bytes} (indexes : Indexes ext.toHashing offset blocks entries)
    (hold : List.Forall₂ (StoredBlock.Holds ext baseline key) blocks contents)
    (stand : archive.drop offset = blocks.flatMap (StoredBlock.bytes ext.toHashing) ++ rest)
    (shorter : ∀ block ∈ blocks, ∀ plain,
      maybeDecryptPayload ext block.payload key block.header.blockId = .ok plain →
        plain.length ≤ block.payload.length) :
    payloadTotal ext archive key entries ≤
      (blocks.map fun block => block.payload.length).sum := by
  induction indexes generalizing contents with
  | nil => exact le_rfl
  | @cons offset block blocks entry entries indexed indexes recurse =>
      obtain _ | @⟨_, data, _, others, holds, holdRest⟩ := hold
      rw [List.flatMap_cons, List.append_assoc] at stand
      have standRest : archive.drop (offset + (block.bytes ext.toHashing).length) =
          blocks.flatMap (StoredBlock.bytes ext.toHashing) ++ rest := by
        rw [← List.drop_drop, stand, List.drop_left]
      obtain ⟨-, plain, decrypted, size⟩ := holds.decompressBlock_eq indexed stand
      rw [payloadTotal_cons, size, List.map_cons, List.sum_cons]
      exact Nat.add_le_add (shorter block List.mem_cons_self plain decrypted)
        (recurse holdRest standRest fun other member =>
          shorter other (List.mem_cons_of_mem _ member))

/-- **Blocks in a stream all decode.** -/
theorem streams_blocks
    (hold : List.Forall₂ (StoredBlock.Holds ext baseline key) blocks contents) :
    Reads (ByteReader.readMany (decompressBlockStreaming ext baseline key) blocks.length)
      (blocks.flatMap (StoredBlock.bytes ext.toHashing))
      (List.zipWith (fun block data =>
        (data, block.header.blockId, block.header.compressedSize)) blocks contents) := by
  induction hold with
  | nil => exact ByteReader.reads_pure []
  | @cons block data blocks contents holds hold recurse =>
      rw [List.flatMap_cons]
      exact holds.streams.bind (recurse.bind_nil (ByteReader.reads_pure _))

/-! ## The index of consecutive blocks -/

/-- The index entries of blocks standing one after the other. -/
def indexFrom (hashing : Hashing) : (offset : Nat) → List StoredBlock → List BlockIndexEntry
  | _, [] => []
  | offset, block :: blocks =>
      block.indexEntry (UInt64.ofNat offset) ::
        indexFrom hashing (offset + (block.bytes hashing).length) blocks

/-- The index names the blocks in order. -/
theorem map_blockId_indexFrom (hashing : Hashing) (offset : Nat) (blocks : List StoredBlock) :
    (indexFrom hashing offset blocks).map BlockIndexEntry.blockId =
      blocks.map fun block => block.header.blockId := by
  induction blocks generalizing offset with
  | nil => rfl
  | cons block blocks recurse =>
      rw [indexFrom, List.map_cons, List.map_cons, recurse]
      rfl

/-- The index of an archive below the offset range is correct. -/
theorem indexes_indexFrom {hashing : Hashing} {offset : Nat} {blocks : List StoredBlock}
    (fits : offset + (blocks.flatMap (StoredBlock.bytes hashing)).length < 2 ^ 64) :
    Indexes hashing offset blocks (indexFrom hashing offset blocks) := by
  induction blocks generalizing offset with
  | nil => exact .nil
  | cons block blocks recurse =>
      rw [List.flatMap_cons, List.length_append, ← Nat.add_assoc] at fits
      have start : (UInt64.ofNat offset).toNat = offset :=
        UInt64.toNat_ofNat_of_lt' (lt_of_le_of_lt (by omega) fits)
      exact .cons ⟨start, rfl, rfl, rfl⟩ (recurse fits)

/-- What an index records about compressed sizes does not matter for finding blocks. -/
theorem Indexes.recorded {hashing : Hashing} {offset : Nat} {blocks : List StoredBlock}
    {entries : List BlockIndexEntry} (indexes : Indexes hashing offset blocks entries)
    (record : BlockIndexEntry → UInt32) :
    Indexes hashing offset blocks
      (entries.map fun entry => { entry with compressedSize := record entry }) := by
  induction indexes with
  | nil => exact .nil
  | cons indexed indexes recurse =>
      exact .cons ⟨indexed.archiveOffset, indexed.blockId, indexed.uncompressedSize,
        indexed.solidGroupId⟩ recurse

end AetherArch
