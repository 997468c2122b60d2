import AetherArch.Pipeline.Layout
import AetherArch.Pipeline.Operations
import AetherArch.Pipeline.RouterRoundTrip

/-! # Archives that store their data as it is

The simplest archives there are: no encryption, no dictionary, no groups, and blocks that hold
their data uncompressed. What they extract to can be read off their tables, so they show what
the readers do with tables that disagree with the blocks.
-/

namespace AetherArch

open Decompressor

/-- A decompressor with one thread and nothing configured. -/
def Decompressor.singleThreaded {σ : Type} (predictorFactory : σ) : Decompressor σ where
  predictorFactory := predictorFactory
  password := none
  maxThreads := 1
  dictionary := none

/-! ## Blocks -/

/-- A block that stores data as it is. -/
def plainBlock (hashing : Hashing) (blockId : Nat) (data : Bytes) : StoredBlock where
  header :=
    { blockId := UInt32.ofNat blockId, solidGroupId := 0, compressionMethod := .store
      predictorStateFlag := false, compressedSize := UInt32.ofNat data.length
      uncompressedSize := UInt32.ofNat data.length }
  payload := data
  trailer := { contentBlake3 := hashing.blake3 data }

/-- A stored block holds its data, under any baseline. -/
theorem plainBlock_holds {ext : Externals} (baseline : Option Bytes) (blockId : Nat) {data : Bytes}
    (bounded : data.length ≤ MAX_DECOMPRESSED_BLOCK_SIZE) :
    (plainBlock ext.toHashing blockId data).Holds ext baseline none data := by
  have size : (UInt32.ofNat data.length).toNat = data.length :=
    UInt32.toNat_ofNat_of_lt' (bounded.trans_lt (by decide))
  refine ⟨size, bounded, ⟨data, rfl, ?_⟩, rfl⟩
  dsimp only [plainBlock]
  rw [size, decompressChunkWithBaseline, if_neg (not_lt.mpr bounded), if_neg (not_not.mpr rfl)]

/-! ## The archive -/

/-- The parts of an archive that stores its contents as they are. `record` is the compressed size
its index records for a block. -/
structure PlainArchive where
  fileEntries : List FileEntry
  contents : List Bytes
  record : BlockIndexEntry → UInt32

namespace PlainArchive

variable (hashing : Hashing) (plain : PlainArchive)

def blocks : List StoredBlock := plain.contents.mapIdx (plainBlock hashing)

def body : Bytes := (plain.blocks hashing).flatMap (StoredBlock.bytes hashing)

def tables : Bytes := plain.fileEntries.flatMap FileEntry.writeTo

/-- The front matter, given where the tables and the index stand. -/
def front (blockIndexOffset : Nat) : FrontMatter where
  header :=
    { flags := 0, predictorId := .order0, fileCount := UInt32.ofNat plain.fileEntries.length
      solidGroupCount := 0, blockCount := UInt32.ofNat plain.contents.length
      fileTableOffset := UInt64.ofNat ARCHIVE_HEADER_SIZE
      blockIndexOffset := UInt64.ofNat blockIndexOffset }
  encryptionHeader := none
  dictionaryHash := none

def bodyOffset : Nat := ARCHIVE_HEADER_SIZE + plain.tables.length

def index : List BlockIndexEntry :=
  (indexFrom hashing plain.bodyOffset (plain.blocks hashing)).map fun entry =>
    { entry with compressedSize := plain.record entry }

def layout : Layout where
  toFrontMatter := plain.front (plain.bodyOffset + (plain.body hashing).length)
  fileEntries := plain.fileEntries
  solidGroups := []
  tables := plain.tables
  body := plain.body hashing
  blockIndex := plain.index hashing

/-- The bytes of the archive. -/
def bytes : Bytes := (plain.layout hashing).archive hashing

/-- An archive within all limits. -/
structure WellFormed (plain : PlainArchive) : Prop where
  files : plain.fileEntries.length ≤ MAX_FILE_COUNT.toNat
  contents : plain.contents.length ≤ MAX_BLOCK_COUNT.toNat
  readable : ∀ entry ∈ plain.fileEntries, entry.Readable
  bounded : ∀ data ∈ plain.contents, data.length ≤ MAX_DECOMPRESSED_BLOCK_SIZE

variable {hashing : Hashing} {plain : PlainArchive}

/-- Without prefixes, a file table is its entries one after the other. -/
theorem writeFileTable_plain (entries : List FileEntry) (previousPath : String) :
    writeFileTable false entries previousPath = .ok (entries.flatMap FileEntry.writeTo) := by
  induction entries generalizing previousPath with
  | nil => rfl
  | cons entry entries recurse =>
      rw [writeFileTable, recurse]
      rfl

theorem length_blocks : (plain.blocks hashing).length = plain.contents.length :=
  List.length_mapIdx ..

/-- There is one index entry for each content. -/
theorem length_index : (plain.index hashing).length = plain.contents.length := by
  have ids := congrArg List.length
    (map_blockId_indexFrom hashing plain.bodyOffset (plain.blocks hashing))
  rw [List.length_map, List.length_map, length_blocks] at ids
  rw [index, List.length_map, ids]

/-- Nothing but the header stands in front. -/
theorem length_front (blockIndexOffset : Nat) :
    ((plain.front blockIndexOffset).bytes hashing).length = ARCHIVE_HEADER_SIZE := by
  simp only [front, FrontMatter.bytes, Option.elim_none, List.append_nil, ArchiveHeader.writeTo,
    ArchiveHeader.fields, List.length_append, length_writeU16, length_writeU32, length_writeU64,
    (ArchiveHeader.computeBlake3Tag ..).2]
  rfl

/-- Bounded pieces give a bounded whole. -/
theorem length_flatMap_le {α : Type} {write : α → Bytes} {values : List α} {bound : Nat}
    (bounded : ∀ value ∈ values, (write value).length ≤ bound) :
    (values.flatMap write).length ≤ values.length * bound := by
  rw [List.length_flatMap, ← smul_eq_mul, ← List.length_map fun value => (write value).length]
  refine List.sum_le_card_nsmul _ _ fun length member => ?_
  obtain ⟨value, inside, rfl⟩ := List.mem_map.mp member
  exact bounded value inside

/-- An entry takes its path and 66 bytes. -/
theorem length_writeTo (entry : FileEntry) :
    entry.writeTo.length = 66 + (asBytes entry.path).length := by
  have fixed : FileEntry.FIXED_FIELDS_SIZE = 64 := rfl
  rw [FileEntry.writeTo, List.length_append, List.length_append, length_writeU16,
    entry.length_fixedFields]
  omega

/-- An entry with a readable path is short. -/
theorem length_writeTo_le {entry : FileEntry} (readable : entry.Readable) :
    entry.writeTo.length ≤ 66 + MAX_PATH_LENGTH := by
  rw [length_writeTo]
  exact Nat.add_le_add_left readable.short 66

/-- A stored block takes its data and 64 bytes. -/
theorem length_plainBlock (blockId : Nat) (data : Bytes) :
    ((plainBlock hashing blockId data).bytes hashing).length = 64 + data.length := by
  simp only [plainBlock, StoredBlock.bytes, BlockHeader.writeTo, BlockHeader.fields,
    BlockTrailer.writeTo, List.length_append, length_writeU32, length_writeU16, length_writeU8,
    (hashing.blake3 data).2]
  omega

/-- The limits keep all positions within 64 bits. -/
theorem WellFormed.length_le (wellFormed : plain.WellFormed) :
    plain.tables.length ≤ 1000000 * 4162 ∧
      (plain.body hashing).length ≤ 10000000 * 67108928 := by
  have files := wellFormed.files
  have contents := wellFormed.contents
  have fileLimit : MAX_FILE_COUNT.toNat = 1000000 := rfl
  have blockLimit : MAX_BLOCK_COUNT.toNat = 10000000 := rfl
  rw [fileLimit] at files
  rw [blockLimit] at contents
  constructor
  · refine (length_flatMap_le fun entry member =>
      length_writeTo_le (wellFormed.readable entry member)).trans ?_
    exact Nat.mul_le_mul_right _ files
  · have each : ∀ block ∈ plain.blocks hashing, (block.bytes hashing).length ≤ 67108928 := by
      intro block member
      obtain ⟨i, inside, rfl⟩ := List.mem_mapIdx.mp member
      have bounded := wellFormed.bounded _ (List.getElem_mem inside)
      have limit : MAX_DECOMPRESSED_BLOCK_SIZE = 67108864 := rfl
      rw [length_plainBlock]
      omega
    refine (length_flatMap_le each).trans ?_
    rw [length_blocks]
    exact Nat.mul_le_mul_right _ contents

/-- All blocks end at a position of 64 bits. -/
theorem WellFormed.length_bytes (wellFormed : plain.WellFormed) :
    plain.bodyOffset + (plain.body hashing).length < 2 ^ 64 := by
  obtain ⟨tables, body⟩ := @WellFormed.length_le hashing plain wellFormed
  have header : ARCHIVE_HEADER_SIZE = 48 := rfl
  rw [bodyOffset]
  omega

/-- The parts of the archive, by their sizes. -/
theorem length_archive : (plain.bytes hashing).length =
    ARCHIVE_HEADER_SIZE + (plain.tables.length + ((plain.body hashing).length +
      (plain.contents.length * BLOCK_INDEX_ENTRY_SIZE + ARCHIVE_FOOTER_SIZE))) := by
  have front : ((plain.layout hashing).toFrontMatter.bytes hashing).length =
      ARCHIVE_HEADER_SIZE := length_front _
  have sameTables : (plain.layout hashing).tables = plain.tables := rfl
  have sameBody : (plain.layout hashing).body = plain.body hashing := rfl
  have index : (plain.layout hashing).indexBytes.length =
      plain.contents.length * BLOCK_INDEX_ENTRY_SIZE := by
    rw [Layout.indexBytes, length_flatMap_writeTo]
    exact congrArg (· * BLOCK_INDEX_ENTRY_SIZE) length_index
  rw [bytes, Layout.archive, Layout.afterTables, List.length_append, List.length_append,
    List.length_append, List.length_append, front, sameTables, sameBody, index,
    ArchiveFooter.length_writeTo]

/-- The whole archive ends at a position of 64 bits. -/
theorem WellFormed.fits (wellFormed : plain.WellFormed) :
    (plain.bytes hashing).length < 2 ^ 64 := by
  obtain ⟨tables, body⟩ := @WellFormed.length_le hashing plain wellFormed
  have contents := wellFormed.contents
  have blockLimit : MAX_BLOCK_COUNT.toNat = 10000000 := rfl
  have header : ARCHIVE_HEADER_SIZE = 48 := rfl
  have footer : ARCHIVE_FOOTER_SIZE = 32 := rfl
  have entry : BLOCK_INDEX_ENTRY_SIZE = 24 := rfl
  rw [length_archive, entry]
  omega

/-- The ids of the blocks count up from zero. -/
theorem WellFormed.distinct (wellFormed : plain.WellFormed) :
    ((plain.index hashing).map BlockIndexEntry.blockId).Nodup := by
  have count := wellFormed.contents
  have limit : MAX_BLOCK_COUNT.toNat = 10000000 := rfl
  have size : UInt32.size = 4294967296 := rfl
  have ids : (plain.index hashing).map BlockIndexEntry.blockId =
      (List.range plain.contents.length).map UInt32.ofNat := by
    rw [index, List.map_map]
    change (indexFrom hashing plain.bodyOffset (plain.blocks hashing)).map
      BlockIndexEntry.blockId = _
    rw [map_blockId_indexFrom, blocks]
    apply List.ext_getElem
    · simp only [List.length_map, List.length_mapIdx, List.length_range]
    · intro i _ _
      simp only [List.getElem_map, List.getElem_mapIdx, List.getElem_range]
      rfl
  rw [ids]
  refine List.Nodup.map_on ?_ List.nodup_range
  intro first firstMember second secondMember same
  rw [List.mem_range] at firstMember secondMember
  have value := congrArg UInt32.toNat same
  rwa [UInt32.toNat_ofNat_of_lt' (by omega), UInt32.toNat_ofNat_of_lt' (by omega)] at value

/-- The counts fit their fields. -/
theorem WellFormed.counts (wellFormed : plain.WellFormed) :
    (UInt32.ofNat plain.fileEntries.length).toNat = plain.fileEntries.length ∧
      (UInt32.ofNat plain.contents.length).toNat = plain.contents.length :=
  ⟨UInt32.toNat_ofNat_of_lt' (wellFormed.files.trans_lt (by decide)),
    UInt32.toNat_ofNat_of_lt' (wellFormed.contents.trans_lt (by decide))⟩

/-- **The parts stand where the header says.** -/
theorem WellFormed.tiled (wellFormed : plain.WellFormed) :
    (plain.layout hashing).Tiled hashing where
  readable := by
    obtain ⟨files, contents⟩ := wellFormed.counts
    have groups : (0 : UInt32) ≤ MAX_SOLID_GROUP_COUNT := by decide
    have unencrypted : hasFlag 0 FLAG_ENCRYPTED = false := by decide
    have unprimed : hasFlag 0 FLAG_HAS_DICTIONARY = false := by decide
    refine ⟨ArchiveHeader.checkCounts_eq_ok.mpr ⟨?_, ?_, groups⟩, unencrypted, unprimed, ?_⟩
    · exact UInt32.le_iff_toNat_le.mpr (files.trans_le wellFormed.files)
    · exact UInt32.le_iff_toNat_le.mpr (contents.trans_le wellFormed.contents)
    · intro header member
      cases member
  written := by
    have unprefixed : hasFlag 0 FLAG_PATH_PREFIXES = false := rfl
    refine ⟨⟨plain.tables, ?_, (List.append_nil _).symm⟩, wellFormed.readable⟩
    exact unprefixed ▸ writeFileTable_plain plain.fileEntries ""
  fileCount := wellFormed.counts.1.symm
  groupCount := rfl
  blockCount := length_index.trans wellFormed.counts.2.symm
  fileTableOffset := (length_front _).symm
  blockIndexOffset := by
    have front : ((plain.layout hashing).toFrontMatter.bytes hashing).length =
        ARCHIVE_HEADER_SIZE := length_front _
    have position : (UInt64.ofNat (plain.bodyOffset + (plain.body hashing).length)).toNat =
        plain.bodyOffset + (plain.body hashing).length :=
      UInt64.toNat_ofNat_of_lt' wellFormed.length_bytes
    rw [front, ← Nat.add_assoc]
    exact position
  distinct := wellFormed.distinct
  fits := wellFormed.fits

/-! ## What is read -/

section

variable {ext : Externals} {baseline : Option Bytes}

theorem WellFormed.indexes (wellFormed : plain.WellFormed) :
    Indexes hashing plain.bodyOffset (plain.blocks hashing) (plain.index hashing) :=
  (indexes_indexFrom wellFormed.length_bytes).recorded plain.record

/-- Making every value from its index relates what is made to the values. -/
theorem forall₂_mapIdx {α β : Type} {relation : β → α → Prop} {make : Nat → α → β} {values : List α}
    (related : ∀ i, ∀ value ∈ values, relation (make i value) value) :
    List.Forall₂ relation (values.mapIdx make) values := by
  rw [List.forall₂_iff_get]
  refine ⟨List.length_mapIdx .., fun i _ inside => ?_⟩
  rw [List.get_eq_getElem, List.get_eq_getElem, List.getElem_mapIdx]
  exact related i _ (List.getElem_mem inside)

/-- Every block holds its content. -/
theorem WellFormed.hold (wellFormed : plain.WellFormed) :
    List.Forall₂ (StoredBlock.Holds ext baseline none) (plain.blocks ext.toHashing)
      plain.contents :=
  forall₂_mapIdx fun i data member => plainBlock_holds baseline i (wellFormed.bounded data member)

/-- The blocks stand behind the tables. -/
theorem drop_bodyOffset :
    (plain.bytes hashing).drop plain.bodyOffset = plain.body hashing ++
      ((plain.layout hashing).indexBytes ++ (plain.layout hashing).footer.writeTo hashing) := by
  have front : ((plain.layout hashing).toFrontMatter.bytes hashing).length =
      ARCHIVE_HEADER_SIZE := length_front _
  have opening : plain.bodyOffset = ((plain.layout hashing).toFrontMatter.bytes hashing ++
      (plain.layout hashing).tables).length := by
    rw [List.length_append, front]
    rfl
  rw [bytes, Layout.archive, ← List.append_assoc, opening, List.drop_left]
  rfl

/-- **The blocks decode to the contents.** -/
theorem WellFormed.decodeAll_eq (wellFormed : plain.WellFormed) :
    decodeAll ext (plain.bytes ext.toHashing) baseline none (plain.index ext.toHashing) =
      some plain.contents :=
  wellFormed.indexes.decodeAll_eq wellFormed.hold drop_bodyOffset

/-- What is read of the blocks is as long as the contents. -/
theorem WellFormed.payloadTotal_eq (wellFormed : plain.WellFormed) :
    payloadTotal ext (plain.bytes ext.toHashing) none (plain.index ext.toHashing) =
      totalSize plain.contents := by
  rw [wellFormed.indexes.payloadTotal_eq (@WellFormed.hold plain ext none wellFormed)
    drop_bodyOffset, totalSize]
  congr 1
  apply List.ext_getElem
  · simp only [List.length_map, length_blocks]
  · intro i _ _
    simp only [List.getElem_map, blocks, List.getElem_mapIdx]
    rfl

/-! ## What is extracted -/

variable {σ : Type} [ProbabilityPredictor σ] {self : Decompressor σ}

/-- Without a dictionary there is nothing to resolve. -/
theorem unlocked_of_none (noDictionary : self.dictionary = none) :
    self.Unlocked ext 0 none none none none where
  dictionary := rfl
  key := by
    have unencrypted : hasFlag 0 FLAG_ENCRYPTED = false := by decide
    rw [deriveDecryptKey, unencrypted]
    rfl
  baseline := by rw [decodeBaselineFor, resolveDictionary, noDictionary]; rfl

theorem WellFormed.seekableRead (wellFormed : plain.WellFormed) :
    SeekableRead ext (plain.bytes ext.toHashing) (plain.layout ext.toHashing).metadata :=
  wellFormed.tiled.seekableRead

/-- **The extraction by seeking gets the contents**, within the limits. -/
theorem WellFormed.extraction (wellFormed : plain.WellFormed)
    (noDictionary : self.dictionary = none)
    (pooled : self.Pooled ext (plain.layout ext.toHashing).metadata)
    (compressed : self.compressedTotal ext (plain.bytes ext.toHashing)
      (plain.layout ext.toHashing).metadata none ≤ MAX_TOTAL_COMPRESSED_READ_SIZE)
    (decompressed : totalSize plain.contents ≤ MAX_TOTAL_DECOMPRESSED_SIZE) :
    self.Extraction ext (plain.bytes ext.toHashing) (plain.layout ext.toHashing).metadata none none
      plain.contents where
  read := wellFormed.seekableRead
  unlocked := unlocked_of_none noDictionary
  pooled := pooled
  decodes := wellFormed.decodeAll_eq
  compressed := compressed
  decompressed := decompressed

/-- The index records the sizes of the blocks. -/
theorem indexedTotal_indexFrom (offset : Nat) (blocks : List StoredBlock) :
    indexedTotal (indexFrom hashing offset blocks) =
      (blocks.map fun block => block.header.compressedSize.toNat).sum := by
  induction blocks generalizing offset with
  | nil => rfl
  | cons block blocks recurse =>
      have later := recurse (offset + (block.bytes hashing).length)
      rw [indexedTotal] at later ⊢
      rw [indexFrom, List.map_cons, List.sum_cons, later, List.map_cons, List.sum_cons]
      rfl

/-- An index that records compressed sizes as they are counts the contents. -/
theorem WellFormed.indexedTotal_eq (wellFormed : plain.WellFormed)
    (truthful : plain.record = BlockIndexEntry.compressedSize) :
    indexedTotal (plain.index hashing) = totalSize plain.contents := by
  rw [index, truthful, List.map_id'', indexedTotal_indexFrom, totalSize]
  · congr 1
    apply List.ext_getElem
    · simp only [List.length_map, length_blocks]
    · intro i _ inside
      rw [List.length_map] at inside
      simp only [List.getElem_map, blocks, List.getElem_mapIdx]
      have bounded := wellFormed.bounded _ (List.getElem_mem inside)
      exact UInt32.toNat_ofNat_of_lt' (bounded.trans_lt (by decide))
  · intro entry
    rfl

/-- One thread extracts what an archive with a truthful index holds. -/
theorem WellFormed.extractionSequential (wellFormed : plain.WellFormed)
    (truthful : plain.record = BlockIndexEntry.compressedSize)
    (decompressed : totalSize plain.contents ≤ MAX_TOTAL_DECOMPRESSED_SIZE)
    (predictorFactory : σ) :
    (singleThreaded predictorFactory).Extraction ext (plain.bytes ext.toHashing)
      (plain.layout ext.toHashing).metadata none none plain.contents := by
  have sequential :
      (singleThreaded predictorFactory).isParallel (plain.layout ext.toHashing).metadata =
        false := rfl
  refine wellFormed.extraction rfl ?_ ?_ decompressed
  · intro parallel
    rw [sequential] at parallel
    cases parallel
  · rw [compressedTotal, sequential]
    refine le_trans (le_of_eq (wellFormed.indexedTotal_eq truthful)) ?_
    exact decompressed.trans (by decide)

/-- **What is extracted from the archive**, where the index records the sizes. -/
theorem WellFormed.extractAll_eq (wellFormed : plain.WellFormed)
    (truthful : plain.record = BlockIndexEntry.compressedSize)
    (decompressed : totalSize plain.contents ≤ MAX_TOTAL_DECOMPRESSED_SIZE)
    (predictorFactory : σ) {files : List ExtractedFile}
    (written : plain.fileEntries.mapM (extracted ext.toHashing plain.contents) = some files) :
    (singleThreaded predictorFactory).extractAll ext (plain.bytes ext.toHashing) = .ok files :=
  extractAll_eq_ok.mpr ⟨_, _, _, _,
    wellFormed.extractionSequential truthful decompressed predictorFactory, written⟩

/-- The blocks as a stream gives them. -/
def streamed (hashing : Hashing) (plain : PlainArchive) : List StreamedBlock :=
  List.zipWith (fun block data => (data, block.header.blockId, block.header.compressedSize))
    (plain.blocks hashing) plain.contents

/-- A stream gives the contents in order. -/
theorem map_fst_streamed : (plain.streamed hashing).map Prod.fst = plain.contents := by
  rw [streamed, List.map_zipWith]
  apply List.ext_getElem
  · rw [List.length_zipWith, length_blocks, Nat.min_self]
  · intro i _ _
    rw [List.getElem_zipWith]

/-- The sizes along a stream add up to those of the contents. -/
theorem WellFormed.streamedTotal_eq (wellFormed : plain.WellFormed) :
    streamedTotal (plain.streamed hashing) = totalSize plain.contents := by
  rw [streamedTotal, totalSize]
  congr 1
  apply List.ext_getElem
  · simp only [streamed, List.length_map, List.length_zipWith, length_blocks, Nat.min_self]
  · intro i _ inside
    rw [List.length_map] at inside
    simp only [streamed, List.getElem_map, List.getElem_zipWith, blocks, List.getElem_mapIdx]
    have bounded := wellFormed.bounded _ (List.getElem_mem inside)
    exact UInt32.toNat_ofNat_of_lt' (bounded.trans_lt (by decide))

/-- **The extraction from a stream gets the contents**, within the limits. -/
theorem WellFormed.streamExtraction (wellFormed : plain.WellFormed)
    (noDictionary : self.dictionary = none)
    (decompressed : totalSize plain.contents ≤ MAX_TOTAL_DECOMPRESSED_SIZE) :
    self.StreamExtraction ext (plain.bytes ext.toHashing)
      (plain.layout ext.toHashing).streamingMetadata none none (plain.streamed ext.toHashing) where
  decodes := by
    have read := streams_blocks (@WellFormed.hold plain ext none wellFormed)
      ((plain.layout ext.toHashing).indexBytes ++
        (plain.layout ext.toHashing).footer.writeTo ext.toHashing)
    rw [length_blocks, ← wellFormed.counts.2] at read
    exact ⟨_, _, wellFormed.tiled.streamingRead, read⟩
  unlocked := unlocked_of_none noDictionary
  compressed := by
    rw [wellFormed.streamedTotal_eq]
    exact decompressed.trans (by decide)
  decompressed := by rw [map_fst_streamed]; exact decompressed

/-- The blocks of one file alone. -/
theorem WellFormed.fileExtraction (wellFormed : plain.WellFormed)
    (noDictionary : self.dictionary = none) {filePath : String} {entry : FileEntry}
    (found : plain.fileEntries.find? (fun entry => entry.path = filePath) = some entry)
    (inside : entry.chunkStartIdx.toNat + entry.chunkCount.toNat ≤ plain.contents.length)
    (decompressed : totalSize plain.contents ≤ MAX_TOTAL_DECOMPRESSED_SIZE) :
    self.FileExtraction ext (plain.bytes ext.toHashing) filePath
      (plain.layout ext.toHashing).metadata entry none none
      ((plain.contents.drop entry.chunkStartIdx.toNat).take entry.chunkCount.toNat) where
  read := wellFormed.seekableRead
  unlocked := unlocked_of_none noDictionary
  found := found
  decodes := decodeAll_take (decodeAll_drop wellFormed.decodeAll_eq _) _
  decompressed := (totalSize_slice_le _ _ _).trans decompressed
  complete := by
    rw [List.length_take, List.length_drop]
    omega

end

end PlainArchive

/-! ## One file -/

/-- An entry for data in some of the blocks. -/
def plainEntry (hashing : Hashing) (path : String) (originalSize : UInt64) (data : Bytes)
    (chunkStartIdx chunkCount : UInt32) : FileEntry where
  path := path
  originalSize := originalSize
  blake3Hash := hashing.blake3 data
  solidGroupId := 0
  chunkStartIdx := chunkStartIdx
  chunkCount := chunkCount
  permissions := 0
  mtime := 0

/-- Entries of accepted paths are readable. -/
theorem AcceptedPath.readable {path : String} (accepted : AcceptedPath path) (hashing : Hashing)
    (originalSize : UInt64) (data : Bytes) (chunkStartIdx chunkCount : UInt32) :
    (plainEntry hashing path originalSize data chunkStartIdx chunkCount).Readable := by
  have masked : (0 : UInt32) &&& SAFE_PERMISSION_MASK = 0 := by decide
  exact ⟨accepted.short, accepted.safe, masked⟩

namespace PlainArchive

/-- One file of one block, with a size recorded for it. -/
def oneFile (hashing : Hashing) (originalSize : UInt64) (data : Bytes) : PlainArchive where
  fileEntries := [plainEntry hashing "a" originalSize data 0 1]
  contents := [data]
  record := BlockIndexEntry.compressedSize

theorem acceptedPath_a : AcceptedPath "a" := ⟨by decide, by decide⟩

theorem validateExtractionPath_a : validateExtractionPath "a" = .ok () := by decide

variable {hashing : Hashing} {originalSize : UInt64} {data : Bytes}

/-- An archive of one file is well formed. -/
theorem oneFile_wellFormed (bounded : data.length ≤ MAX_DECOMPRESSED_BLOCK_SIZE) :
    (oneFile hashing originalSize data).WellFormed where
  files := Nat.one_le_iff_ne_zero.mpr (by decide)
  contents := Nat.one_le_iff_ne_zero.mpr (by decide)
  readable entry member := by
    rw [List.mem_singleton.mp member]
    exact acceptedPath_a.readable _ _ _ _ _
  bounded content member := by
    rw [List.mem_singleton.mp member]
    exact bounded

/-- **Every operation extracts the block**, if the recorded size is not smaller. -/
theorem oneFile_extracts {σ : Type} [ProbabilityPredictor σ] (ext : Externals)
    (predictorFactory : σ) (bounded : data.length ≤ MAX_DECOMPRESSED_BLOCK_SIZE)
    (covers : data.length ≤ originalSize.toNat) :
    let archive := (oneFile ext.toHashing originalSize data).bytes ext.toHashing
    let file : ExtractedFile := { path := "a", data, mtime := 0, permissions := 0 }
    (singleThreaded predictorFactory).extractAll ext archive = .ok [file] ∧
      (singleThreaded predictorFactory).extractAllStreaming ext archive = .ok [file] ∧
      (singleThreaded predictorFactory).extractFile ext archive "a" = .ok data := by
  have wellFormed : (oneFile ext.toHashing originalSize data).WellFormed :=
    oneFile_wellFormed bounded
  have total : totalSize [data] ≤ MAX_TOTAL_DECOMPRESSED_SIZE := by
    refine le_trans ?_ (bounded.trans (by decide))
    exact (Nat.add_zero _).le
  have whole : truncateToFileSize (plainEntry ext.toHashing "a" originalSize data 0 1)
      [data].flatten = data := by
    rw [List.flatten_singleton]
    exact List.take_of_length_le covers
  have written : (oneFile ext.toHashing originalSize data).fileEntries.mapM
      (extracted ext.toHashing [data]) = some
        [{ path := "a", data, mtime := 0, permissions := 0 }] := by
    have accepted : extracted ext.toHashing [data]
        (plainEntry ext.toHashing "a" originalSize data 0 1) =
          some { path := "a", data, mtime := 0, permissions := 0 } := by
      refine extracted_eq_some.mpr
        ⟨validateExtractionPath_a, data, intactContent_eq_some.mpr ⟨?_, rfl⟩, ?_⟩
      · exact congrArg some whole
      · have masked : (0 : UInt32) &&& SAFE_PERMISSION_MASK = 0 := by decide
        rw [extractedFile, plainEntry, masked]
    rw [oneFile, List.mapM_cons, accepted]
    rfl
  refine ⟨?_, ?_, ?_⟩
  · exact extractAll_eq_ok.mpr
      ⟨_, _, _, _, wellFormed.extractionSequential rfl total predictorFactory, written⟩
  · refine extractAllStreaming_eq_ok.mpr
      ⟨_, _, _, _, wellFormed.streamExtraction rfl total, ?_⟩
    rw [map_fst_streamed]
    exact written
  · refine extractFile_eq_ok.mpr ⟨_, _, _, _, _, wellFormed.fileExtraction rfl rfl le_rfl total,
      ?_, rfl⟩
    exact whole.symm

/-! ## Every file in a block of its own -/

/-- Every file in a block of its own. -/
def separate (hashing : Hashing) (files : List (String × Bytes)) : PlainArchive where
  fileEntries := files.mapIdx fun i file =>
    plainEntry hashing file.1 (UInt64.ofNat file.2.length) file.2 (UInt32.ofNat i) 1
  contents := files.map Prod.snd
  record := BlockIndexEntry.compressedSize

/-- A few small files with paths that extract. -/
structure Separable (files : List (String × Bytes)) : Prop where
  few : files.length ≤ MAX_FILE_COUNT.toNat
  valid : ∀ file ∈ files, validateExtractionPath file.1 = .ok ()
  small : totalSize (files.map Prod.snd) ≤ MAX_DECOMPRESSED_BLOCK_SIZE

/-- A file as it is extracted from an archive of plain entries. -/
def plainFile (file : String × Bytes) : ExtractedFile where
  path := file.1
  data := file.2
  mtime := 0
  permissions := 0

/-- What the validator accepts is an accepted path. -/
theorem acceptedPath_of_valid {path : String} (valid : validateExtractionPath path = .ok ()) :
    AcceptedPath path := by
  simp only [validateExtractionPath, Result.bind_eq_ok, Result.failIf_eq_ok] at valid
  obtain ⟨_, safe, _, short, -⟩ := valid
  exact ⟨not_lt.mp short, Bool.eq_false_of_not_eq_true safe⟩

variable {files : List (String × Bytes)}

/-- Every file is within the limit of a block. -/
theorem Separable.bounded (separable : Separable files) {data : Bytes}
    (member : data ∈ files.map Prod.snd) : data.length ≤ MAX_DECOMPRESSED_BLOCK_SIZE :=
  (List.single_le_sum (fun _ _ => Nat.zero_le _) _ (List.mem_map_of_mem member)).trans
    separable.small

/-- Files in blocks of their own make a well-formed archive. -/
theorem Separable.wellFormed (separable : Separable files) :
    (separate hashing files).WellFormed where
  files := by
    rw [separate, List.length_mapIdx]
    exact separable.few
  contents := by
    rw [separate, List.length_map]
    exact separable.few.trans (by decide)
  readable entry member := by
    obtain ⟨i, inside, rfl⟩ := List.mem_mapIdx.mp member
    exact (acceptedPath_of_valid (separable.valid _ (List.getElem_mem inside))).readable _ _ _ _ _
  bounded _ member := separable.bounded member

/-- Every entry finds its data. -/
theorem Separable.extracted (separable : Separable files) :
    (separate hashing files).fileEntries.mapM
        (extracted hashing (separate hashing files).contents) =
      some (files.map plainFile) := by
  rw [mapM_eq_some, separate, List.forall₂_iff_get]
  refine ⟨by rw [List.length_mapIdx, List.length_map], fun i _ inside => ?_⟩
  rw [List.length_map] at inside
  simp only [List.get_eq_getElem, List.getElem_mapIdx, List.getElem_map]
  have few := separable.few
  have limit : MAX_FILE_COUNT.toNat = 1000000 := rfl
  have start : (UInt32.ofNat i).toNat = i := UInt32.toNat_ofNat_of_lt' (by
    have size : UInt32.size = 4294967296 := rfl
    omega)
  have bounded := separable.bounded (List.mem_map_of_mem (List.getElem_mem inside))
  have size : (UInt64.ofNat (files[i].2).length).toNat = (files[i].2).length :=
    UInt64.toNat_ofNat_of_lt' (bounded.trans_lt (by decide))
  have masked : (0 : UInt32) &&& SAFE_PERMISSION_MASK = 0 := by decide
  refine extracted_eq_some.mpr ⟨separable.valid _ (List.getElem_mem inside), files[i].2,
    intactContent_eq_some.mpr ⟨?_, rfl⟩, ?_⟩
  · have one : (1 : UInt32).toNat = 1 := rfl
    rw [fileContent_of_inside]
    · dsimp only [plainEntry]
      rw [start, one, truncateToFileSize]
      dsimp only
      rw [size, List.drop_eq_getElem_cons (by rw [List.length_map]; exact inside),
        List.take_succ_cons, List.take_zero, List.flatten_singleton, List.getElem_map,
        List.take_length]
    · dsimp only [plainEntry]
      rw [start, one, List.length_map]
      exact inside
  · rw [extractedFile, plainEntry, masked]
    rfl

theorem Separable.total (separable : Separable files) :
    totalSize (separate hashing files).contents ≤ MAX_TOTAL_DECOMPRESSED_SIZE :=
  separable.small.trans (by decide)

/-- **One thread extracts the files.** -/
theorem Separable.extractAll_eq {σ : Type} [ProbabilityPredictor σ] (ext : Externals)
    (separable : Separable files) (predictorFactory : σ) :
    (singleThreaded predictorFactory).extractAll ext
        ((separate ext.toHashing files).bytes ext.toHashing) = .ok (files.map plainFile) :=
  separable.wellFormed.extractAll_eq rfl separable.total predictorFactory separable.extracted

end PlainArchive

/-! ## Libraries for reference -/

/-- The first bytes of data, padded to the length of a digest. -/
def paddedDigest (data : Bytes) : Digest :=
  ⟨(data ++ List.replicate 32 0).take 32, by simp⟩

/-- Libraries that are easy to evaluate. -/
def referenceExternals : Externals where
  toCodecs := Router.referenceCodecs
  blake3 := paddedDigest
  keyedHash _ data := paddedDigest data
  crc32 data := UInt32.ofNat data.length
  argon2Params _ _ _ := .ok ()
  argon2id password _ _ _ _ := .ok (paddedDigest password)
  aesGcm := { encrypt := fun _ _ plaintext _ => .ok plaintext
              decrypt := fun _ _ ciphertext _ => some ciphertext }
  chaCha := { encrypt := fun _ _ plaintext _ => .ok plaintext
              decrypt := fun _ _ ciphertext _ => some ciphertext }
  threadPool _ := .ok ()
  embeddedDicts := []

namespace PlainArchive

variable {files : List (String × Bytes)}

/-- An archive with every file in a block of its own. -/
def separateArchive (files : List (String × Bytes)) : Bytes :=
  (separate referenceExternals.toHashing files).bytes referenceExternals.toHashing

/-- What its metadata reads as. -/
def separateMetadata (files : List (String × Bytes)) : ArchiveMetadata :=
  ((separate referenceExternals.toHashing files).layout referenceExternals.toHashing).metadata

theorem Separable.readMetadata_eq (separable : Separable files) :
    readMetadata referenceExternals (separateArchive files) = .ok (separateMetadata files) :=
  readMetadata_eq_ok.mpr (@WellFormed.seekableRead _ referenceExternals separable.wellFormed)

/-- The archive is extracted to the contents of its files. -/
theorem Separable.extraction {σ : Type} [ProbabilityPredictor σ] (separable : Separable files)
    (predictorFactory : σ) :
    (singleThreaded predictorFactory).Extraction referenceExternals (separateArchive files)
      (separateMetadata files) none none (files.map Prod.snd) :=
  @WellFormed.extractionSequential _ referenceExternals _ _ separable.wellFormed rfl
    separable.total predictorFactory

end PlainArchive

end AetherArch
