import AetherArch.Pipeline.PlainArchive
import AetherArch.Pipeline.ThreadAgreement
import AetherArch.Pipeline.WriterTiling
import AetherArch.Pipeline.WrittenContents

/-! # Reading a written archive

Both readers read back what the writer writes, and every block decodes to its content. No limit of
a reader is below what the writer's own limit on its input allows.
-/

namespace AetherArch

/-! ## Scanned files -/

/-- Files as a scan describes them, within the limit on their total size. -/
structure Scanned (hashing : Hashing) {format : FloatFormat}
    (files : List (ScannedFile format)) : Prop where
  sizes : ∀ file ∈ files, file.entry.originalSize.toNat = file.data.length
  infoSizes : ∀ file ∈ files, file.info.size = file.entry.originalSize
  digests : ∀ file ∈ files, file.entry.blake3Hash = hashing.blake3 file.data
  masked : ∀ file ∈ files, file.entry.permissions &&& SAFE_PERMISSION_MASK = file.entry.permissions
  total : (files.map fun file => file.data.length).sum ≤ MAX_TOTAL_INPUT_SIZE

/-- Files whose entries a reader takes, and whose contents their digests tell apart. -/
structure Readable (hashing : Hashing) {format : FloatFormat}
    (files : List (ScannedFile format)) : Prop where
  accepted : ∀ file ∈ files, AcceptedPath file.entry.path
  few : files.length ≤ MAX_FILE_COUNT.toNat
  collisionFree : ∀ first ∈ files, ∀ second ∈ files,
    hashing.blake3 first.data = hashing.blake3 second.data → first.data = second.data

namespace Compressor

/-- What the scan yields is scanned. -/
theorem scanned_of_scanFiles {hashing : Hashing} {format : FloatFormat} {baseDir : UnixPath.Path}
    {inputs : List InputFile} {files : List (ScannedFile format)}
    (success : scanFiles hashing format baseDir inputs 0 = .ok files) :
    Scanned hashing files := by
  obtain ⟨each, total⟩ := scanFiles_spec success
  have within := total (Nat.zero_le _)
  rw [Nat.zero_add] at within
  refine ⟨?_, ?_, ?_, ?_, within⟩
  · intro file member
    obtain ⟨input, -, scanned⟩ := each.exists_left member
    exact scanned.originalSize ((List.single_le_sum (fun _ _ => Nat.zero_le _) _
      (List.mem_map_of_mem member)).trans within)
  · intro file member
    obtain ⟨input, -, data, relPath, -, -, rfl⟩ := each.exists_left member
    rfl
  · intro file member
    obtain ⟨input, -, data, relPath, -, -, rfl⟩ := each.exists_left member
    rfl
  · intro file member
    obtain ⟨input, -, data, relPath, -, -, rfl⟩ := each.exists_left member
    dsimp only [scanFile]
    cases input.mode with
    | none => decide
    | some mode =>
        simp only [Option.map_some, Option.getD_some, UInt32.and_assoc, UInt32.and_self]

end Compressor

/-- Files with one key have one size. -/
theorem Scanned.length_eq_of_fileKey {hashing : Hashing} {format : FloatFormat}
    {files : List (ScannedFile format)} (scanned : Scanned hashing files)
    {first second : Fin files.length}
    (key : Compressor.fileKey (fun idx => (files.get idx).entry) first =
      Compressor.fileKey (fun idx => (files.get idx).entry) second) :
    (files.get first).data.length = (files.get second).data.length := by
  have size : (files.get first).entry.originalSize = (files.get second).entry.originalSize :=
    congrArg Prod.snd key
  have firstSize := scanned.sizes _ (List.get_mem files first)
  have secondSize := scanned.sizes _ (List.get_mem files second)
  rw [← firstSize, ← secondSize, size]

/-- Files with one key have one content, if digests tell contents apart. -/
theorem Scanned.data_eq_of_fileKey {hashing : Hashing} {format : FloatFormat}
    {files : List (ScannedFile format)} (scanned : Scanned hashing files)
    (collisionFree : ∀ first ∈ files, ∀ second ∈ files,
      hashing.blake3 first.data = hashing.blake3 second.data → first.data = second.data)
    {first second : Fin files.length}
    (key : Compressor.fileKey (fun idx => (files.get idx).entry) first =
      Compressor.fileKey (fun idx => (files.get idx).entry) second) :
    (files.get first).data = (files.get second).data := by
  have firstMember : files.get first ∈ files := List.get_mem files first
  have secondMember : files.get second ∈ files := List.get_mem files second
  have digest : (files.get first).entry.blake3Hash = (files.get second).entry.blake3Hash :=
    congrArg Prod.fst key
  rw [scanned.digests _ firstMember, scanned.digests _ secondMember] at digest
  exact collisionFree _ firstMember _ secondMember digest

/-! ## Sums over files -/

/-- A sum over some of the files, none of them twice, is at most the sum over all. -/
theorem sum_owned_le {n : Nat} {α : Type} {owned : List (Fin n × α)}
    (distinct : (owned.map Prod.fst).Nodup) (size : Fin n → Nat) :
    (owned.map fun owner => size owner.1).sum ≤ ∑ idx, size idx := by
  have some : (owned.map fun owner => size owner.1).sum =
      ∑ idx ∈ (owned.map Prod.fst).toFinset, size idx := by
    rw [List.sum_toFinset _ distinct, List.map_map]
    rfl
  rw [some]
  exact Finset.sum_le_sum_of_subset (Finset.subset_univ _)

theorem sum_files {α : Type} (files : List α) (size : α → Nat) :
    ∑ idx : Fin files.length, size files[idx] = (files.map size).sum :=
  Fin.sum_univ_fun_getElem files size

/-! ## Streamed blocks -/

/-- Blocks with their contents, as a stream gives them. -/
def streamedBlocks (blocks : List StoredBlock) (contents : List Bytes) :
    List Decompressor.StreamedBlock :=
  List.zipWith (fun block data => (data, block.header.blockId, block.header.compressedSize)) blocks
    contents

/-- The streamed blocks hold the contents. -/
theorem map_fst_streamedBlocks {blocks : List StoredBlock} {contents : List Bytes}
    (same : blocks.length = contents.length) :
    (streamedBlocks blocks contents).map Prod.fst = contents := by
  rw [streamedBlocks, List.map_zipWith]
  apply List.ext_getElem
  · rw [List.length_zipWith, same, Nat.min_self]
  · intro i _ _
    rw [List.getElem_zipWith]

/-- The streamed total is what the headers claim. -/
theorem streamedTotal_streamedBlocks {blocks : List StoredBlock} {contents : List Bytes}
    (same : blocks.length = contents.length) :
    Decompressor.streamedTotal (streamedBlocks blocks contents) =
      (blocks.map fun block => block.header.compressedSize.toNat).sum := by
  rw [Decompressor.streamedTotal, streamedBlocks, List.map_zipWith]
  congr 1
  apply List.ext_getElem
  · rw [List.length_zipWith, ← same, Nat.min_self, List.length_map]
  · intro i _ _
    rw [List.getElem_zipWith, List.getElem_map]

namespace Compressor

variable {σ : Type} [ProbabilityPredictor σ] {ext : WriterExternals} {compressor : Compressor σ}
  {files : List (ScannedFile ext.arith.double)} {encryption : EncryptionState}
  {baseline : Option Bytes} {usePathPrefixes : Bool} {layout : Layout}
  {written : List WrittenBlock} {owned : List (Fin files.length × List CompressedChunk)}

/-- The contents of written blocks. -/
def blockContents (codecs : Codecs) (baseline : Option Bytes) (written : List WrittenBlock) :
    List Bytes :=
  written.map fun block => block.compressed.content codecs baseline

omit [ProbabilityPredictor σ] in
/-- There is one content for each block. -/
theorem length_blockContents (codecs : Codecs) (baseline : Option Bytes)
    (written : List WrittenBlock) :
    (storedBlocks written).length = (blockContents codecs baseline written).length := by
  rw [length_storedBlocks, blockContents, List.length_map]

section

variable
  (wrote : WroteFrom ext compressor files encryption baseline usePathPrefixes layout written owned)
  (reliable : ext.Reliable)

include wrote reliable

/-- Every written block is faithful. -/
theorem WroteFrom.faithful {block : WrittenBlock} (among : block ∈ written) :
    block.compressed.Faithful ext.toExternals baseline := by
  have made : block.compressed ∈ owned.flatMap Prod.snd :=
    wrote.made ▸ List.mem_map_of_mem among
  obtain ⟨owner, inside, member⟩ := List.mem_flatMap.mp made
  obtain ⟨contentType, source, -, compresses⟩ := wrote.matched owner inside
  exact (compresses.faithful reliable).1 _ member

/-- **Every block holds its content.** -/
theorem WroteFrom.hold : List.Forall₂
    (StoredBlock.Holds ext.toExternals baseline (decryptKey encryption)) (storedBlocks written)
    (blockContents ext.toCodecs baseline written) := by
  rw [List.forall₂_iff_get]
  refine ⟨by rw [length_storedBlocks, blockContents, List.length_map], fun i stored inside => ?_⟩
  rw [length_storedBlocks] at stored
  rw [List.get_eq_getElem, List.get_eq_getElem, getElem_storedBlocks stored]
  simp only [blockContents, List.getElem_map]
  exact holds_stored reliable (wrote.fits i stored)
    (wrote.faithful reliable (List.getElem_mem stored))

end

section

variable
  (wrote : WroteFrom ext compressor files encryption baseline usePathPrefixes layout written owned)
  (partitions : ext.fastCdc.Partitions)

include wrote partitions

/-- **All blocks together are no larger than all files.** -/
theorem WroteFrom.originalSizes_le (scanned : Scanned ext.toHashing files) :
    (written.map fun block => block.compressed.originalSize).sum ≤ MAX_TOTAL_INPUT_SIZE := by
  have sizes : (written.map fun block => block.compressed.originalSize).sum =
      (owned.map fun owner => (owner.2.map CompressedChunk.originalSize).sum).sum := by
    have flat := congrArg (List.map CompressedChunk.originalSize) wrote.made
    rw [List.map_map, List.map_flatMap, List.flatMap_def] at flat
    have total := congrArg List.sum flat
    rw [List.sum_flatten, List.map_map] at total
    exact total
  have each : ∀ owner ∈ owned, (owner.2.map CompressedChunk.originalSize).sum =
      files[owner.1].data.length := by
    intro owner inside
    obtain ⟨contentType, source, key, compresses⟩ := wrote.matched owner inside
    exact (compresses.sum_originalSize partitions).trans (scanned.length_eq_of_fileKey key)
  rw [sizes, List.map_congr_left each]
  refine (sum_owned_le wrote.owners fun idx => files[idx].data.length).trans ?_
  rw [sum_files files fun file => file.data.length]
  exact scanned.total

/-- **There are few blocks** for the size and the number of the files. -/
theorem WroteFrom.length_written_le (bounded : ext.fastCdc.Bounded)
    (scanned : Scanned ext.toHashing files) :
    written.length ≤ MAX_TOTAL_INPUT_SIZE / Chunker.MIN_CHUNK_SIZE + files.length := by
  have count : written.length * Chunker.MIN_CHUNK_SIZE =
      (owned.map fun owner => owner.2.length * Chunker.MIN_CHUNK_SIZE).sum := by
    have lengths := congrArg List.length wrote.made
    rw [List.length_map, List.length_flatMap] at lengths
    rw [lengths, List.sum_map_mul_right]
  have each : ∀ owner ∈ owned, owner.2.length * Chunker.MIN_CHUNK_SIZE ≤
      files[owner.1].data.length + Chunker.MIN_CHUNK_SIZE := by
    intro owner inside
    obtain ⟨contentType, source, key, compresses⟩ := wrote.matched owner inside
    have same : files[source].data.length = files[owner.1].data.length :=
      scanned.length_eq_of_fileKey key
    rw [← compresses.length_eq, ← same]
    exact Chunker.length_fileChunks_le partitions bounded _
  have total : written.length * Chunker.MIN_CHUNK_SIZE ≤
      MAX_TOTAL_INPUT_SIZE + files.length * Chunker.MIN_CHUNK_SIZE := by
    rw [count]
    refine (List.sum_le_sum each).trans ((sum_owned_le wrote.owners fun idx =>
      files[idx].data.length + Chunker.MIN_CHUNK_SIZE).trans ?_)
    rw [sum_files files fun file => file.data.length + Chunker.MIN_CHUNK_SIZE, List.sum_map_add,
      List.map_const', List.sum_replicate, smul_eq_mul]
    exact Nat.add_le_add_right scanned.total _
  have positive : 0 < Chunker.MIN_CHUNK_SIZE := by decide
  rw [← Nat.add_mul_div_right _ _ positive]
  exact (Nat.le_div_iff_mul_le positive).mpr total

end

section

variable
  (wrote : WroteFrom ext compressor files encryption baseline usePathPrefixes layout written owned)

include wrote

/-! ## The parts of the archive -/

theorem WroteFrom.flags : layout.header.flags = compressor.flags usePathPrefixes := by
  rw [wrote.header]
  rfl

theorem WroteFrom.encrypted :
    hasFlag layout.header.flags FLAG_ENCRYPTED = encryption.isSome := by
  rw [wrote.flags, (hasFlag_flags usePathPrefixes).2.2, isSome_encryptionState wrote.keyed]

/-- The entries of the file table are the scanned ones, but for their groups and blocks. -/
theorem WroteFrom.readable_entries (scanned : Scanned ext.toHashing files)
    (accepted : ∀ file ∈ files, AcceptedPath file.entry.path) {entry : FileEntry}
    (among : entry ∈ layout.fileEntries) : entry.Readable := by
  obtain ⟨i, inside, rfl⟩ := List.getElem_of_mem among
  have counted : i < files.length := wrote.entryCount ▸ inside
  obtain ⟨found, lookedUp, describes, -⟩ := wrote.ranges ⟨i, counted⟩
  obtain rfl := Option.some.inj ((List.getElem?_eq_getElem inside).symm.trans lookedUp)
  have member : files[i] ∈ files := List.getElem_mem counted
  obtain ⟨short, safe⟩ := accepted _ member
  rw [describes]
  exact ⟨short, safe, scanned.masked _ member⟩

/-- **There are few groups**, because the files are not larger than the limit. -/
theorem WroteFrom.groups_le (scanned : Scanned ext.toHashing files) :
    layout.solidGroups.length ≤ MAX_SOLID_GROUP_COUNT.toNat := by
  have sizes : Grouper.sizeOfAll (fun idx : Fin files.length => files[idx].info)
      (List.finRange files.length) = (files.map fun file => file.data.length).sum := by
    rw [Grouper.sizeOfAll, ← sum_files files fun file => file.data.length, ← Fin.sum_univ_def]
    refine Finset.sum_congr rfl fun idx _ => ?_
    have member : files[idx] ∈ files := List.getElem_mem idx.2
    rw [scanned.infoSizes _ member, scanned.sizes _ member]
  have inputLimit : MAX_TOTAL_INPUT_SIZE = 8589934592 := rfl
  have groupLimit : Grouper.MAX_SOLID_GROUP_SIZE.toNat = 268435456 := rfl
  have types : ContentType.ascending.length = 7 := rfl
  have countLimit : MAX_SOLID_GROUP_COUNT.toNat = 100000 := rfl
  have total := scanned.total
  have bound := @Grouper.length_groupFiles_le _ _ (fun idx : Fin files.length => files[idx].info)
    (by rw [sizes]; omega)
  rw [sizes, ← wrote.groups, types, groupLimit] at bound
  omega

/-- The blocks are numbered from zero. -/
theorem WroteFrom.distinct : (layout.blockIndex.map BlockIndexEntry.blockId).Nodup := by
  have small := wrote.blockCount ▸ layout.header.blockCount.toNat_lt
  have ids : layout.blockIndex.map BlockIndexEntry.blockId =
      (List.range written.length).map UInt32.ofNat := by
    rw [wrote.blockIndex, List.map_map]
    change (indexFrom ext.toHashing _ (storedBlocks written)).map BlockIndexEntry.blockId = _
    rw [map_blockId_indexFrom]
    apply List.ext_getElem
    · simp only [List.length_map, length_storedBlocks, List.length_range]
    · intro i inside _
      rw [List.length_map, length_storedBlocks] at inside
      rw [List.getElem_map, List.getElem_map, List.getElem_range, getElem_storedBlocks inside]
      rfl
  rw [ids]
  refine List.nodup_range.map_on fun i inside j insideJ equal => ?_
  have values := congrArg UInt32.toNat equal
  rwa [UInt32.toNat_ofNat_of_lt' ((List.mem_range.mp inside).trans small),
    UInt32.toNat_ofNat_of_lt' ((List.mem_range.mp insideJ).trans small)] at values

/-- The flags announce the records behind the header, whatever it counts. -/
theorem WroteFrom.readable_of_counts {header : ArchiveHeader}
    (flags : header.flags = layout.header.flags)
    (counts : ArchiveHeader.checkCounts header.fileCount header.blockCount header.solidGroupCount =
      .ok ()) :
    { layout.toFrontMatter with header := header }.Readable where
  counts := counts
  encrypted := by
    dsimp only
    rw [flags, wrote.encrypted, wrote.front]
    exact (Option.isSome_map ..).symm
  hasDictionary := by
    dsimp only
    rw [flags, wrote.flags, (hasFlag_flags usePathPrefixes).2.1, wrote.front]
    exact (Option.isSome_map ..).symm
  encryption := by
    rw [wrote.front]
    intro header member
    have keyed := wrote.keyed
    rw [encryptionState] at keyed
    split at keyed
    · cases keyed
      cases member
    · simp only [Result.bind_eq_ok, Result.pure_eq_ok] at keyed
      obtain ⟨-, -, key, -, rfl⟩ := keyed
      cases member
      have costs : validateArgon2Params Crypto.DEFAULT_ARGON2_M_COST
          Crypto.DEFAULT_ARGON2_T_COST Crypto.DEFAULT_ARGON2_P_COST = .ok () := by decide
      exact ⟨rfl, costs⟩

/-- The written tables can be read. -/
theorem WroteFrom.readable_front (partitions : ext.fastCdc.Partitions)
    (bounded : ext.fastCdc.Bounded) (scanned : Scanned ext.toHashing files)
    (few : files.length ≤ MAX_FILE_COUNT.toNat) : layout.toFrontMatter.Readable := by
  refine wrote.readable_of_counts rfl ?_
  have blocks := wrote.length_written_le partitions bounded scanned
  have perSize : MAX_TOTAL_INPUT_SIZE / Chunker.MIN_CHUNK_SIZE = 524288 := rfl
  have fileLimit : MAX_FILE_COUNT.toNat = 1000000 := rfl
  have blockLimit : MAX_BLOCK_COUNT.toNat = 10000000 := rfl
  refine ArchiveHeader.checkCounts_eq_ok.mpr ⟨?_, ?_, ?_⟩
  · exact UInt32.le_iff_toNat_le.mpr (wrote.fileCount.trans_le few)
  · refine UInt32.le_iff_toNat_le.mpr (wrote.blockCount.trans_le ?_)
    omega
  · exact UInt32.le_iff_toNat_le.mpr (wrote.groupCount.trans_le (wrote.groups_le scanned))

/-- **The archive is its parts one after the other**, and a reader takes each of them. -/
theorem WroteFrom.tiled (partitions : ext.fastCdc.Partitions) (bounded : ext.fastCdc.Bounded)
    (scanned : Scanned ext.toHashing files)
    (accepted : ∀ file ∈ files, AcceptedPath file.entry.path)
    (few : files.length ≤ MAX_FILE_COUNT.toNat)
    (addressable : (layout.archive ext.toHashing).length < 2 ^ 63) :
    layout.Tiled ext.toHashing where
  readable := wrote.readable_front partitions bounded scanned few
  written := by
    refine ⟨?_, fun entry among => wrote.readable_entries scanned accepted among⟩
    rw [wrote.flags, (hasFlag_flags usePathPrefixes).1]
    exact wrote.fileTable
  fileCount := wrote.entryCount.trans wrote.fileCount.symm
  groupCount := wrote.groupCount.symm
  blockCount := by
    rw [wrote.blockCount, wrote.blockIndex, List.length_map, length_indexFrom,
      length_storedBlocks]
  fileTableOffset := wrote.fileTableOffset
  blockIndexOffset := wrote.blockIndexOffset
  distinct := wrote.distinct
  fits := addressable.trans (by decide)

/-! ## Decoding -/

/-- The written index places the blocks. -/
theorem WroteFrom.indexes (addressable : (layout.archive ext.toHashing).length < 2 ^ 63) :
    Indexes ext.toHashing (bodyOffset ext.toHashing layout) (storedBlocks written)
      layout.blockIndex := by
  rw [wrote.blockIndex]
  refine (indexes_indexFrom ?_).recorded _
  rw [← wrote.body]
  refine lt_of_le_of_lt ?_ (addressable.trans (by decide))
  simp only [Layout.archive, Layout.afterTables, bodyOffset, List.length_append, Nat.add_assoc]
  exact Nat.add_le_add_left (Nat.add_le_add_left (Nat.le_add_right ..) _) _

/-- The blocks stand where the tables end. -/
theorem WroteFrom.stand : (layout.archive ext.toHashing).drop (bodyOffset ext.toHashing layout) =
    (storedBlocks written).flatMap (StoredBlock.bytes ext.toHashing) ++
      (layout.indexBytes ++ layout.footer.writeTo ext.toHashing) := by
  rw [Layout.archive, Layout.afterTables, ← List.append_assoc, bodyOffset, ← List.length_append,
    List.drop_left, wrote.body]

/-- **All blocks decode to their contents.** -/
theorem WroteFrom.decodeAll_eq (reliable : ext.Reliable)
    (addressable : (layout.archive ext.toHashing).length < 2 ^ 63) :
    decodeAll ext.toExternals (layout.archive ext.toHashing) baseline (decryptKey encryption)
      layout.blockIndex = some (blockContents ext.toCodecs baseline written) :=
  (wrote.indexes addressable).decodeAll_eq (wrote.hold reliable) wrote.stand

/-- The contents stay within the total limit. -/
theorem WroteFrom.totalSize_le (reliable : ext.Reliable) (scanned : Scanned ext.toHashing files) :
    totalSize (blockContents ext.toCodecs baseline written) ≤ MAX_TOTAL_DECOMPRESSED_SIZE := by
  have sizes : (blockContents ext.toCodecs baseline written).map List.length =
      written.map fun block => block.compressed.originalSize := by
    rw [blockContents, List.map_map]
    exact List.map_congr_left fun block among => (wrote.faithful reliable among).size
  rw [totalSize, sizes]
  exact wrote.originalSizes_le reliable.partitions scanned

/-- The payloads of all blocks, with what a reader adds for each. -/
theorem WroteFrom.payloads_le (reliable : ext.Reliable) (scanned : Scanned ext.toHashing files)
    (few : files.length ≤ MAX_FILE_COUNT.toNat) :
    (written.map fun block => BLOCK_HEADER_SIZE + block.payload.length + BLOCK_TRAILER_SIZE).sum ≤
      MAX_TOTAL_COMPRESSED_READ_SIZE := by
  have headerSize : BLOCK_HEADER_SIZE = 28 := rfl
  have trailerSize : BLOCK_TRAILER_SIZE = 36 := rfl
  have sealing : Crypto.NONCE_SIZE + Crypto.TAG_SIZE = 28 := rfl
  have perSize : MAX_TOTAL_INPUT_SIZE / Chunker.MIN_CHUNK_SIZE = 524288 := rfl
  have fileLimit : MAX_FILE_COUNT.toNat = 1000000 := rfl
  have inputLimit : MAX_TOTAL_INPUT_SIZE = 8589934592 := rfl
  have readLimit : MAX_TOTAL_COMPRESSED_READ_SIZE = 17179869184 := rfl
  have each : ∀ block ∈ written, BLOCK_HEADER_SIZE + block.payload.length + BLOCK_TRAILER_SIZE ≤
      block.compressed.originalSize + 92 := by
    intro block among
    obtain ⟨i, inside, rfl⟩ := List.getElem_of_mem among
    have payload := (maybeDecryptPayload_blockData reliable (wrote.fits i inside).payload).2.2
    have shorter := (wrote.faithful reliable among).shorter
    omega
  have sizes := wrote.originalSizes_le reliable.partitions scanned
  have count := wrote.length_written_le reliable.partitions reliable.bounded scanned
  refine (List.sum_le_sum each).trans ?_
  rw [List.sum_map_add, List.map_const', List.sum_replicate, smul_eq_mul]
  omega

/-- So do the sizes in the index. -/
theorem WroteFrom.indexedTotal_le (reliable : ext.Reliable)
    (scanned : Scanned ext.toHashing files) (few : files.length ≤ MAX_FILE_COUNT.toNat)
    (addressable : (layout.archive ext.toHashing).length < 2 ^ 63) :
    indexedTotal layout.blockIndex ≤ MAX_TOTAL_COMPRESSED_READ_SIZE := by
  have sizes : layout.blockIndex.map (fun entry => entry.compressedSize.toNat) =
      written.map fun block => BLOCK_HEADER_SIZE + block.payload.length + BLOCK_TRAILER_SIZE := by
    have length : layout.blockIndex.length = written.length := by
      rw [wrote.blockIndex, List.length_map, length_indexFrom, length_storedBlocks]
    apply List.ext_getElem
    · rw [List.length_map, List.length_map, length]
    · intro i inside counted
      rw [List.length_map] at inside counted
      obtain ⟨entry, lookedUp, spans⟩ :=
        wrote.spans addressable ((length_storedBlocks written).symm ▸ counted)
      obtain rfl := Option.some.inj ((List.getElem?_eq_getElem inside).symm.trans lookedUp)
      rw [List.getElem_map, List.getElem_map, spans.size, getElem_storedBlocks counted]
      rfl
  rw [indexedTotal, sizes]
  exact wrote.payloads_le reliable scanned few

/-- So do the payloads. -/
theorem WroteFrom.payloadTotal_le (reliable : ext.Reliable)
    (scanned : Scanned ext.toHashing files) (few : files.length ≤ MAX_FILE_COUNT.toNat)
    (addressable : (layout.archive ext.toHashing).length < 2 ^ 63) :
    payloadTotal ext.toExternals (layout.archive ext.toHashing) (decryptKey encryption)
      layout.blockIndex ≤ MAX_TOTAL_COMPRESSED_READ_SIZE := by
  refine ((wrote.indexes addressable).payloadTotal_le (wrote.hold reliable) wrote.stand ?_).trans ?_
  · intro block among plain decrypted
    obtain ⟨i, inside, rfl⟩ := List.getElem_of_mem among
    rw [length_storedBlocks] at inside
    rw [getElem_storedBlocks inside] at decrypted ⊢
    obtain ⟨opens, shorter, -⟩ :=
      maybeDecryptPayload_blockData reliable (wrote.fits i inside).payload
    obtain rfl := Except.ok.inj (opens.symm.trans decrypted)
    exact shorter
  · rw [map_payload_storedBlocks]
    refine le_trans (List.sum_le_sum fun block _ => ?_)
      (wrote.payloads_le reliable scanned few)
    exact (Nat.le_add_left ..).trans (Nat.le_add_right ..)

/-- So does the streamed total. -/
theorem WroteFrom.streamedTotal_le (reliable : ext.Reliable)
    (scanned : Scanned ext.toHashing files) (few : files.length ≤ MAX_FILE_COUNT.toNat) :
    Decompressor.streamedTotal (streamedBlocks (storedBlocks written)
      (blockContents ext.toCodecs baseline written)) ≤ MAX_TOTAL_COMPRESSED_READ_SIZE := by
  have sizes : (storedBlocks written).map (fun block => block.header.compressedSize.toNat) =
      written.map fun block => block.payload.length := by
    rw [← map_payload_storedBlocks]
    refine List.map_congr_left fun block among => ?_
    obtain ⟨i, inside, rfl⟩ := List.getElem_of_mem among
    rw [length_storedBlocks] at inside
    rw [getElem_storedBlocks inside]
    exact (wrote.fits i inside).compressedSize
  rw [streamedTotal_streamedBlocks (length_blockContents ..), sizes]
  refine le_trans (List.sum_le_sum fun block _ => ?_) (wrote.payloads_le reliable scanned few)
  exact (Nat.le_add_left ..).trans (Nat.le_add_right ..)

/-! ## Files -/

/-- **The blocks of a file hold its content**, also when they are those of another file. -/
theorem WroteFrom.fileContent_eq (reliable : ext.Reliable) (scanned : Scanned ext.toHashing files)
    (readable : Readable ext.toHashing files) (idx : Fin files.length) :
    ∃ entry, layout.fileEntries[idx.1]? = some entry ∧
      Describes (files.get idx).entry entry ∧
      fileContent entry (blockContents ext.toCodecs baseline written) =
        some (files.get idx).data := by
  obtain ⟨entry, lookedUp, describes, group, groupAmong, numbered, chunks,
    ⟨type, source, key, compresses⟩, range⟩ := wrote.ranges idx
  have sourceData := scanned.data_eq_of_fileKey readable.collisionFree key
  have size : entry.originalSize.toNat = files[idx].data.length := by
    rw [describes]
    exact scanned.sizes _ (List.getElem_mem idx.2)
  have groupEnd : group.firstBlockIdx.toNat + group.blockCount.toNat ≤ written.length :=
    wrote.consecutive.ends groupAmong
  have inside : entry.chunkStartIdx.toNat + entry.chunkCount.toNat ≤
      (blockContents ext.toCodecs baseline written).length := by
    rw [blockContents, List.length_map]
    exact range.ends.trans groupEnd
  have blocks : ((blockContents ext.toCodecs baseline written).drop
      entry.chunkStartIdx.toNat).take entry.chunkCount.toNat =
        chunks.map (CompressedChunk.content ext.toCodecs baseline) := by
    rw [blockContents, ← List.map_drop, ← List.map_take, ← range.chunks, List.map_map]
    rfl
  have restored : (chunks.map (CompressedChunk.content ext.toCodecs baseline)).flatten =
      files[idx].data := (compresses.faithful reliable).2.trans sourceData
  refine ⟨entry, lookedUp, describes, ?_⟩
  rw [fileContent_of_inside inside, blocks, restored, truncateToFileSize, size, List.take_length,
    List.get_eq_getElem, Fin.getElem_fin]

/-- The reader's key and dictionary are the writer's. -/
theorem WroteFrom.unlocked {decompressor : Decompressor σ}
    (configured : ConfiguredFor compressor decompressor) :
    decompressor.Unlocked ext.toExternals layout.header.flags layout.encryptionHeader
      layout.dictionaryHash (decryptKey encryption) baseline := by
  rw [wrote.front]
  exact configured.unlocked wrote.keyed wrote.coded wrote.encrypted

/-- **Streaming gets all blocks** with their contents. -/
theorem WroteFrom.streams (reliable : ext.Reliable) :
    ∃ rest, ByteReader.readMany
      (decompressBlockStreaming ext.toExternals baseline (decryptKey encryption))
      layout.header.blockCount.toNat (layout.afterTables ext.toHashing) =
        .ok (streamedBlocks (storedBlocks written) (blockContents ext.toCodecs baseline written),
          rest) := by
  have read := streams_blocks (wrote.hold reliable)
    (layout.indexBytes ++ layout.footer.writeTo ext.toHashing)
  rw [length_storedBlocks, ← wrote.blockCount, ← wrote.body] at read
  exact ⟨_, read⟩

end

end Compressor

end AetherArch
