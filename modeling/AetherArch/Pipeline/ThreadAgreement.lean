import AetherArch.Pipeline.OneBlockArchive

/-! # Any number of threads

What an operation does on one thread and on several. Verification gives every block its own
verdict and counts it once. The two extraction strategies decode the same blocks, but hold
different sizes against the limit on compressed data: the ones the index records, or the
payloads they read.
-/

namespace AetherArch

namespace Decompressor

variable {σ : Type}

/-- The decompressor with another number of threads. -/
def withMaxThreads (self : Decompressor σ) (maxThreads : Nat) : Decompressor σ :=
  { self with maxThreads := maxThreads }

/-- A pool that is always built changes nothing. -/
theorem onPool_eq_ok {ext : Externals} (pools : ∀ threads, ext.threadPool threads = .ok ())
    (self : Decompressor σ) (what : String) : self.onPool ext what = .ok () := by
  rw [onPool]
  split
  · rfl
  · rw [pools]

variable [ProbabilityPredictor σ] {self : Decompressor σ} {ext : Externals} {archive : Bytes}
  {metadata : ArchiveMetadata} {baseline : Option Bytes} {key : Option DecryptKey}

/-! ## Extraction -/

/-- What several threads accept, given threads. -/
theorem parallel_eq_ok (pools : ∀ threads, ext.threadPool threads = .ok ()) (threads : Nat)
    {blocks : List (Option Bytes)} :
    (self.withMaxThreads threads).decompressBlocksParallel ext archive metadata key =
        .ok blocks ↔
      ∃ baseline decoded, self.decodeBaselineFor ext metadata.dictionaryHash = .ok baseline ∧
        decodeAll ext archive baseline key metadata.blockIndex = some decoded ∧
        blocks = decoded.map some ∧
        payloadTotal ext archive key metadata.blockIndex ≤ MAX_TOTAL_COMPRESSED_READ_SIZE ∧
        totalSize decoded ≤ MAX_TOTAL_DECOMPRESSED_SIZE := by
  rw [decompressBlocksParallel_eq_ok]
  constructor
  · rintro ⟨baseline, decoded, resolved, -, accepted⟩
    exact ⟨baseline, decoded, resolved, accepted⟩
  · rintro ⟨baseline, decoded, resolved, accepted⟩
    exact ⟨baseline, decoded, resolved, onPool_eq_ok pools _ _, accepted⟩

/-- The sizes in the index and the payloads are on the same side of the limit on compressed
data, if nothing else stops an extraction. -/
def SameSideOfLimit (self : Decompressor σ) (ext : Externals) (archive : Bytes)
    (metadata : ArchiveMetadata) (key : Option DecryptKey) : Prop :=
  ∀ baseline decoded, self.decodeBaselineFor ext metadata.dictionaryHash = .ok baseline →
    decodeAll ext archive baseline key metadata.blockIndex = some decoded →
    totalSize decoded ≤ MAX_TOTAL_DECOMPRESSED_SIZE →
    (indexedTotal metadata.blockIndex ≤ MAX_TOTAL_COMPRESSED_READ_SIZE ↔
      payloadTotal ext archive key metadata.blockIndex ≤ MAX_TOTAL_COMPRESSED_READ_SIZE)

/-- **One thread and several accept the same blocks** exactly when both sums of compressed sizes
are on the same side of the limit. -/
theorem strategies_agree_iff (pools : ∀ threads, ext.threadPool threads = .ok ())
    (self : Decompressor σ) (archive : Bytes) (metadata : ArchiveMetadata)
    (key : Option DecryptKey) :
    (∀ threads blocks,
      self.decompressBlocksSequential ext archive metadata key = .ok blocks ↔
        (self.withMaxThreads threads).decompressBlocksParallel ext archive metadata key =
          .ok blocks) ↔
      self.SameSideOfLimit ext archive metadata key := by
  constructor
  · intro agree baseline decoded resolved decodes decompressed
    have accepted := agree self.maxThreads (decoded.map some)
    rw [decompressBlocksSequential_eq_ok, parallel_eq_ok pools] at accepted
    constructor
    · intro indexed
      obtain ⟨_, _, -, -, -, payloads, -⟩ :=
        accepted.mp ⟨baseline, decoded, resolved, decodes, rfl, indexed, decompressed⟩
      exact payloads
    · intro payloads
      obtain ⟨_, _, -, -, -, indexed, -⟩ :=
        accepted.mpr ⟨baseline, decoded, resolved, decodes, rfl, payloads, decompressed⟩
      exact indexed
  · intro sameSide threads blocks
    rw [decompressBlocksSequential_eq_ok, parallel_eq_ok pools]
    constructor
    · rintro ⟨baseline, decoded, resolved, decodes, same, indexed, decompressed⟩
      have payloads := (sameSide baseline decoded resolved decodes decompressed).mp indexed
      exact ⟨baseline, decoded, resolved, decodes, same, payloads, decompressed⟩
    · rintro ⟨baseline, decoded, resolved, decodes, same, payloads, decompressed⟩
      have indexed := (sameSide baseline decoded resolved decodes decompressed).mpr payloads
      exact ⟨baseline, decoded, resolved, decodes, same, indexed, decompressed⟩

/-! ## Verification -/

/-- How verification comes to its report, whatever the number of threads. -/
theorem verify_eq (pools : ∀ threads, ext.threadPool threads = .ok ()) (self : Decompressor σ)
    (archive : Bytes) :
    self.verify ext archive = (do
      let metadata ← readMetadata ext archive
      let key ← self.decryptKeyOf ext metadata
      let baseline ← self.decodeBaselineFor ext metadata.dictionaryHash
      pure (filePhase ext.toHashing metadata
        (metadata.blockIndex.map (verdict ext archive baseline key))
        (blockPhase metadata (metadata.blockIndex.map fun entry =>
          decompressBlock ext archive entry baseline key)))) := by
  rw [verify]
  refine congrArg _ (funext fun metadata => congrArg _ (funext fun key => congrArg _
    (funext fun baseline => ?_)))
  obtain ⟨decoded, success⟩ : ∃ decoded,
      self.verifyBlocks ext archive metadata baseline key = .ok decoded :=
    verifyBlocks_isOk pools metadata
  have verdicts := verifyBlocks_verdicts success
  have sequential : (metadata.blockIndex.map fun entry =>
      decompressBlock ext archive entry baseline key).map Except.toOption =
      metadata.blockIndex.map (verdict ext archive baseline key) := by
    rw [List.map_map]
    rfl
  rw [success, ← blockPhase_congr (verdicts.trans sequential.symm), ← verdicts]
  rfl

/-- Every block is counted once, as verified or as corrupted. -/
theorem blockPhase_counts (metadata : ArchiveMetadata)
    (decode : BlockIndexEntry → Result Bytes) :
    let phase := blockPhase metadata (metadata.blockIndex.map decode)
    phase.verifiedBlocks + phase.corruptedBlocks.length = phase.totalBlocks := by
  intro phase
  have verified : phase.verifiedBlocks =
      metadata.blockIndex.countP fun entry => (decode entry).isOk := List.countP_map
  have corrupted : phase.corruptedBlocks.length =
      metadata.blockIndex.countP fun entry => !(decode entry).isOk := by
    rw [List.countP_eq_length_filter, ← List.length_map BlockIndexEntry.blockId,
      ← corruptedBlockIds_map]
    rfl
  have total := List.length_eq_countP_add_countP (fun entry => (decode entry).isOk)
    (l := metadata.blockIndex)
  have whole : phase.totalBlocks = metadata.blockIndex.length := rfl
  rw [verified, corrupted, whole]
  simpa using total.symm

/-- With unique ids, a block is reported exactly when it fails to decode. -/
theorem mem_corruptedBlockIds {blockIndex : List BlockIndexEntry}
    {decode : BlockIndexEntry → Result Bytes}
    (distinct : (blockIndex.map BlockIndexEntry.blockId).Nodup) {entry : BlockIndexEntry}
    (member : entry ∈ blockIndex) :
    entry.blockId ∈ corruptedBlockIds blockIndex (blockIndex.map decode) ↔
      (decode entry).isOk = false := by
  rw [corruptedBlockIds_map, List.mem_map]
  constructor
  · rintro ⟨other, failed, sameId⟩
    obtain ⟨otherMember, failed⟩ := List.mem_filter.mp failed
    have same := List.inj_on_of_nodup_map distinct otherMember member sameId
    rw [same] at failed
    exact Bool.eq_false_of_not_eq_true' failed
  · intro failed
    refine ⟨entry, List.mem_filter.mpr ⟨member, ?_⟩, rfl⟩
    rw [failed]
    rfl

/-- **Verification reports the blocks that fail to decode**, on any number of threads. -/
theorem verify_reportsBlocks (pools : ∀ threads, ext.threadPool threads = .ok ())
    (self : Decompressor σ) {archive : Bytes} {metadata : ArchiveMetadata}
    (read : readMetadata ext archive = .ok metadata) :
    (∀ threads, (self.withMaxThreads threads).verify ext archive = self.verify ext archive) ∧
      ∀ key baseline, self.decryptKeyOf ext metadata = .ok key →
        self.decodeBaselineFor ext metadata.dictionaryHash = .ok baseline →
        ∃ phase blocks, self.verify ext archive =
            .ok (filePhase ext.toHashing metadata blocks phase) ∧
          phase.totalBlocks = metadata.blockIndex.length ∧
          phase.verifiedBlocks + phase.corruptedBlocks.length = phase.totalBlocks ∧
          ∀ entry ∈ metadata.blockIndex, entry.blockId ∈ phase.corruptedBlocks ↔
            (decompressBlock ext archive entry baseline key).isOk = false := by
  refine ⟨fun threads => ?_, fun key baseline derived resolved => ?_⟩
  · rw [verify_eq pools, verify_eq pools]
    rfl
  · have distinct :=
      (checkUniqueIds_eq_ok.mp (readMetadata_eq_ok.mp read).uniqueIds).1
    refine ⟨_, metadata.blockIndex.map (verdict ext archive baseline key), ?_, rfl,
      blockPhase_counts metadata fun entry => decompressBlock ext archive entry baseline key,
      fun entry member => mem_corruptedBlockIds distinct member⟩
    rw [verify_eq pools, read, Result.ok_bind, derived, Result.ok_bind, resolved, Result.ok_bind]
    rfl

end Decompressor

/-! ## Empty blocks -/

namespace PlainArchive

open Decompressor

/-- Blocks without data, with a compressed size recorded for each. -/
def emptyBlocks (count : Nat) (recorded : UInt32) : PlainArchive where
  fileEntries := []
  contents := List.replicate count []
  record _ := recorded

/-- A few empty blocks are well formed. -/
theorem emptyBlocks_wellFormed {count : Nat} (recorded : UInt32)
    (few : count ≤ MAX_BLOCK_COUNT.toNat) : (emptyBlocks count recorded).WellFormed where
  files := Nat.zero_le _
  contents := by
    rw [emptyBlocks, List.length_replicate]
    exact few
  readable _ member := nomatch member
  bounded data member := by
    rw [List.eq_of_mem_replicate member]
    exact Nat.zero_le _

/-- The index claims its recorded size for each block. -/
theorem indexedTotal_emptyBlocks (hashing : Hashing) (count : Nat) (recorded : UInt32) :
    indexedTotal ((emptyBlocks count recorded).index hashing) = count * recorded.toNat := by
  have sizes : ((emptyBlocks count recorded).index hashing).map
      (fun entry => entry.compressedSize.toNat) = List.replicate count recorded.toNat := by
    rw [List.eq_replicate_iff, List.length_map, length_index, emptyBlocks, List.length_replicate]
    refine ⟨rfl, fun size member => ?_⟩
    obtain ⟨_, inside, rfl⟩ := List.mem_map.mp member
    obtain ⟨_, -, rfl⟩ := List.mem_map.mp inside
    rfl
  rw [indexedTotal, sizes, List.sum_replicate, smul_eq_mul]

/-- Empty blocks decode to nothing. -/
theorem totalSize_emptyBlocks (count : Nat) (recorded : UInt32) :
    totalSize (emptyBlocks count recorded).contents = 0 := by
  rw [totalSize, emptyBlocks, List.map_replicate, List.sum_replicate]
  rfl

/-- The archive and the metadata it reads as. -/
def emptyArchive (count : Nat) (recorded : UInt32) : Bytes :=
  (emptyBlocks count recorded).bytes referenceExternals.toHashing

def emptyMetadata (count : Nat) (recorded : UInt32) : ArchiveMetadata :=
  ((emptyBlocks count recorded).layout referenceExternals.toHashing).metadata

/-- The metadata of the archive is read back. -/
theorem readMetadata_emptyArchive {count : Nat} (recorded : UInt32)
    (few : count ≤ MAX_BLOCK_COUNT.toNat) :
    readMetadata referenceExternals (emptyArchive count recorded) =
      .ok (emptyMetadata count recorded) :=
  readMetadata_eq_ok.mpr
    (@WellFormed.seekableRead _ referenceExternals (emptyBlocks_wellFormed recorded few))

/-- The payloads of the archive are empty. -/
theorem payloadTotal_emptyArchive {count : Nat} (recorded : UInt32)
    (few : count ≤ MAX_BLOCK_COUNT.toNat) :
    payloadTotal referenceExternals (emptyArchive count recorded) none
      (emptyMetadata count recorded).blockIndex = 0 :=
  (@WellFormed.payloadTotal_eq _ referenceExternals (emptyBlocks_wellFormed recorded few)).trans
    (totalSize_emptyBlocks count recorded)

/-- Small sizes recorded for the blocks are on the same side of the limit. -/
theorem strategies_agree_small :
    readMetadata referenceExternals (emptyArchive 2 7) = .ok (emptyMetadata 2 7) ∧
      ∀ threads blocks,
        (singleThreaded Order0Model.new).decompressBlocksSequential referenceExternals
            (emptyArchive 2 7) (emptyMetadata 2 7) none = .ok blocks ↔
          ((singleThreaded Order0Model.new).withMaxThreads threads).decompressBlocksParallel
            referenceExternals (emptyArchive 2 7) (emptyMetadata 2 7) none = .ok blocks := by
  have few : 2 ≤ MAX_BLOCK_COUNT.toNat := by decide
  refine ⟨readMetadata_emptyArchive 7 few, (strategies_agree_iff (fun _ => rfl) _ _ _ none).mpr ?_⟩
  intro baseline decoded _ _ _
  rw [payloadTotal_emptyArchive 7 few]
  refine iff_of_true ?_ (Nat.zero_le _)
  exact (indexedTotal_emptyBlocks _ 2 7).trans_le (by decide)

/-- Five empty blocks of which the index records the largest compressed size: several threads
decode them, one thread refuses them. -/
theorem strategies_disagree :
    readMetadata referenceExternals (emptyArchive 5 0xFFFFFFFF) =
        .ok (emptyMetadata 5 0xFFFFFFFF) ∧
      (∃ blocks, ((singleThreaded Order0Model.new).withMaxThreads 4).decompressBlocksParallel
        referenceExternals (emptyArchive 5 0xFFFFFFFF) (emptyMetadata 5 0xFFFFFFFF) none =
          .ok blocks) ∧
      ∀ blocks, (singleThreaded Order0Model.new).decompressBlocksSequential referenceExternals
        (emptyArchive 5 0xFFFFFFFF) (emptyMetadata 5 0xFFFFFFFF) none ≠ .ok blocks := by
  have few : 5 ≤ MAX_BLOCK_COUNT.toNat := by decide
  refine ⟨readMetadata_emptyArchive _ few, ⟨_, (parallel_eq_ok (fun _ => rfl) 4).mpr
    ⟨none, _, rfl, (emptyBlocks_wellFormed _ few).decodeAll_eq, rfl, ?_, ?_⟩⟩, ?_⟩
  · rw [payloadTotal_emptyArchive _ few]
    exact Nat.zero_le _
  · rw [totalSize_emptyBlocks]
    exact Nat.zero_le _
  · intro blocks success
    obtain ⟨_, _, -, -, -, indexed, -⟩ := decompressBlocksSequential_eq_ok.mp success
    have recorded := (indexedTotal_emptyBlocks referenceExternals.toHashing 5 0xFFFFFFFF).symm
    exact absurd (recorded.trans_le indexed) (by decide)

end PlainArchive

/-! ## A corrupt block -/

namespace OneBlockArchive

open Decompressor

/-- A file whose block stores one byte but claims two. -/
def corrupt : OneBlockArchive where
  method := .store
  payload := [7]
  size := 2
  content := [7, 7]

/-- Verification reports the corrupt block, whatever the number of threads. -/
theorem verify_reportsBlocks_corrupt :
    let archive := corrupt.bytes referenceExternals.toHashing
    let metadata := (corrupt.layout referenceExternals.toHashing).metadata
    (∀ threads, ((singleThreaded Order0Model.new).withMaxThreads threads).verify
        referenceExternals archive =
      (singleThreaded Order0Model.new).verify referenceExternals archive) ∧
      ∃ phase blocks, (singleThreaded Order0Model.new).verify referenceExternals archive =
          .ok (filePhase referenceExternals.toHashing metadata blocks phase) ∧
        phase.totalBlocks = 1 ∧ phase.verifiedBlocks + phase.corruptedBlocks.length = 1 ∧
        (∀ entry ∈ metadata.blockIndex, entry.blockId ∈ phase.corruptedBlocks ↔
          (decompressBlock referenceExternals archive entry none none).isOk = false) ∧
        0 ∈ phase.corruptedBlocks := by
  intro archive metadata
  have bounded : corrupt.Bounded := ⟨by decide, by decide⟩
  obtain ⟨same, reports⟩ := verify_reportsBlocks (fun _ => rfl) (singleThreaded Order0Model.new)
    (@Bounded.readMetadata_eq _ referenceExternals bounded)
  obtain ⟨phase, blocks, report, total, counts, exactly⟩ := reports none none rfl rfl
  have fails : (decompressBlock referenceExternals archive
      (corrupt.indexEntry referenceExternals.toHashing) none none).isOk = false := by
    obtain ⟨text, failing⟩ := @Bounded.decompressBlock_eq_error _ referenceExternals bounded
    rw [failing none _ rfl]
    rfl
  exact ⟨same, phase, blocks, report, total, counts.trans total, exactly,
    (exactly _ (List.mem_singleton_self _)).mpr fails⟩

end OneBlockArchive

end AetherArch
