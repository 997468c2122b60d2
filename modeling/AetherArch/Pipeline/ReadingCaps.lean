import AetherArch.Pipeline.MemoryCaps
import AetherArch.Pipeline.StreamVerification

/-! # Which operations keep the caps

Every extraction holds at most a limit and one block, and a verification holds what the blocks of
the archive sum to. Parallel and streaming extraction stop with an error when the blocks sum past a
limit; the other operations go on.
-/

namespace AetherArch

open Decompressor

/-- The bytes of several blocks, as payloads and decoded. -/
structure Totals where
  payloads : Nat
  decoded : Nat

/-- Whether blocks sum up to at most the limits. -/
structure Totals.Within (totals : Totals) : Prop where
  payloads : totals.payloads ≤ MAX_TOTAL_COMPRESSED_READ_SIZE
  decoded : totals.decoded ≤ MAX_TOTAL_DECOMPRESSED_SIZE

/-- An operation that reads the blocks of an archive. -/
inductive ReadingOperation where
  | extractAll
  | extractAllStreaming
  | extractFile (filePath : String)
  | verify
  | verifyStreaming

section

variable (ext : Externals)

/-- The totals of blocks found by an index. -/
def seekTotals (archive : Bytes) (baseline : Option Bytes) (key : Option DecryptKey)
    (entries : List BlockIndexEntry) : Totals where
  payloads := payloadTotal ext archive key entries
  decoded := decodedTotal ext archive baseline key entries

/-- The parts of a block in a stream: its header, and its payload when it can be decrypted. -/
def readStreamedBlock (key : Option DecryptKey) : Reader (BlockHeader × Option Bytes) := do
  let header ← BlockHeader.readFrom ext.toHashing
  ByteReader.lift (checkStreamedSizes header)
  let payload ← Reader.readExact header.compressedSize.toNat
  let _ ← BlockTrailer.readFromWithId ext.toHashing header.blockId
  pure (header, (maybeDecryptPayload ext payload.1 key header.blockId).toOption)

/-- The bytes a payload in a stream decodes to. -/
def streamedLength (baseline : Option Bytes) (header : BlockHeader) (plain : Option Bytes) : Nat :=
  match plain.map fun payload => decompressChunkWithBaseline ext.toCodecs payload
    header.compressionMethod header.uncompressedSize.toNat baseline with
  | some (.ok data) => data.length
  | _ => 0

/-- The totals of the blocks of a stream, up to where it cannot be followed further. -/
def streamTotals (baseline : Option Bytes) (key : Option DecryptKey) :
    (count : Nat) → (archive : Bytes) → Totals
  | 0, _ => { payloads := 0, decoded := 0 }
  | count + 1, archive =>
      match readStreamedBlock ext key archive with
      | .error _ => { payloads := 0, decoded := 0 }
      | .ok ((header, plain), rest) =>
          let later := streamTotals baseline key count rest
          { payloads := header.compressedSize.toNat + later.payloads
            decoded := streamedLength ext baseline header plain + later.decoded }

end

section

variable {ext : Externals} {archive : Bytes} {baseline : Option Bytes} {key : Option DecryptKey}

/-- A streamed block that decodes was read first. -/
theorem readStreamedBlock_of_decodes {block : StreamedBlock} {rest : Bytes}
    (success : decompressBlockStreaming ext baseline key archive = .ok (block, rest)) :
    ∃ header plain, readStreamedBlock ext key archive = .ok ((header, plain), rest) ∧
      header.compressedSize = block.2.2 ∧
      streamedLength ext baseline header plain = block.1.length := by
  obtain ⟨header, _, payload, _, trailer, data, headerRead, compressed, uncompressed, payloadRead,
    trailerRead, ⟨plain, decrypted, decoded, -⟩, rfl⟩ := decompressBlockStreaming_eq_ok.mp success
  refine ⟨header, some plain, ?_, rfl, ?_⟩
  · simp only [readStreamedBlock, ByteReader.bind_eq_ok, ByteReader.lift_eq_ok,
      ByteReader.pure_eq_ok, checkStreamedSizes, Result.bind_eq_ok, Result.failIf_eq_ok, not_lt]
    refine ⟨_, _, headerRead, (), _, ⟨⟨(), compressed, uncompressed⟩, rfl⟩, _, _, payloadRead, _, _,
      trailerRead, ?_⟩
    rw [decrypted]
    rfl
  · rw [streamedLength, Option.map_some, decoded]

/-- The totals of a stream that decodes. -/
theorem streamTotals_of_decodes {count : Nat} {streamed : List StreamedBlock} {rest : Bytes}
    (success : ByteReader.readMany (decompressBlockStreaming ext baseline key) count archive =
      .ok (streamed, rest)) :
    streamTotals ext baseline key count archive =
      { payloads := streamedTotal streamed, decoded := totalSize (streamed.map Prod.fst) } := by
  induction count generalizing archive streamed with
  | zero =>
      cases success
      rfl
  | succ count recurse =>
      simp only [ByteReader.readMany, ByteReader.bind_eq_ok, ByteReader.pure_eq_ok] at success
      obtain ⟨block, between, read, others, after, readRest, same⟩ := success
      cases same
      obtain ⟨header, plain, parts, size, length⟩ := readStreamedBlock_of_decodes read
      rw [streamTotals, parts]
      dsimp only
      rw [recurse readRest, size, length]
      rfl

end

/-! ## The operations -/

section

variable {σ : Type} [ProbabilityPredictor σ] (ext : Externals) (decompressor : Decompressor σ)
variable (archive : Bytes)

/-- The metadata of an archive read by seeking, with the key and the dictionary it resolves to. -/
structure Resolved (metadata : ArchiveMetadata) (key : Option DecryptKey)
    (baseline : Option Bytes) : Prop where
  read : readMetadata ext archive = .ok metadata
  key : decompressor.decryptKeyOf ext metadata = .ok key
  baseline : decompressor.decodeBaselineFor ext metadata.dictionaryHash = .ok baseline

/-- The metadata of a stream, with the first block and what it resolves to. -/
structure ResolvedStream (metadata : StreamingMetadata) (firstBlock : Bytes)
    (key : Option DecryptKey) (baseline : Option Bytes) : Prop where
  read : readMetadataStreaming ext archive = .ok (metadata, firstBlock)
  key : deriveDecryptKey ext metadata.header.flags metadata.encryptionHeader
    decompressor.password = .ok key
  baseline : decompressor.decodeBaselineFor ext metadata.dictionaryHash = .ok baseline

namespace ReadingOperation

/-- What an operation holds at the points of a run. -/
def holdings (schedule : Schedule) : ReadingOperation → List Holding
  | extractAll => (decompressor.extractAllMetered ext schedule archive).notes
  | extractAllStreaming => (decompressor.extractAllStreamingMetered ext archive).notes
  | extractFile filePath => (decompressor.extractFileMetered ext archive filePath).notes
  | verify => (decompressor.verifyMetered ext schedule archive).notes
  | verifyStreaming => (decompressor.verifyStreamingMetered ext archive).notes

/-- Whether an operation goes on to its end without an error. -/
def GoesOn : ReadingOperation → Prop
  | extractAll => ∃ files, decompressor.extractAll ext archive = .ok files
  | extractAllStreaming => ∃ files, decompressor.extractAllStreaming ext archive = .ok files
  | extractFile filePath => ∃ data, decompressor.extractFile ext archive filePath = .ok data
  | verify => ∃ result, decompressor.verify ext archive = .ok result
  | verifyStreaming => ∃ result, decompressor.verifyStreaming ext archive = .ok result

/-- The totals of the blocks an operation reads. -/
def Sums : ReadingOperation → Totals → Prop
  | extractAll, totals | verify, totals => ∃ metadata key baseline,
      Resolved ext decompressor archive metadata key baseline ∧
        totals = seekTotals ext archive baseline key metadata.blockIndex
  | extractFile filePath, totals => ∃ metadata key baseline entry,
      Resolved ext decompressor archive metadata key baseline ∧
        firstEntry metadata.fileEntries filePath = some entry ∧
        totals = seekTotals ext archive baseline key (fileBlocks entry metadata.blockIndex)
  | extractAllStreaming, totals | verifyStreaming, totals => ∃ metadata firstBlock key baseline,
      ResolvedStream ext decompressor archive metadata firstBlock key baseline ∧
        totals = streamTotals ext baseline key metadata.header.blockCount.toNat firstBlock

/-- The caps: on what is held at every point, and on what an operation goes on with. -/
structure CapsKept (operation : ReadingOperation) : Prop where
  held : ∀ schedule, ∀ holding ∈ operation.holdings ext decompressor archive schedule,
    holding.Capped
  stops : operation.GoesOn ext decompressor archive →
    ∀ totals, operation.Sums ext decompressor archive totals → totals.Within

/-- Whether the blocks stay below the limits an operation does not check itself. -/
def Below : ReadingOperation → Prop
  | extractAllStreaming => True
  | extractAll => ∀ metadata key baseline decoded files,
      decompressor.Extraction ext archive metadata key baseline decoded →
      metadata.fileEntries.mapM (extracted ext.toHashing decoded) = some files →
      payloadTotal ext archive key metadata.blockIndex ≤ MAX_TOTAL_COMPRESSED_READ_SIZE
  | extractFile filePath => ∀ metadata entry key baseline decoded,
      decompressor.FileExtraction ext archive filePath metadata entry key baseline decoded →
      ext.blake3 (truncateToFileSize entry decoded.flatten) = entry.blake3Hash →
      payloadTotal ext archive key (fileBlocks entry metadata.blockIndex) ≤
        MAX_TOTAL_COMPRESSED_READ_SIZE
  | verify => ∀ metadata key baseline,
      Resolved ext decompressor archive metadata key baseline →
      (seekTotals ext archive baseline key metadata.blockIndex).Within
  | verifyStreaming => ∀ metadata firstBlock key baseline,
      ResolvedStream ext decompressor archive metadata firstBlock key baseline →
      (streamTotals ext baseline key metadata.header.blockCount.toNat firstBlock).Within

end ReadingOperation

end

section

variable {σ : Type} [ProbabilityPredictor σ] {ext : Externals} {self : Decompressor σ}
variable {archive : Bytes}

/-- An archive resolves in one way. -/
theorem Resolved.unique {metadata other : ArchiveMetadata} {key otherKey : Option DecryptKey}
    {baseline otherBaseline : Option Bytes}
    (first : Resolved ext self archive metadata key baseline)
    (second : Resolved ext self archive other otherKey otherBaseline) :
    metadata = other ∧ key = otherKey ∧ baseline = otherBaseline := by
  have same : metadata = other := Except.ok.inj (first.read.symm.trans second.read)
  subst same
  exact ⟨rfl, Except.ok.inj (first.key.symm.trans second.key),
    Except.ok.inj (first.baseline.symm.trans second.baseline)⟩

/-- So does a streamed one. -/
theorem ResolvedStream.unique {metadata other : StreamingMetadata} {firstBlock otherBlock : Bytes}
    {key otherKey : Option DecryptKey} {baseline otherBaseline : Option Bytes}
    (first : ResolvedStream ext self archive metadata firstBlock key baseline)
    (second : ResolvedStream ext self archive other otherBlock otherKey otherBaseline) :
    metadata = other ∧ firstBlock = otherBlock ∧ key = otherKey ∧ baseline = otherBaseline := by
  have same : (metadata, firstBlock) = (other, otherBlock) :=
    Except.ok.inj (first.read.symm.trans second.read)
  cases same
  exact ⟨rfl, rfl, Except.ok.inj (first.key.symm.trans second.key),
    Except.ok.inj (first.baseline.symm.trans second.baseline)⟩

/-- Metadata that can be unlocked is resolved. -/
theorem resolved_of_unlocked {metadata : ArchiveMetadata} {key : Option DecryptKey}
    {baseline : Option Bytes} (read : SeekableRead ext archive metadata)
    (unlocked : self.UnlockedBy ext metadata key baseline) :
    Resolved ext self archive metadata key baseline :=
  ⟨readMetadata_eq_ok.mpr read, unlocked.key, unlocked.baseline⟩

namespace ReadingOperation

/-! ### Extraction -/

/-- Extracting everything keeps the caps exactly below them. -/
theorem capsKept_extractAll (shrinks : ext.Shrinks) :
    CapsKept ext self archive extractAll ↔ Below ext self archive extractAll := by
  constructor
  · intro kept metadata key baseline decoded files extraction written
    have goesOn : GoesOn ext self archive extractAll :=
      ⟨files, extractAll_eq_ok.mpr ⟨_, _, _, _, extraction, written⟩⟩
    exact (kept.stops goesOn _ ⟨metadata, key, baseline,
      resolved_of_unlocked extraction.read extraction.unlocked, rfl⟩).payloads
  · intro below
    refine ⟨fun schedule => always_extractAll shrinks schedule, ?_⟩
    rintro ⟨files, extracts⟩ _ ⟨metadata, key, baseline, resolved, rfl⟩
    obtain ⟨_, _, _, decoded, extraction, written⟩ := extractAll_eq_ok.mp extracts
    obtain ⟨rfl, rfl, rfl⟩ := resolved.unique
      (resolved_of_unlocked extraction.read extraction.unlocked)
    exact ⟨below _ _ _ decoded files extraction written,
      (decodedTotal_of_decodeAll extraction.decodes).le.trans extraction.decompressed⟩

/-- So does extracting one file. -/
theorem capsKept_extractFile (shrinks : ext.Shrinks) (filePath : String) :
    CapsKept ext self archive (extractFile filePath) ↔
      Below ext self archive (extractFile filePath) := by
  constructor
  · intro kept metadata entry key baseline decoded extraction hash
    have goesOn : GoesOn ext self archive (extractFile filePath) :=
      ⟨_, extractFile_eq_ok.mpr ⟨_, _, _, _, _, extraction, rfl, hash⟩⟩
    exact (kept.stops goesOn _ ⟨metadata, key, baseline, entry,
      resolved_of_unlocked extraction.read extraction.unlocked, extraction.found, rfl⟩).payloads
  · intro below
    refine ⟨fun _ => always_extractFile shrinks filePath, ?_⟩
    rintro ⟨data, extracts⟩ _ ⟨metadata, key, baseline, entry, resolved, found, rfl⟩
    obtain ⟨_, other, _, _, decoded, extraction, rfl, hash⟩ := extractFile_eq_ok.mp extracts
    obtain ⟨rfl, rfl, rfl⟩ := resolved.unique
      (resolved_of_unlocked extraction.read extraction.unlocked)
    have same : entry = other := Option.some.inj (found.symm.trans extraction.found)
    subst same
    exact ⟨below _ _ _ _ decoded extraction hash,
      (decodedTotal_of_decodeAll extraction.decodes).le.trans extraction.decompressed⟩

/-- Streamed extraction always keeps the caps. -/
theorem capsKept_extractAllStreaming (shrinks : ext.Shrinks) :
    CapsKept ext self archive extractAllStreaming := by
  refine ⟨fun _ => always_extractAllStreaming shrinks, ?_⟩
  rintro ⟨files, extracts⟩ _ ⟨metadata, firstBlock, key, baseline, resolved, rfl⟩
  obtain ⟨_, _, _, streamed, extraction, -⟩ := extractAllStreaming_eq_ok.mp extracts
  obtain ⟨otherBlock, rest, read, decodes⟩ := extraction.decodes
  have other : ResolvedStream ext self archive _ otherBlock _ _ :=
    ⟨readMetadataStreaming_eq_ok.mpr read, extraction.unlocked.key, extraction.unlocked.baseline⟩
  obtain ⟨rfl, rfl, rfl, rfl⟩ := resolved.unique other
  rw [streamTotals_of_decodes decodes]
  exact ⟨extraction.compressed, extraction.decompressed⟩

/-! ### Verification -/

/-- Verifying keeps the caps exactly below them. -/
theorem capsKept_verify (shrinks : ext.Shrinks)
    (pools : ∀ threads, ext.threadPool threads = .ok ()) :
    CapsKept ext self archive verify ↔ Below ext self archive verify := by
  constructor
  · intro kept metadata key baseline resolved
    obtain ⟨decoded, verified⟩ :=
      @verifyBlocks_isOk ext archive baseline key σ self pools metadata
    have goesOn : GoesOn ext self archive verify := by
      rw [GoesOn, Decompressor.verify, resolved.read, Result.ok_bind, resolved.key,
        Result.ok_bind, resolved.baseline, Result.ok_bind, verified]
      exact ⟨_, rfl⟩
    exact kept.stops goesOn _ ⟨metadata, key, baseline, resolved, rfl⟩
  · intro below
    refine ⟨fun schedule => ?_, ?_⟩
    · refine Traced.always_lift_bind fun metadata read => ?_
      refine Traced.always_lift_bind fun key derived => ?_
      refine Traced.always_lift_bind fun baseline resolves => ?_
      have totals := below metadata key baseline ⟨read, derived, resolves⟩
      refine Traced.Always.bind ?_ fun decoded verified => ?_
      · refine (always_verifyBlocks shrinks schedule metadata).mono fun holding within => ?_
        exact ⟨within.raw.trans (Nat.add_le_add_right totals.payloads _),
          (within.decoded.trans totals.decoded).trans (Nat.le_add_right _ _)⟩
      · rw [outcome_verifyBlocks] at verified
        refine Traced.always_note_bind ⟨Nat.zero_le _, ?_⟩ (Traced.always_pure _)
        exact ((heldBytes_verified verified).trans totals.decoded).trans (Nat.le_add_right _ _)
    · rintro - _ ⟨metadata, key, baseline, resolved, rfl⟩
      exact below metadata key baseline resolved

/-- So does streamed verifying. -/
theorem capsKept_verifyStreaming (shrinks : ext.Shrinks) :
    CapsKept ext self archive verifyStreaming ↔ Below ext self archive verifyStreaming := by
  constructor
  · intro kept metadata firstBlock key baseline resolved
    have goesOn : GoesOn ext self archive verifyStreaming := by
      rw [GoesOn, Decompressor.verifyStreaming, resolved.read, Result.ok_bind]
      dsimp only
      rw [verifyWithStreamingMetadata, resolved.key, Result.ok_bind, resolved.baseline,
        Result.ok_bind]
      exact ⟨_, rfl⟩
    exact kept.stops goesOn _ ⟨metadata, firstBlock, key, baseline, resolved, rfl⟩
  · intro below
    refine ⟨fun _ => ?_, ?_⟩
    · apply Traced.always_lift_bind
      rintro ⟨metadata, firstBlock⟩ -
      refine Traced.always_lift_bind fun key _ => ?_
      refine Traced.always_lift_bind fun baseline _ => ?_
      refine (always_verifyStreamed shrinks _ _ _).mono fun holding within => ?_
      exact ⟨within.raw.trans (Nat.le_add_left _ _), within.decoded.trans (Nat.le_add_left _ _)⟩
    · rintro - _ ⟨metadata, firstBlock, key, baseline, resolved, rfl⟩
      exact below metadata firstBlock key baseline resolved

/-- **An operation keeps the caps exactly when the blocks stay below the limits that it does not
check itself.** -/
theorem capsKept_iff_below (shrinks : ext.Shrinks)
    (pools : ∀ threads, ext.threadPool threads = .ok ()) (operation : ReadingOperation) :
    operation.CapsKept ext self archive ↔ operation.Below ext self archive := by
  cases operation with
  | extractAll => exact capsKept_extractAll shrinks
  | extractAllStreaming => exact iff_of_true (capsKept_extractAllStreaming shrinks) trivial
  | extractFile filePath => exact capsKept_extractFile shrinks filePath
  | verify => exact capsKept_verify shrinks pools
  | verifyStreaming => exact capsKept_verifyStreaming shrinks

end ReadingOperation

end

/-! ## Many large blocks -/

section

open PlainArchive ReadingOperation

/-- The reference codecs never decode to more than they are asked for. -/
theorem referenceExternals_shrinks : referenceExternals.Shrinks where
  aesGcm _ _ _ _ _ opened := by
    cases opened
    exact le_rfl
  chaCha _ _ _ _ _ opened := by
    cases opened
    exact le_rfl

/-- Blocks of zeros, all of one size. -/
def zeroBlocks (count size : Nat) : PlainArchive where
  fileEntries := []
  contents := List.replicate count (List.replicate size 0)
  record := BlockIndexEntry.compressedSize

/-- A few blocks of zeros are well formed. -/
theorem zeroBlocks_wellFormed {count size : Nat} (few : count ≤ MAX_BLOCK_COUNT.toNat)
    (small : size ≤ MAX_DECOMPRESSED_BLOCK_SIZE) : (zeroBlocks count size).WellFormed where
  files := Nat.zero_le _
  contents := by
    rw [zeroBlocks, List.length_replicate]
    exact few
  readable _ member := absurd member List.not_mem_nil
  bounded data member := by
    rw [zeroBlocks] at member
    rw [List.eq_of_mem_replicate member, List.length_replicate]
    exact small

/-- Blocks of zeros decode to all their zeros. -/
theorem totalSize_zeroBlocks (count size : Nat) :
    totalSize (zeroBlocks count size).contents = count * size := by
  rw [totalSize, zeroBlocks, List.map_replicate, List.sum_replicate, List.length_replicate,
    smul_eq_mul]

/-- One thread verifies the blocks of a plain archive to its contents. -/
theorem verifyBlocks_plain {ext : Externals} {plain : PlainArchive}
    (wellFormed : plain.WellFormed) {σ : Type} (predictorFactory : σ) :
    (singleThreaded predictorFactory).verifyBlocks ext (plain.bytes ext.toHashing)
        (plain.layout ext.toHashing).metadata none none = .ok (plain.contents.map .ok) := by
  have sequential :
      (singleThreaded predictorFactory).isParallel (plain.layout ext.toHashing).metadata =
        false := rfl
  have decodes := @WellFormed.decodeAll_eq plain ext none wellFormed
  rw [verifyBlocks, sequential]
  refine congrArg Except.ok ?_
  rw [← List.forall₂_eq_eq_eq, List.forall₂_map_left_iff, List.forall₂_map_right_iff]
  exact (mapM_eq_some.mp decodes).imp fun entry data success => verdict_eq_some.mp success

/-- The last thing a verification of a plain archive holds is all of its contents. -/
theorem verifyMetered_plain {ext : Externals} {plain : PlainArchive}
    (wellFormed : plain.WellFormed) {σ : Type} [ProbabilityPredictor σ] (predictorFactory : σ)
    (schedule : Schedule) :
    { raw := 0, decoded := totalSize plain.contents } ∈
      ((singleThreaded predictorFactory).verifyMetered ext schedule
        (plain.bytes ext.toHashing)).notes := by
  have read := readMetadata_eq_ok.mpr (@WellFormed.seekableRead _ ext wellFormed)
  have unlocked := @unlocked_of_none ext _ _ (singleThreaded predictorFactory) rfl
  have verified := (outcome_verifyBlocks schedule _).trans
    (@verifyBlocks_plain ext plain wellFormed σ predictorFactory)
  have last : heldBytes ((plain.contents.map Except.ok).map
      (Except.toOption : Result Bytes → Option Bytes)) = totalSize plain.contents := by
    rw [List.map_map, ← heldBytes_map_some]
    rfl
  have derived : (singleThreaded predictorFactory).decryptKeyOf ext
      (plain.layout ext.toHashing).metadata = .ok none := unlocked.key
  have resolves : (singleThreaded predictorFactory).decodeBaselineFor ext
      (plain.layout ext.toHashing).metadata.dictionaryHash = .ok none := unlocked.baseline
  rw [verifyMetered, Traced.notes_lift_bind read, Traced.notes_lift_bind derived,
    Traced.notes_lift_bind resolves, Traced.notes_bind verified, ← last]
  exact List.mem_append_right _ (List.mem_append_left _ (List.mem_singleton_self _))

/-- Verification holds all blocks of an archive, however many there are. -/
theorem verify_holdsAll {count size : Nat} (few : count ≤ MAX_BLOCK_COUNT.toNat)
    (small : size ≤ MAX_DECOMPRESSED_BLOCK_SIZE)
    (excess : ¬count * size ≤ MAX_TOTAL_DECOMPRESSED_SIZE + MAX_DECOMPRESSED_BLOCK_SIZE)
    (schedule : Schedule) :
    ∃ holding ∈ holdings referenceExternals (singleThreaded Order0Model.new)
      ((zeroBlocks count size).bytes referenceExternals.toHashing) schedule verify,
      ¬holding.Capped := by
  have last := @verifyMetered_plain referenceExternals _ (zeroBlocks_wellFormed few small) _ _
    Order0Model.new schedule
  rw [totalSize_zeroBlocks] at last
  exact ⟨_, last, fun capped => excess capped.decoded⟩

/-- **Verification goes on with blocks past the limit, and holds them all.** -/
theorem verify_uncapped :
    ¬CapsKept referenceExternals (singleThreaded Order0Model.new)
      ((zeroBlocks 130 MAX_DECOMPRESSED_BLOCK_SIZE).bytes referenceExternals.toHashing) verify := by
  intro kept
  have few : 130 ≤ MAX_BLOCK_COUNT.toNat := by decide
  have excess : ¬130 * MAX_DECOMPRESSED_BLOCK_SIZE ≤
      MAX_TOTAL_DECOMPRESSED_SIZE + MAX_DECOMPRESSED_BLOCK_SIZE := by decide
  obtain ⟨holding, member, uncapped⟩ := verify_holdsAll few le_rfl excess
    { moments := fun _ => [], within := fun _ _ member => absurd member List.not_mem_nil }
  exact uncapped (kept.held _ holding member)

/-- An archive of two small blocks is verified within the caps. -/
theorem capsKept_small :
    CapsKept referenceExternals (singleThreaded Order0Model.new)
      ((zeroBlocks 2 100).bytes referenceExternals.toHashing) verify := by
  refine (capsKept_iff_below referenceExternals_shrinks (fun _ => rfl) verify).mpr ?_
  intro metadata key baseline resolved
  have wellFormed : (zeroBlocks 2 100).WellFormed :=
    zeroBlocks_wellFormed (by decide) (by decide)
  have unlocked := @unlocked_of_none referenceExternals _ _ (singleThreaded Order0Model.new) rfl
  have known := resolved_of_unlocked
    (@WellFormed.seekableRead _ referenceExternals wellFormed) unlocked
  obtain ⟨rfl, rfl, rfl⟩ := known.unique resolved
  have payloads := @WellFormed.payloadTotal_eq _ referenceExternals wellFormed
  have decoded := decodedTotal_of_decodeAll
    (@WellFormed.decodeAll_eq _ referenceExternals none wellFormed)
  rw [totalSize_zeroBlocks] at payloads decoded
  exact ⟨payloads.trans_le (by decide), decoded.trans_le (by decide)⟩

end

end AetherArch
