import AetherArch.Pipeline.PlainArchive

/-! # Verification of a stream

Verification of a stream reports nothing exactly when every block decodes. It does not look at
the dictionary hash, the totals or the file table, so what it reports intact is extracted only
if these are in order too.
-/

namespace AetherArch

open Decompressor

variable {ext : Externals} {baseline : Option Bytes} {key : Option DecryptKey}

/-! ## One block -/

theorem VerificationResult.push_corruptedBlocks_ne (result : VerificationResult)
    (blockId : UInt32) : (result.push blockId).corruptedBlocks ≠ [] :=
  List.append_ne_nil_of_right_ne_nil _ (List.cons_ne_nil _ _)

/-- A payload that decodes to data of the digest in the trailer. -/
def PayloadHolds (ext : Externals) (baseline : Option Bytes) (key : Option DecryptKey)
    (header : BlockHeader) (payload : Bytes) (trailer : BlockTrailer) (data : Bytes) : Prop :=
  ∃ plain, maybeDecryptPayload ext payload key header.blockId = .ok plain ∧
    decompressChunkWithBaseline ext.toCodecs plain header.compressionMethod
      header.uncompressedSize.toNat baseline = .ok data ∧
    ext.blake3 data = trailer.contentBlake3

/-- A block is reported unless its payload holds. -/
theorem reportStreamedBlock_intact {header : BlockHeader} {payload : Bytes}
    {trailer : BlockTrailer} {result : VerificationResult} :
    (reportStreamedBlock ext baseline key header payload trailer result).corruptedBlocks = [] ↔
      result.corruptedBlocks = [] ∧
        ∃ data, PayloadHolds ext baseline key header payload trailer data := by
  have pushed := result.push_corruptedBlocks_ne header.blockId
  rw [reportStreamedBlock]
  simp only [PayloadHolds]
  cases maybeDecryptPayload ext payload key header.blockId with
  | error error =>
      simp only [reduceCtorEq, false_and, exists_false, and_false, iff_false]
      exact pushed
  | ok plain =>
      simp only [Except.ok.injEq, exists_eq_left']
      cases decompressChunkWithBaseline ext.toCodecs plain header.compressionMethod
        header.uncompressedSize.toNat baseline with
      | error error =>
          simp only [reduceCtorEq, false_and, exists_false, and_false, iff_false]
          exact pushed
      | ok data =>
          simp only [Except.ok.injEq, exists_eq_left']
          split
          · rename_i differs
            simp only [differs, and_false, iff_false]
            exact pushed
          · rename_i same
            rw [not_not] at same
            simp only [same, and_true]

/-- A block in a stream decodes when its parts read, its sizes are bounded and its payload
holds. -/
theorem decompressBlockStreaming_eq_ok {archive rest : Bytes} {block : StreamedBlock} :
    decompressBlockStreaming ext baseline key archive = .ok (block, rest) ↔
      ∃ header afterHeader payload afterPayload trailer data,
        BlockHeader.readFrom ext.toHashing archive = .ok (header, afterHeader) ∧
        header.compressedSize.toNat ≤ MAX_DECOMPRESSED_BLOCK_SIZE ∧
        header.uncompressedSize.toNat ≤ MAX_DECOMPRESSED_BLOCK_SIZE ∧
        Reader.readExact header.compressedSize.toNat afterHeader = .ok (payload, afterPayload) ∧
        BlockTrailer.readFromWithId ext.toHashing header.blockId afterPayload =
          .ok (trailer, rest) ∧
        PayloadHolds ext baseline key header payload.1 trailer data ∧
        block = (data, header.blockId, header.compressedSize) := by
  simp only [decompressBlockStreaming, ByteReader.bind_eq_ok, ByteReader.lift_eq_ok,
    Reader.failIf_eq_ok, ByteReader.pure_eq_ok, not_not, Result.mapError_eq_ok,
    checkBlockHash_eq_ok, checkStreamedSizes, Result.bind_eq_ok, Result.failIf_eq_ok, not_lt]
  constructor
  · rintro ⟨header, _, headerRead, _, _, ⟨⟨_, compressed, uncompressed⟩, rfl⟩, payload, _,
      payloadRead, trailer, _, trailerRead, plain, _, ⟨decrypted, rfl⟩, data, _, ⟨decoded, rfl⟩, _,
      _, ⟨-, rfl⟩, _, _, ⟨hash, rfl⟩, same⟩
    cases same
    exact ⟨header, _, payload, _, trailer, data, headerRead, compressed, uncompressed, payloadRead,
      trailerRead, ⟨plain, decrypted, decoded, hash⟩, rfl⟩
  · rintro ⟨header, _, payload, _, trailer, data, headerRead, compressed, uncompressed,
      payloadRead, trailerRead, ⟨plain, decrypted, decoded, hash⟩, rfl⟩
    exact ⟨header, _, headerRead, (), _, ⟨⟨(), compressed, uncompressed⟩, rfl⟩, payload, _,
      payloadRead, trailer, _, trailerRead, plain, _, ⟨decrypted, rfl⟩, data, _, ⟨decoded, rfl⟩,
      (), _, ⟨(length_decompressChunk decoded).1, rfl⟩, (), _, ⟨hash, rfl⟩, rfl⟩

/-! ## All blocks -/

/-- **Verification of a stream reports nothing when every block decodes.** -/
theorem verifyStreamed_intact {count blockIdx : Nat} {archive : Bytes}
    {result : VerificationResult} :
    (verifyStreamed ext baseline key count blockIdx archive result).corruptedBlocks = [] ↔
      result.corruptedBlocks = [] ∧ ∃ streamed rest,
        ByteReader.readMany (decompressBlockStreaming ext baseline key) count archive =
          .ok (streamed, rest) := by
  induction count generalizing blockIdx archive result with
  | zero => exact ⟨fun intact => ⟨intact, [], archive, rfl⟩, fun intact => intact.1⟩
  | succ count recurse =>
      have pushed (blockId : UInt32) := result.push_corruptedBlocks_ne blockId
      simp only [ByteReader.readMany, ByteReader.bind_eq_ok, ByteReader.pure_eq_ok,
        decompressBlockStreaming_eq_ok]
      rw [verifyStreamed]
      constructor
      · intro intact
        split at intact
        · exact absurd intact (pushed _)
        rename_i header afterHeader headerRead
        split at intact
        · exact absurd intact (pushed _)
        rename_i compressed
        split at intact
        · exact absurd intact (pushed _)
        rename_i uncompressed
        split at intact
        · exact absurd intact (pushed _)
        rename_i payload afterPayload payloadRead
        split at intact
        · exact absurd intact (pushed _)
        rename_i trailer afterTrailer trailerRead
        obtain ⟨reported, streamed, rest, later⟩ := recurse.mp intact
        obtain ⟨before, data, holds⟩ := reportStreamedBlock_intact.mp reported
        exact ⟨before, _, rest, _, afterTrailer, ⟨header, _, payload, _, trailer, data, headerRead,
          not_lt.mp compressed, not_lt.mp uncompressed, payloadRead, trailerRead, holds, rfl⟩,
          streamed, rest, later, rfl⟩
      · rintro ⟨before, _, rest, _, _, ⟨header, _, payload, _, trailer, data, headerRead,
          compressed, uncompressed, payloadRead, trailerRead, holds, rfl⟩, streamed, _, later,
          same⟩
        cases same
        rw [headerRead]
        dsimp only
        rw [if_neg (not_lt.mpr compressed), if_neg (not_lt.mpr uncompressed), payloadRead]
        dsimp only
        rw [trailerRead]
        exact recurse.mpr ⟨reportStreamedBlock_intact.mpr ⟨before, data, holds⟩, streamed, rest,
          later⟩

/-! ## The whole stream -/

variable {σ : Type} [ProbabilityPredictor σ]

/-- A stream whose blocks all decode under the key and the dictionary it resolves to. -/
structure BlocksDecode (ext : Externals) (decompressor : Decompressor σ) (archive : Bytes)
    (metadata : StreamingMetadata) (streamed : List StreamedBlock) : Prop where
  decodes : ∃ key baseline firstBlock rest,
    readMetadataStreaming ext archive = .ok (metadata, firstBlock) ∧
      deriveDecryptKey ext metadata.header.flags metadata.encryptionHeader
        decompressor.password = .ok key ∧
      decompressor.decodeBaselineFor ext metadata.dictionaryHash = .ok baseline ∧
      ByteReader.readMany (decompressBlockStreaming ext baseline key)
        metadata.header.blockCount.toNat firstBlock = .ok (streamed, rest)

/-- What an extraction asks of a stream whose blocks all decode. -/
structure Deliverable (ext : Externals) (decompressor : Decompressor σ)
    (metadata : StreamingMetadata) (streamed : List StreamedBlock) : Prop where
  dictionary : decompressor.validateDictionary ext metadata.dictionaryHash = .ok ()
  compressed : streamedTotal streamed ≤ MAX_TOTAL_COMPRESSED_READ_SIZE
  decompressed : totalSize (streamed.map Prod.fst) ≤ MAX_TOTAL_DECOMPRESSED_SIZE
  intact : ∀ entry ∈ metadata.fileEntries, ∃ data,
    intactContent ext.toHashing (streamed.map Prod.fst) entry = some data
  paths : ∀ entry ∈ metadata.fileEntries, validateExtractionPath entry.path = .ok ()

theorem verifyStreaming_isOk_iff {self : Decompressor σ} {archive : Bytes} :
    (∃ result, self.verifyStreaming ext archive = .ok result ∧ result.isOk = true) ↔
      ∃ metadata streamed, BlocksDecode ext self archive metadata streamed := by
  simp only [verifyStreaming, verifyWithStreamingMetadata, Result.bind_eq_ok, Result.pure_eq_ok]
  constructor
  · rintro ⟨_, ⟨⟨metadata, firstBlock⟩, read, key, derived, baseline, resolved, rfl⟩, isOk⟩
    rw [VerificationResult.isOk, List.isEmpty_iff, verifyStreamed_intact] at isOk
    obtain ⟨-, streamed, rest, decodes⟩ := isOk
    exact ⟨metadata, streamed, key, baseline, firstBlock, rest, read, derived, resolved, decodes⟩
  · rintro ⟨metadata, streamed, key, baseline, firstBlock, rest, read, derived, resolved, decodes⟩
    refine ⟨_, ⟨(metadata, firstBlock), read, key, derived, baseline, resolved, rfl⟩, ?_⟩
    rw [VerificationResult.isOk, List.isEmpty_iff, verifyStreamed_intact]
    exact ⟨rfl, streamed, rest, decodes⟩

/-- **A stream whose blocks all decode is extracted exactly when it is deliverable.** -/
theorem BlocksDecode.extracts_iff {self : Decompressor σ} {archive : Bytes}
    {metadata : StreamingMetadata} {streamed : List StreamedBlock}
    (blocks : BlocksDecode ext self archive metadata streamed) :
    (∃ files, self.extractAllStreaming ext archive = .ok files) ↔
      Deliverable ext self metadata streamed := by
  obtain ⟨key, baseline, firstBlock, rest, read, derived, resolved, decodes⟩ := blocks.decodes
  simp only [extractAllStreaming_eq_ok]
  constructor
  · rintro ⟨files, _, key', baseline', streamed', extraction, written⟩
    obtain ⟨_, _, readAgain, decodesAgain⟩ := extraction.decodes
    obtain ⟨rfl, rfl⟩ := Prod.mk.inj (Except.ok.inj
      (read.symm.trans (readMetadataStreaming_eq_ok.mpr readAgain)))
    obtain rfl := Except.ok.inj (derived.symm.trans extraction.unlocked.key)
    obtain rfl := Except.ok.inj (resolved.symm.trans extraction.unlocked.baseline)
    obtain ⟨rfl, -⟩ := Prod.mk.inj (Except.ok.inj (decodes.symm.trans decodesAgain))
    have accepted := mapM_isSome.mp ⟨files, written⟩
    refine ⟨extraction.unlocked.dictionary, extraction.compressed, extraction.decompressed, ?_, ?_⟩
    · intro entry member
      obtain ⟨file, success⟩ := accepted entry member
      obtain ⟨-, data, intact, -⟩ := extracted_eq_some.mp success
      exact ⟨data, intact⟩
    · intro entry member
      obtain ⟨file, success⟩ := accepted entry member
      exact (extracted_eq_some.mp success).1
  · intro deliverable
    obtain ⟨files, written⟩ := mapM_isSome.mpr fun entry member => by
      obtain ⟨data, intact⟩ := deliverable.intact entry member
      exact ⟨_, extracted_eq_some.mpr ⟨deliverable.paths entry member, data, intact, rfl⟩⟩
    exact ⟨files, metadata, key, baseline, streamed,
      ⟨⟨firstBlock, rest, readMetadataStreaming_eq_ok.mp read, decodes⟩,
        ⟨deliverable.dictionary, derived, resolved⟩, deliverable.compressed,
        deliverable.decompressed⟩, written⟩

/-- **What is verified is extracted exactly when blocks that all decode are deliverable.** -/
theorem verifyStreaming_faithful_iff (ext : Externals) (self : Decompressor σ) (archive : Bytes) :
    ((∃ result, self.verifyStreaming ext archive = .ok result ∧ result.isOk = true) →
        ∃ files, self.extractAllStreaming ext archive = .ok files) ↔
      ∀ metadata streamed, BlocksDecode ext self archive metadata streamed →
        Deliverable ext self metadata streamed := by
  rw [verifyStreaming_isOk_iff]
  constructor
  · intro faithful metadata streamed blocks
    exact blocks.extracts_iff.mp (faithful ⟨metadata, streamed, blocks⟩)
  · rintro deliverable ⟨metadata, streamed, blocks⟩
    exact blocks.extracts_iff.mpr (deliverable metadata streamed blocks)

/-- An archive without blocks whose only file refers to one. -/
def danglingArchive : PlainArchive where
  fileEntries := [plainEntry referenceExternals.toHashing "a" 0 [] 0 1]
  contents := []
  record := BlockIndexEntry.compressedSize

theorem danglingArchive_wellFormed : danglingArchive.WellFormed where
  files := by decide
  contents := by decide
  readable entry member := by
    rw [List.mem_singleton.mp member]
    exact PlainArchive.acceptedPath_a.readable _ _ _ _ _
  bounded data member := by cases member

/-- Verification of a stream can report a file intact that has no blocks. -/
theorem verifyStreaming_dangling :
    (singleThreaded Order0Model.new).verifyStreaming referenceExternals
        (danglingArchive.bytes referenceExternals.toHashing) =
        .ok { totalBlocks := 0, verifiedBlocks := 0, corruptedBlocks := [] } ∧
      ∀ files, (singleThreaded Order0Model.new).extractAllStreaming referenceExternals
        (danglingArchive.bytes referenceExternals.toHashing) ≠ .ok files := by
  have read := readMetadataStreaming_eq_ok.mpr (@PlainArchive.WellFormed.tiled
    referenceExternals.toHashing _ danglingArchive_wellFormed).streamingRead
  have unlocked := @PlainArchive.unlocked_of_none referenceExternals _ _
    (singleThreaded Order0Model.new) rfl
  have blocks : BlocksDecode referenceExternals (singleThreaded Order0Model.new)
      (danglingArchive.bytes referenceExternals.toHashing)
      (danglingArchive.layout referenceExternals.toHashing).streamingMetadata [] :=
    ⟨none, none, _, _, read, unlocked.key, unlocked.baseline, rfl⟩
  constructor
  · simp only [verifyStreaming, verifyWithStreamingMetadata, Result.bind_eq_ok, Result.pure_eq_ok]
    exact ⟨_, read, none, unlocked.key, none, unlocked.baseline, rfl⟩
  · intro files extracted
    obtain ⟨data, intact⟩ := (blocks.extracts_iff.mp ⟨files, extracted⟩).intact _
      (List.mem_singleton.mpr rfl)
    have missing : intactContent referenceExternals.toHashing []
        (plainEntry referenceExternals.toHashing "a" 0 [] 0 1) = none := rfl
    exact absurd (missing.symm.trans intact) (Option.some_ne_none data).symm

end AetherArch
