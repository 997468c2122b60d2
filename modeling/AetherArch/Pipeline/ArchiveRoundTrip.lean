import AetherArch.Pipeline.ConsumingReassembly
import AetherArch.Pipeline.WrittenArchive

/-! # Archive round trip

What the writer writes, both readers read back, all three ways to decode its blocks restore every
file, and both extractions deliver the scanned files, in their order, when the paths of all of
them are valid.
-/

namespace AetherArch

/-- A scanned file as it is extracted. -/
def restoredFile {format : FloatFormat} (file : ScannedFile format) : ExtractedFile where
  path := file.entry.path
  data := file.data
  mtime := file.entry.mtime
  permissions := file.entry.permissions

namespace Compressor

theorem Describes.same {scanned entry : FileEntry} (describes : Describes scanned entry) :
    entry.path = scanned.path ∧ entry.blake3Hash = scanned.blake3Hash ∧
      entry.mtime = scanned.mtime ∧ entry.permissions = scanned.permissions := by
  rw [describes]
  exact ⟨rfl, rfl, rfl, rfl⟩

/-- Results without a failure are all there. -/
theorem upToFailure_eq {results : List (Result Bytes)}
    (each : ∀ result ∈ results, ∃ data, result = .ok data) : upToFailure results = results := by
  induction results with
  | nil => rfl
  | cons result results recurse =>
      obtain ⟨data, rfl⟩ := each result List.mem_cons_self
      rw [upToFailure, recurse fun other member => each other (List.mem_cons_of_mem _ member)]

variable {σ : Type} [ProbabilityPredictor σ] {ext : WriterExternals} {compressor : Compressor σ}
  {files : List (ScannedFile ext.arith.double)} {encryption : EncryptionState}
  {baseline : Option Bytes} {usePathPrefixes : Bool} {layout : Layout}
  {written : List WrittenBlock} {owned : List (Fin files.length × List CompressedChunk)}

section

variable
  (wrote : WroteFrom ext compressor files encryption baseline usePathPrefixes layout written owned)
  (reliable : ext.Reliable) (scanned : Scanned ext.toHashing files)
  (readable : Readable ext.toHashing files)

include wrote reliable scanned readable

/-- **The contents of the blocks restore every file.** -/
theorem WroteFrom.mapM_extracted
    (valid : ∀ file ∈ files, validateExtractionPath file.entry.path = .ok ()) :
    layout.fileEntries.mapM
      (extracted ext.toHashing (blockContents ext.toCodecs baseline written)) =
        some (files.map restoredFile) := by
  rw [mapM_eq_some, List.forall₂_iff_get]
  refine ⟨by rw [wrote.entryCount, List.length_map], fun i entryInside inside => ?_⟩
  rw [List.length_map] at inside
  obtain ⟨entry, lookedUp, describes, content⟩ :=
    wrote.fileContent_eq reliable scanned readable ⟨i, inside⟩
  obtain rfl := Option.some.inj ((List.getElem?_eq_getElem entryInside).symm.trans lookedUp)
  have member : files[i] ∈ files := List.getElem_mem inside
  have digest := scanned.digests _ member
  have masked := scanned.masked _ member
  obtain ⟨path, hash, mtime, permissions⟩ := describes.same
  rw [List.get_eq_getElem, List.get_eq_getElem, List.getElem_map, extracted_eq_some]
  refine ⟨path ▸ valid _ member, files[i].data, ?_, ?_⟩
  · exact intactContent_eq_some.mpr ⟨content, (hash.trans digest).symm⟩
  · have kept : layout.fileEntries[i].permissions &&& SAFE_PERMISSION_MASK =
        files[i].entry.permissions :=
      (congrArg (· &&& SAFE_PERMISSION_MASK) permissions).trans masked
    rw [extractedFile, path, mtime, kept]
    rfl

/-- **Every entry reassembles its file** from all blocks. -/
theorem WroteFrom.reassembled :
    layout.fileEntries.map (fun entry => reassembleFileFromBlocks entry
      ((blockContents ext.toCodecs baseline written).map some)) =
        files.map (fun file => .ok file.data) := by
  apply List.ext_getElem
  · rw [List.length_map, List.length_map, wrote.entryCount]
  · intro i entryInside inside
    rw [List.length_map] at entryInside inside
    obtain ⟨entry, lookedUp, -, content⟩ :=
      wrote.fileContent_eq reliable scanned readable ⟨i, inside⟩
    obtain rfl := Option.some.inj ((List.getElem?_eq_getElem entryInside).symm.trans lookedUp)
    rw [List.getElem_map, List.getElem_map]
    exact reassembleFileFromBlocks_eq_ok.mpr content

/-- **Blocks that are taken once they are read last** reassemble the files too. -/
theorem WroteFrom.sharedResults_eq :
    sharedResults layout.fileEntries (sharing layout.fileEntries
      ((blockContents ext.toCodecs baseline written).map some)) =
        files.map (fun file => .ok file.data) := by
  have fewEntries : layout.fileEntries.length < 2 ^ 32 := by
    rw [wrote.entryCount]
    exact readable.few.trans_lt (by decide)
  refine (follows_sharing fewEntries _).sharedResults_eq.trans ?_
  rw [wrote.reassembled reliable scanned readable]
  refine upToFailure_eq fun result member => ?_
  obtain ⟨file, -, rfl⟩ := List.mem_map.mp member
  exact ⟨file.data, rfl⟩

variable {decompressor : Decompressor σ} (configured : ConfiguredFor compressor decompressor)
  (addressable : (layout.archive ext.toHashing).length < 2 ^ 63)

include configured addressable

/-- **Seeking delivers the files.** -/
theorem WroteFrom.extractAll_eq
    (valid : ∀ file ∈ files, validateExtractionPath file.entry.path = .ok ()) :
    decompressor.extractAll ext.toExternals (layout.archive ext.toHashing) =
      .ok (files.map restoredFile) := by
  have tiled := wrote.tiled reliable.partitions reliable.bounded scanned readable.accepted
    readable.few addressable
  refine Decompressor.extractAll_eq_ok.mpr ⟨layout.metadata, decryptKey encryption, baseline,
    blockContents ext.toCodecs baseline written, ⟨tiled.seekableRead, wrote.unlocked configured,
      ?_, wrote.decodeAll_eq reliable addressable, ?_, wrote.totalSize_le reliable scanned⟩,
    wrote.mapM_extracted reliable scanned readable valid⟩
  · intro _
    exact Decompressor.onPool_eq_ok reliable.pools _ _
  · rw [Decompressor.compressedTotal]
    split
    · exact wrote.payloadTotal_le reliable scanned readable.few addressable
    · exact wrote.indexedTotal_le reliable scanned readable.few addressable

/-- **Streaming delivers the files.** -/
theorem WroteFrom.extractAllStreaming_eq
    (valid : ∀ file ∈ files, validateExtractionPath file.entry.path = .ok ()) :
    decompressor.extractAllStreaming ext.toExternals (layout.archive ext.toHashing) =
      .ok (files.map restoredFile) := by
  have tiled := wrote.tiled reliable.partitions reliable.bounded scanned readable.accepted
    readable.few addressable
  obtain ⟨rest, streams⟩ := wrote.streams reliable
  have contents := map_fst_streamedBlocks (length_blockContents ext.toCodecs baseline written)
  refine Decompressor.extractAllStreaming_eq_ok.mpr ⟨layout.streamingMetadata,
    decryptKey encryption, baseline,
    streamedBlocks (storedBlocks written) (blockContents ext.toCodecs baseline written),
    ⟨⟨_, rest, tiled.streamingRead, streams⟩, wrote.unlocked configured,
      wrote.streamedTotal_le reliable scanned readable.few, ?_⟩, ?_⟩
  · rw [contents]
    exact wrote.totalSize_le reliable scanned
  · rw [contents]
    exact wrote.mapM_extracted reliable scanned readable valid

end

/-! ## The whole archive -/

/-- An archive that both readers take, whose blocks all decoders restore the files from, and that
both extractions deliver the files of. -/
structure Restores (ext : WriterExternals) (compressor : Compressor σ) {format : FloatFormat}
    (files : List (ScannedFile format)) (archive : Bytes) (metadata : ArchiveMetadata)
    (stream : StreamingMetadata) (firstBlock : Bytes) : Prop where
  seeks : Decompressor.readMetadata ext.toExternals archive = .ok metadata
  streams : Decompressor.readMetadataStreaming ext.toExternals archive = .ok (stream, firstBlock)
  sameFiles : stream.fileEntries = metadata.fileEntries
  sameGroups : stream.solidGroups = metadata.solidGroups
  describes : List.Forall₂ (fun file entry => Describes file.entry entry) files
    metadata.fileEntries
  decodes : ∀ decompressor, ConfiguredFor compressor decompressor →
    ∃ key baseline blocks rest,
      decompressor.decryptKeyOf ext.toExternals metadata = .ok key ∧
      decompressor.decodeBaselineFor ext.toExternals stream.dictionaryHash = .ok baseline ∧
      decompressor.decompressBlocksSequential ext.toExternals archive metadata key = .ok blocks ∧
      decompressor.decompressBlocksParallel ext.toExternals archive metadata key = .ok blocks ∧
      Decompressor.decompressStreamed ext.toExternals baseline key stream.header.blockCount.toNat
        0 0 firstBlock = .ok (blocks, rest) ∧
      metadata.fileEntries.map (fun entry => reassembleFileFromBlocks entry blocks) =
        files.map (fun file => .ok file.data) ∧
      sharedResults metadata.fileEntries (sharing metadata.fileEntries blocks) =
        files.map (fun file => .ok file.data)
  hashes : List.Forall₂
    (fun file entry => checkFileHash ext.toHashing entry file.data = .ok ()) files
    metadata.fileEntries
  extracts : (∀ file ∈ files, validateExtractionPath file.entry.path = .ok ()) →
    ∀ decompressor, ConfiguredFor compressor decompressor →
      decompressor.extractAll ext.toExternals archive = .ok (files.map restoredFile) ∧
        decompressor.extractAllStreaming ext.toExternals archive = .ok (files.map restoredFile)

theorem WroteFrom.restores
    (wrote : WroteFrom ext compressor files encryption baseline usePathPrefixes layout written
      owned)
    (reliable : ext.Reliable) (scanned : Scanned ext.toHashing files)
    (readable : Readable ext.toHashing files)
    (addressable : (layout.archive ext.toHashing).length < 2 ^ 63) :
    Restores ext compressor files (layout.archive ext.toHashing) layout.metadata
      layout.streamingMetadata (layout.afterTables ext.toHashing) where
  seeks := readMetadata_eq_ok.mpr (wrote.tiled reliable.partitions reliable.bounded scanned
    readable.accepted readable.few addressable).seekableRead
  streams := readMetadataStreaming_eq_ok.mpr (wrote.tiled reliable.partitions reliable.bounded
    scanned readable.accepted readable.few addressable).streamingRead
  sameFiles := rfl
  sameGroups := rfl
  describes := wrote.describes
  hashes := by
    have describes := wrote.describes
    rw [List.forall₂_iff_get] at describes ⊢
    refine ⟨describes.1, fun i inside entryInside => checkFileHash_eq_ok.mpr ?_⟩
    exact (scanned.digests _ (List.getElem_mem inside)).symm.trans
      (describes.2 i inside entryInside).same.2.1.symm
  decodes := by
    intro decompressor configured
    have unlocked := wrote.unlocked configured
    have decodes := wrote.decodeAll_eq reliable addressable
    have total := wrote.totalSize_le reliable scanned
    obtain ⟨rest, streams⟩ := wrote.streams reliable
    refine ⟨decryptKey encryption, baseline,
      (blockContents ext.toCodecs baseline written).map some, rest, unlocked.key,
      unlocked.baseline, ?_, ?_, ?_, wrote.reassembled reliable scanned readable,
      wrote.sharedResults_eq reliable scanned readable⟩
    · exact Decompressor.decompressBlocksSequential_eq_ok.mpr ⟨baseline, _, unlocked.baseline,
        decodes, rfl, wrote.indexedTotal_le reliable scanned readable.few addressable, total⟩
    · exact Decompressor.decompressBlocksParallel_eq_ok.mpr ⟨baseline, _, unlocked.baseline,
        Decompressor.onPool_eq_ok reliable.pools _ _, decodes, rfl,
        wrote.payloadTotal_le reliable scanned readable.few addressable, total⟩
    · refine (Decompressor.decompressStreamed_eq_ok (Nat.zero_le _) (Nat.zero_le _)).mpr
        ⟨_, streams, ?_, ?_, ?_⟩
      · rw [map_fst_streamedBlocks (length_blockContents ..)]
      · rw [Nat.zero_add]
        exact wrote.streamedTotal_le reliable scanned readable.few
      · rw [Nat.zero_add, map_fst_streamedBlocks (length_blockContents ..)]
        exact total
  extracts valid decompressor configured :=
    ⟨wrote.extractAll_eq reliable scanned readable configured addressable valid,
      wrote.extractAllStreaming_eq reliable scanned readable configured addressable valid⟩

/-- **Archive round trip.** -/
theorem archive_roundTrip (ext : WriterExternals) (reliable : ext.Reliable)
    (compressor : Compressor σ) (baseDir : UnixPath.Path) (inputs : List InputFile)
    (files : List (ScannedFile ext.arith.double))
    (scans : scanFiles ext.toHashing ext.arith.double baseDir inputs 0 = .ok files)
    (readable : Readable ext.toHashing files) (stats : CompressionStats) (output : Output)
    (success : compressor.compressToArchive ext baseDir inputs = .ok (stats, output)) :
    ∃ metadata stream firstBlock,
      Restores ext compressor files output.bytes metadata stream firstBlock := by
  obtain ⟨again, rescans, writes⟩ := Result.bind_eq_ok.mp success
  obtain rfl := Except.ok.inj (scans.symm.trans rescans)
  obtain ⟨encryption, baseline, usePathPrefixes, layout, written, owned, wrote, bytes⟩ :=
    compressScanned_from writes
  rw [bytes]
  exact ⟨_, _, _, wrote.restores reliable (scanned_of_scanFiles scans) readable
    (bytes ▸ output.addressable)⟩

/-- The three text files with the digests of the reference libraries. -/
theorem readable_threeTexts : Readable sealingWriter.toHashing
    [scannedText "a.txt" "abc", scannedText "b.txt" "ba", scannedText "c.txt" "abc"] where
  accepted := by
    intro file member
    simp only [List.mem_cons, List.not_mem_nil, or_false] at member
    obtain rfl | rfl | rfl := member <;> exact ⟨by decide, by decide⟩
  few := by decide
  collisionFree := by
    intro first firstMember second secondMember digest
    simp only [List.mem_cons, List.not_mem_nil, or_false] at firstMember secondMember
    obtain rfl | rfl | rfl := firstMember <;> obtain rfl | rfl | rfl := secondMember <;>
      first | rfl | exact absurd digest (by decide)

/-- Three text files, two of them of one content, come back from their encrypted archive. -/
theorem archive_roundTrip_texts :
    ∃ (stats : CompressionStats) (output : Output) (metadata : ArchiveMetadata)
      (stream : StreamingMetadata) (firstBlock : Bytes),
      (encrypting Order0Model.new (some referenceConfig)).compressToArchive sealingWriter []
        threeTexts = .ok (stats, output) ∧
      Restores sealingWriter (encrypting Order0Model.new (some referenceConfig))
        [scannedText "a.txt" "abc", scannedText "b.txt" "ba", scannedText "c.txt" "abc"]
        output.bytes metadata stream firstBlock := by
  obtain ⟨stats, output, success⟩ := compressToArchive_short
    (encryptionState_reference Order0Model.new) rfl sealingWriter_untroubled threeTexts_short
    (by decide)
  obtain ⟨metadata, stream, firstBlock, restores⟩ := archive_roundTrip sealingWriter
    sealingWriter_reliable _ _ _ _ scanFiles_threeTexts readable_threeTexts stats output success
  exact ⟨stats, output, metadata, stream, firstBlock, success, restores⟩

end Compressor

end AetherArch
