import AetherArch.Entropy.RejectedStates
import AetherArch.Entropy.SavedCounts
import AetherArch.Pipeline.BaselineAgreement
import AetherArch.Pipeline.OneBlockArchive

/-! # Dictionaries that archives do not need

A configured dictionary is applied to a predictor before any block is decoded, whether or not the
archive asks for one, and becomes the baseline of the neural coder if the predictor takes one. It is
ignored on an archive where reading never comes to it, and where it applies and no payload uses a
baseline.
-/

namespace AetherArch

/-- An archive whose header does not ask for a dictionary. -/
def NeedsNoDictionary (hashing : Hashing) (archive : Bytes) : Prop :=
  ∀ header rest, ArchiveHeader.readFrom hashing archive = .ok (header, rest) →
    hasFlag header.flags FLAG_HAS_DICTIONARY = false

/-- Baselines with which every block within the limits decodes to the same data, or fails with the
same text. -/
def DecodeAlike (codecs : Codecs) (first second : Option Bytes) : Prop :=
  ∀ method (payload : Bytes) (size : Nat), payload.length ≤ MAX_DECOMPRESSED_BLOCK_SIZE →
    size ≤ MAX_DECOMPRESSED_BLOCK_SIZE →
    (decompressChunkWithBaseline codecs payload method size first).mapError AetherError.display =
      (decompressChunkWithBaseline codecs payload method size second).mapError AetherError.display

namespace Decompressor

variable {σ : Type}

def withDictionary (self : Decompressor σ) (dict : Dictionary) : Decompressor σ :=
  { self with dictionary := some dict }

/-- No dictionary configured. -/
def withoutDictionary (self : Decompressor σ) : Decompressor σ := { self with dictionary := none }

variable [ProbabilityPredictor σ]

/-- A dictionary that makes no difference to what is read from an archive. -/
structure IgnoredOn (ext : Externals) (decompressor : Decompressor σ) (dict : Dictionary)
    (archive : Bytes) : Prop where
  extractAll : (decompressor.withDictionary dict).extractAll ext archive =
    decompressor.withoutDictionary.extractAll ext archive
  extractFile : ∀ filePath, (decompressor.withDictionary dict).extractFile ext archive filePath =
    decompressor.withoutDictionary.extractFile ext archive filePath
  extractAllStreaming : (decompressor.withDictionary dict).extractAllStreaming ext archive =
    decompressor.withoutDictionary.extractAllStreaming ext archive
  verify : (decompressor.withDictionary dict).verify ext archive =
    decompressor.withoutDictionary.verify ext archive
  verifyStreaming : (decompressor.withDictionary dict).verifyStreaming ext archive =
    decompressor.withoutDictionary.verifyStreaming ext archive

/-- A dictionary that applies to the predictor and becomes its coding baseline. -/
def Primes (self : Decompressor σ) (dict : Dictionary) : Prop :=
  ∃ predictor, dict.apply self.predictorFactory = .ok predictor ∧
    (ProbabilityPredictor.setCodingBaseline predictor dict.state).1 = true

/-- A dictionary that these payloads do not notice: it applies to the predictor, and becomes a
coding baseline only where none of them uses it. -/
def Unnoticed (self : Decompressor σ) (dict : Dictionary) (payloads : List CodedPayload) : Prop :=
  ∃ predictor, dict.apply self.predictorFactory = .ok predictor ∧
    ((ProbabilityPredictor.setCodingBaseline predictor dict.state).1 = true →
      WithoutBaseline payloads)

/-- Where the metadata read and the key derives, so that reading comes to the dictionary, the
payloads do not notice it. -/
structure Spared (ext : Externals) (decompressor : Decompressor σ) (dict : Dictionary)
    (archive : Bytes) : Prop where
  seeking : ∀ metadata key, readMetadata ext archive = .ok metadata →
    decompressor.decryptKeyOf ext metadata = .ok key →
      decompressor.Unnoticed dict (seekedPayloads ext archive key metadata.blockIndex)
  streaming : ∀ metadata rest key, readMetadataStreaming ext archive = .ok (metadata, rest) →
    deriveDecryptKey ext metadata.header.flags metadata.encryptionHeader decompressor.password =
        .ok key →
      decompressor.Unnoticed dict
        (streamedPayloads ext key metadata.header.blockCount.toNat rest)

variable {ext : Externals} {self : Decompressor σ} {dict : Dictionary} {archive : Bytes}

/-! ## What is resolved -/

/-- The baseline of a dictionary that is not noticed is as good as none. -/
theorem Unnoticed.resolves {payloads : List CodedPayload}
    (unnoticed : self.Unnoticed dict payloads) : ∃ baseline,
      (self.withDictionary dict).decodeBaselineFor ext none = .ok baseline ∧
        ∀ {α : Type} (run : Option Bytes → α),
          (WithoutBaseline payloads → ∀ first second, run first = run second) →
            run baseline = run none := by
  obtain ⟨predictor, applied, plain⟩ := unnoticed
  have resolved : (self.withDictionary dict).decodeBaselineFor ext none =
      if (ProbabilityPredictor.setCodingBaseline predictor dict.state).1 then
        .ok (some dict.state)
      else .ok none := by
    rw [decodeBaselineFor, resolveDictionary, withDictionary]
    dsimp only
    rw [applied]
  rw [resolved]
  split
  · rename_i taken
    exact ⟨_, rfl, fun run alike => alike (plain taken) _ _⟩
  · exact ⟨_, rfl, fun _ _ => rfl⟩

theorem decodeBaselineFor_withoutDictionary :
    self.withoutDictionary.decodeBaselineFor ext none = .ok none := rfl

/-- A state of the predictor's family that loads applies. -/
theorem apply_eq_ok {predictor loaded : σ}
    (family : ProbabilityPredictor.predictorId predictor = dict.predictorId)
    (accepted : ProbabilityPredictor.loadState predictor dict.state = (true, loaded)) :
    dict.apply predictor = .ok loaded := by
  rw [Dictionary.apply, if_neg (not_not.mpr family), accepted]

/-- A dictionary that does not apply cannot be resolved. -/
theorem decodeBaselineFor_eq_error {error : AetherError}
    (refused : dict.apply self.predictorFactory = .error error) :
    (self.withDictionary dict).decodeBaselineFor ext none =
      .error (.decompression s!"Failed to apply dictionary to predictor: {error.display}") := by
  rw [decodeBaselineFor, resolveDictionary, withDictionary]
  dsimp only
  rw [refused]

/-- The header of an archive that needs no dictionary names none. -/
theorem dictionaryHash_eq_none {metadata : ArchiveMetadata}
    (unneeded : NeedsNoDictionary ext.toHashing archive)
    (read : readMetadata ext archive = .ok metadata) : metadata.dictionaryHash = none := by
  obtain ⟨_, _, _, header, -, dictionary⟩ := (readMetadata_eq_ok.mp read).front
  rw [readDictionaryHash, unneeded _ _ header] at dictionary
  exact (Prod.mk.inj (ByteReader.pure_eq_ok.mp dictionary)).1.symm

/-- Nor does the header of its stream. -/
theorem streamed_dictionaryHash_eq_none {metadata : StreamingMetadata} {rest : Bytes}
    (unneeded : NeedsNoDictionary ext.toHashing archive)
    (read : readMetadataStreaming ext archive = .ok (metadata, rest)) :
    metadata.dictionaryHash = none := by
  obtain ⟨_, _, _, _, header, -, dictionary, -⟩ := (readMetadataStreaming_eq_ok.mp read).front
  rw [readDictionaryHash, unneeded _ _ header] at dictionary
  exact (Prod.mk.inj (ByteReader.pure_eq_ok.mp dictionary)).1.symm

/-! ## A dictionary that is not noticed is ignored -/

section

variable {metadata : ArchiveMetadata} {key : Option DecryptKey} {baseline : Option Bytes}

/-- All blocks decode alike on any number of threads. -/
theorem decompressBlocks_withDictionary
    (unnoticed : self.Unnoticed dict (seekedPayloads ext archive key metadata.blockIndex))
    (unhashed : metadata.dictionaryHash = none) :
    (self.withDictionary dict).decompressBlocks ext archive metadata key =
      self.withoutDictionary.decompressBlocks ext archive metadata key := by
  obtain ⟨baseline, resolved, same⟩ := @Unnoticed.resolves σ _ ext self dict _ unnoticed
  have parallel : (self.withDictionary dict).isParallel metadata =
      self.withoutDictionary.isParallel metadata := rfl
  have pool : (self.withDictionary dict).onPool ext "decompression" =
      self.withoutDictionary.onPool ext "decompression" := rfl
  rw [decompressBlocks, decompressBlocks, parallel]
  split
  · rw [decompressBlocksParallel, decompressBlocksParallel]
    refine Result.bind_congr fun rawBlocks read => ?_
    refine Result.bind_congr fun _ _ => ?_
    rw [unhashed, resolved, decodeBaselineFor_withoutDictionary, Result.ok_bind, Result.ok_bind,
      pool]
    refine Result.bind_congr fun _ _ => ?_
    have decoded := same (fun baseline => rawBlocks.map fun block =>
        (decompressRawBlock ext block baseline).map fun data => (block.globalIdx, data))
      fun plain first second => List.map_congr_left fun block member => by
        rw [decompressRawBlock_congr (readRawBlocks_unused plain (List.Subset.refl _) read block
          member) first second]
    rw [decoded]
  · rw [decompressBlocksSequential, decompressBlocksSequential, unhashed, resolved,
      decodeBaselineFor_withoutDictionary, Result.ok_bind, Result.ok_bind]
    exact same (fun baseline => decompressSequentially ext archive baseline key
      metadata.blockIndex 0 0) fun plain first second =>
        decompressSequentially_congr plain (List.Subset.refl _) first second 0 0

end

section

variable (unneeded : NeedsNoDictionary ext.toHashing archive)
  (spared : Spared ext self dict archive)

include unneeded spared

/-- The blocks of all files decode alike. -/
theorem extractAll_withDictionary : (self.withDictionary dict).extractAll ext archive =
    self.withoutDictionary.extractAll ext archive := by
  unfold extractAll
  refine Result.bind_congr fun metadata read => ?_
  have unhashed := dictionaryHash_eq_none unneeded read
  rw [unhashed]
  refine Result.bind_congr fun _ _ => ?_
  refine Result.bind_congr fun key derived => ?_
  rw [decompressBlocks_withDictionary (spared.seeking metadata key read derived) unhashed]

/-- The blocks of one file are among those that decode alike. -/
theorem extractFile_withDictionary (filePath : String) :
    (self.withDictionary dict).extractFile ext archive filePath =
      self.withoutDictionary.extractFile ext archive filePath := by
  unfold extractFile
  refine Result.bind_congr fun metadata read => ?_
  rw [dictionaryHash_eq_none unneeded read]
  refine Result.bind_congr fun _ _ => ?_
  refine Result.bind_congr fun key derived => ?_
  obtain ⟨baseline, resolved, same⟩ :=
    @Unnoticed.resolves σ _ ext self dict _ (spared.seeking metadata key read derived)
  split
  · rfl
  · rename_i entry found
    refine Result.bind_congr fun _ _ => ?_
    rw [resolved, decodeBaselineFor_withoutDictionary, Result.ok_bind, Result.ok_bind]
    dsimp only
    have decoded := same (fun baseline => decompressFileBlocks ext archive baseline key
        ((metadata.blockIndex.drop entry.chunkStartIdx.toNat).take (entry.chunkStartIdx.toNat +
          entry.chunkCount.toNat - entry.chunkStartIdx.toNat)) 0)
      fun unused first second => decompressFileBlocks_congr unused
        (List.Subset.trans (List.take_subset _ _) (List.drop_subset _ _)) first second 0
    rw [decoded]

/-- The blocks along the stream decode alike. -/
theorem extractAllStreaming_withDictionary :
    (self.withDictionary dict).extractAllStreaming ext archive =
      self.withoutDictionary.extractAllStreaming ext archive := by
  unfold extractAllStreaming
  refine congrArg (Prod.fst <$> ·) (ByteReader.bind_congr fun metadata rest read => ?_)
  unfold extractWithStreamingMetadata
  rw [streamed_dictionaryHash_eq_none unneeded read]
  refine ByteReader.bind_congr fun _ afterDictionary checked => ?_
  refine ByteReader.bind_congr fun key afterKey derived => ?_
  obtain ⟨-, rfl⟩ := ByteReader.lift_eq_ok.mp checked
  obtain ⟨keyed, rfl⟩ := ByteReader.lift_eq_ok.mp derived
  obtain ⟨baseline, resolved, same⟩ := @Unnoticed.resolves σ _ ext self dict _
    (spared.streaming metadata _ key read keyed)
  have decoded := same (fun baseline => decompressStreamed ext baseline key
      metadata.header.blockCount.toNat 0 0 rest)
    fun unused first second => decompressStreamed_congr unused first second 0 0
  rw [resolved, decodeBaselineFor_withoutDictionary]
  simp only [ByteReader.bind_apply, ByteReader.lift_apply, Result.ok_bind, decoded]

/-- Verification notices the dictionary in no block. -/
theorem verify_withDictionary : (self.withDictionary dict).verify ext archive =
    self.withoutDictionary.verify ext archive := by
  unfold verify
  refine Result.bind_congr fun metadata read => ?_
  refine Result.bind_congr fun key derived => ?_
  obtain ⟨baseline, resolved, same⟩ :=
    @Unnoticed.resolves σ _ ext self dict _ (spared.seeking metadata key read derived)
  rw [dictionaryHash_eq_none unneeded read, resolved, decodeBaselineFor_withoutDictionary,
    Result.ok_bind, Result.ok_bind]
  have decoded := same (fun baseline => self.verifyBlocks ext archive metadata baseline key)
    fun unused first second => verifyBlocks_congr unused first second
  exact congrArg (· >>= _) decoded

/-- Nor does verification along the stream. -/
theorem verifyStreaming_withDictionary :
    (self.withDictionary dict).verifyStreaming ext archive =
      self.withoutDictionary.verifyStreaming ext archive := by
  unfold verifyStreaming
  apply Result.bind_congr
  rintro ⟨metadata, rest⟩ read
  dsimp only
  unfold verifyWithStreamingMetadata
  refine Result.bind_congr fun key derived => ?_
  obtain ⟨baseline, resolved, same⟩ := @Unnoticed.resolves σ _ ext self dict _
    (spared.streaming metadata rest key read derived)
  rw [streamed_dictionaryHash_eq_none unneeded read, resolved,
    decodeBaselineFor_withoutDictionary, Result.ok_bind, Result.ok_bind]
  exact same _ fun unused first second =>
    congrArg Except.ok (verifyStreamed_congr unused first second 0 _)

/-- **A dictionary that an archive is spared from is ignored** on every path. -/
theorem Spared.ignoredOn : IgnoredOn ext self dict archive where
  extractAll := extractAll_withDictionary unneeded spared
  extractFile := extractFile_withDictionary unneeded spared
  extractAllStreaming := extractAllStreaming_withDictionary unneeded spared
  verify := verify_withDictionary unneeded spared
  verifyStreaming := verifyStreaming_withDictionary unneeded spared

end

/-! ## A dictionary that does not apply -/

/-- The text of a dictionary that does not apply is not the text of a missing pool. -/
theorem applyText_ne_poolText (first second : String) :
    "Failed to apply dictionary to predictor: " ++ first ≠
      "Failed to create " ++ second := by
  intro same
  have start := congrArg (fun text : String => text.toList.take 11) same
  simp only [String.toList_append] at start
  rw [List.take_append_of_le_length (by decide), List.take_append_of_le_length (by decide)]
    at start
  exact absurd start (by decide)

/-- Where reading comes to a dictionary that does not apply, the archive is not verified. -/
theorem verify_eq_error {error : AetherError} {metadata : ArchiveMetadata}
    {key : Option DecryptKey} (unneeded : NeedsNoDictionary ext.toHashing archive)
    (refused : dict.apply self.predictorFactory = .error error)
    (read : readMetadata ext archive = .ok metadata)
    (derived : self.decryptKeyOf ext metadata = .ok key) :
    (self.withDictionary dict).verify ext archive ≠
      self.withoutDictionary.verify ext archive := by
  have unhashed := dictionaryHash_eq_none unneeded read
  have keyed : (self.withDictionary dict).decryptKeyOf ext metadata = .ok key := derived
  have plain : self.withoutDictionary.decryptKeyOf ext metadata = .ok key := derived
  rw [verify, verify, read, Result.ok_bind, Result.ok_bind, keyed, plain, Result.ok_bind,
    Result.ok_bind, unhashed, decodeBaselineFor_eq_error refused,
    decodeBaselineFor_withoutDictionary, Result.error_bind, Result.ok_bind, verifyBlocks]
  split
  · rw [onPool]
    split
    · rintro ⟨⟩
    · split
      · rintro ⟨⟩
      · rw [Result.error_bind, Result.error_bind]
        intro same
        have texts := AetherError.decompression.inj (Except.error.inj same)
        simp only [String.append_assoc] at texts
        exact applyText_ne_poolText _ _ texts
  · rintro ⟨⟩

/-- Nor is its stream. -/
theorem verifyStreaming_eq_error {error : AetherError} {metadata : StreamingMetadata}
    {key : Option DecryptKey} {rest : Bytes} (unneeded : NeedsNoDictionary ext.toHashing archive)
    (refused : dict.apply self.predictorFactory = .error error)
    (read : readMetadataStreaming ext archive = .ok (metadata, rest))
    (derived : deriveDecryptKey ext metadata.header.flags metadata.encryptionHeader self.password =
      .ok key) :
    (self.withDictionary dict).verifyStreaming ext archive ≠
      self.withoutDictionary.verifyStreaming ext archive := by
  have unhashed := streamed_dictionaryHash_eq_none unneeded read
  have keyed : deriveDecryptKey ext metadata.header.flags metadata.encryptionHeader
      (self.withDictionary dict).password = .ok key := derived
  have plain : deriveDecryptKey ext metadata.header.flags metadata.encryptionHeader
      self.withoutDictionary.password = .ok key := derived
  rw [verifyStreaming, verifyStreaming, read, Result.ok_bind, Result.ok_bind]
  dsimp only
  rw [verifyWithStreamingMetadata, verifyWithStreamingMetadata, keyed, plain, Result.ok_bind,
    Result.ok_bind, unhashed, decodeBaselineFor_eq_error refused,
    decodeBaselineFor_withoutDictionary, Result.error_bind, Result.ok_bind]
  rintro ⟨⟩

/-- **A dictionary that does not become a baseline is ignored only on archives that are spared
from it.** -/
theorem IgnoredOn.spared (unneeded : NeedsNoDictionary ext.toHashing archive)
    (unprimed : ¬self.Primes dict) (ignored : IgnoredOn ext self dict archive) :
    Spared ext self dict archive := by
  cases applied : dict.apply self.predictorFactory with
  | ok predictor =>
      have unnoticed (payloads : List CodedPayload) : self.Unnoticed dict payloads :=
        ⟨predictor, applied, fun taken => absurd ⟨predictor, applied, taken⟩ unprimed⟩
      exact ⟨fun _ _ _ _ => unnoticed _, fun _ _ _ _ _ => unnoticed _⟩
  | error error =>
      exact
        { seeking := fun _ _ read derived =>
            absurd ignored.verify (verify_eq_error unneeded applied read derived)
          streaming := fun _ _ _ read derived => absurd ignored.verifyStreaming
            (verifyStreaming_eq_error unneeded applied read derived) }

/-! ## A dictionary that becomes a baseline -/

/-- No archive of one block asks for a dictionary. -/
theorem needsNoDictionary_oneBlock {one : OneBlockArchive} (bounded : one.Bounded)
    (hashing : Hashing) : NeedsNoDictionary hashing (one.bytes hashing) := by
  intro header rest read
  obtain ⟨_, _, front, -⟩ := (@OneBlockArchive.Bounded.tiled hashing one bounded).readable.readsAll
    hashing ((one.layout hashing).tables ++ (one.layout hashing).afterTables hashing)
  have same := Except.ok.inj (front.symm.trans read)
  rw [← (Prod.mk.inj same).1]
  have unprimed : hasFlag 0 FLAG_HAS_DICTIONARY = false := by decide
  exact unprimed

/-- Reading the only block by position comes to its payload. -/
theorem seekedPayloads_oneBlock {one : OneBlockArchive} (bounded : one.Bounded) :
    seekedPayloads ext (one.bytes ext.toHashing) none
      (one.layout ext.toHashing).metadata.blockIndex = [⟨one.method, one.payload, one.size⟩] := by
  obtain ⟨rest, header, valid, ⟨⟨payload, stored⟩, same, payloadRead⟩, trailer⟩ :=
    @OneBlockArchive.Bounded.opens one ext bounded
  dsimp only at same
  subst same
  have size := @OneBlockArchive.Bounded.uncompressedSize ext.toHashing one bounded
  have single : (one.layout ext.toHashing).metadata.blockIndex = [one.indexEntry ext.toHashing] :=
    rfl
  have read : readRawBlock ext (one.bytes ext.toHashing) 0 (one.indexEntry ext.toHashing) none =
      .ok
        { globalIdx := 0, payload := one.payload, compressionMethod := one.method
          uncompressedSize := one.size
          contentBlake3 := (one.block ext.toHashing).trailer.contentBlake3
          blockId := (one.block ext.toHashing).header.blockId
          archiveOffset := (one.indexEntry ext.toHashing).archiveOffset
          solidGroupId := (one.block ext.toHashing).header.solidGroupId } := by
    simp only [readRawBlock, header, valid, payloadRead, trailer, Result.ok_bind,
      maybeDecryptPayload, size]
    rfl
  rw [single, seekedPayloads, List.filterMap_cons, read, List.filterMap_nil]

/-- So does the stream. -/
theorem streamedPayloads_oneBlock {one : OneBlockArchive} (bounded : one.Bounded) :
    ∃ rest, readMetadataStreaming ext (one.bytes ext.toHashing) =
        .ok ((one.layout ext.toHashing).streamingMetadata, rest) ∧
      streamedPayloads ext none 1 rest = [⟨one.method, one.payload, one.size⟩] := by
  have stored := @OneBlockArchive.Bounded.compressedSize ext.toHashing one bounded
  have size := @OneBlockArchive.Bounded.uncompressedSize ext.toHashing one bounded
  refine ⟨_, readMetadataStreaming_eq_ok.mpr bounded.tiled.streamingRead, ?_⟩
  have body : (one.layout ext.toHashing).body = (one.block ext.toHashing).bytes ext.toHashing := rfl
  rw [Layout.afterTables, body, StoredBlock.bytes, List.append_assoc, List.append_assoc]
  refine (streamedPayloads_succ ((one.block ext.toHashing).header.reads ext.toHashing 0 _)
    (checkStreamedSizes_eq_ok.mpr
      ⟨stored.trans_le bounded.payload, size.trans_le bounded.size⟩)
    (Reader.reads_readExact ⟨one.payload, stored.symm⟩ _)
    ((one.block ext.toHashing).trailer.reads ext.toHashing _ _)).trans ?_
  rw [maybeDecryptPayload]
  dsimp only
  rw [size]
  rfl

/-- An archive of one block that uses no baseline is spared from every dictionary that applies. -/
theorem spared_oneBlock {one : OneBlockArchive} (bounded : one.Bounded)
    (unused : (⟨one.method, one.payload, one.size⟩ : CodedPayload).usesBaseline = false)
    {predictor : σ} (applied : dict.apply self.predictorFactory = .ok predictor) :
    Spared ext self dict (one.bytes ext.toHashing) := by
  have plain : WithoutBaseline [⟨one.method, one.payload, one.size⟩] :=
    fun coded member => List.mem_singleton.mp member ▸ unused
  refine ⟨fun metadata key read derived => ?_, fun metadata rest key read derived => ?_⟩
  · obtain rfl := Except.ok.inj (bounded.readMetadata_eq.symm.trans read)
    obtain rfl := Except.ok.inj (OneBlockArchive.decryptKeyOf_eq.symm.trans derived)
    rw [seekedPayloads_oneBlock bounded]
    exact ⟨predictor, applied, fun _ => plain⟩
  · obtain ⟨behind, front, payloads⟩ := @streamedPayloads_oneBlock ext one bounded
    obtain ⟨rfl, rfl⟩ := Prod.mk.inj (Except.ok.inj (front.symm.trans read))
    have single : (one.layout ext.toHashing).streamingMetadata.header.blockCount.toNat = 1 := rfl
    obtain rfl : none = key := Except.ok.inj
      ((@OneBlockArchive.decryptKeyOf_eq one ext σ self).symm.trans derived)
    rw [single, payloads]
    exact ⟨predictor, applied, fun _ => plain⟩

/-- No archive of one block is spared from a dictionary that does not apply. -/
theorem not_spared_oneBlock {one : OneBlockArchive} (bounded : one.Bounded) {error : AetherError}
    (refused : dict.apply self.predictorFactory = .error error) :
    ¬Spared ext self dict (one.bytes ext.toHashing) := by
  intro spared
  obtain ⟨predictor, applied, -⟩ :=
    spared.seeking _ none bounded.readMetadata_eq OneBlockArchive.decryptKeyOf_eq
  rw [refused] at applied
  cases applied

/-- A baseline that no archive notices decodes every payload as none does. -/
theorem decodeAlike_of_ignored
    (ignored : ∀ archive, NeedsNoDictionary ext.toHashing archive →
      IgnoredOn ext self dict archive) {baseline : Option Bytes}
    (resolved : (self.withDictionary dict).decodeBaselineFor ext none = .ok baseline) :
    DecodeAlike ext.toCodecs baseline none := by
  intro method payload size short small
  have plain := @decodeBaselineFor_withoutDictionary σ _ ext self
  have bounded (content : Bytes) : (⟨method, payload, size, content⟩ : OneBlockArchive).Bounded :=
    ⟨short, small⟩
  have extracts (content : Bytes) := (ignored _
    (needsNoDictionary_oneBlock (bounded content) ext.toHashing)).extractFile "a"
  -- the archive whose digests are of the data tells success from failure
  have succeeds : ∀ data,
      decompressChunkWithBaseline ext.toCodecs payload method size baseline = .ok data ↔
        decompressChunkWithBaseline ext.toCodecs payload method size none = .ok data := by
    intro data
    constructor
    · intro decodes
      have extracted := (bounded data).extractFile_eq_content resolved decodes
      exact (bounded data).decodes_of_extractFile plain ((extracts data).symm.trans extracted)
    · intro decodes
      have extracted := (bounded data).extractFile_eq_content plain decodes
      exact (bounded data).decodes_of_extractFile resolved ((extracts data).trans extracted)
  cases left : decompressChunkWithBaseline ext.toCodecs payload method size baseline with
  | ok data => rw [(succeeds data).mp left]
  | error error =>
      cases right : decompressChunkWithBaseline ext.toCodecs payload method size none with
      | ok data => exact absurd (left.symm.trans ((succeeds data).mpr right)) nofun
      | error other =>
          obtain ⟨text, fails⟩ :=
            @OneBlockArchive.Bounded.extractFile_eq_error _ ext σ _ (bounded [])
          have texts := (fails _ _ _ resolved left).symm.trans
            ((extracts []).trans (fails _ _ _ plain right))
          have same := AetherError.decompression.inj (Except.error.inj texts)
          exact congrArg Except.error ((String.append_right_inj text).mp same)

/-- **When a dictionary that an archive does not need is ignored**: if reading never comes to it,
or it applies and no payload uses a baseline. Unless it becomes a baseline, only then; and a
baseline that is ignored on every archive decodes every payload as none does. -/
theorem ignored_if_spared (ext : Externals) (self : Decompressor σ) (dict : Dictionary) :
    (∀ archive, NeedsNoDictionary ext.toHashing archive →
      (Spared ext self dict archive → IgnoredOn ext self dict archive) ∧
        (¬self.Primes dict →
          (IgnoredOn ext self dict archive ↔ Spared ext self dict archive))) ∧
      (self.Primes dict →
        (∀ archive, NeedsNoDictionary ext.toHashing archive → IgnoredOn ext self dict archive) →
          DecodeAlike ext.toCodecs (some dict.state) none) := by
  refine ⟨fun archive unneeded => ⟨Spared.ignoredOn unneeded, fun unprimed =>
    ⟨IgnoredOn.spared unneeded unprimed, Spared.ignoredOn unneeded⟩⟩, ?_⟩
  rintro ⟨predictor, applied, taken⟩ ignored
  refine decodeAlike_of_ignored ignored ?_
  rw [decodeBaselineFor, resolveDictionary, withDictionary]
  dsimp only
  rw [applied]
  exact if_pos taken

/-- A dictionary of another predictor family. -/
def foreignDictionary : Dictionary where
  predictorId := .contextMixer
  state := []
  hash := paddedDigest []

/-- An archive of one stored byte. -/
def oneByte : OneBlockArchive where
  method := .store
  payload := [104]
  size := 1
  content := [104]

/-- A dictionary of the order-0 family that has counted nothing. -/
def freshDictionary : Dictionary where
  predictorId := .order0
  state := Order0Model.new.saveState
  hash := paddedDigest []

/-- A dictionary of the neural family that has learned nothing. -/
def neuralDictionary : Dictionary where
  predictorId := .neuralSsm
  state := NeuralSsmPredictor.savedZeros 32 0 (RlePredictor.savedZeros 0) []
  hash := paddedDigest []

/-- Every neural predictor of the dimension takes it. -/
theorem neuralDictionary_accepted
    (state : NeuralSsmPredictor (.exact NeuralSsmPredictor.flatFunctions))
    (dimension : state.cfg.d = 32) : ∃ loaded,
      state.loadState neuralDictionary.state = (true, loaded) ∧ loaded.cfg = state.cfg := by
  have accepted := RlePredictor.acceptsState_zeros 0
  have length := RlePredictor.length_savedZeros 0
  rw [neuralDictionary]
  generalize RlePredictor.savedZeros 0 = nested at accepted length ⊢
  obtain ⟨parsed, parse, -⟩ := NeuralSsmPredictor.parseState_savedZeros
    NeuralSsmPredictor.readsZero_flat (show 32 ≤ NeuralSsm.D_MAX by decide) state.rle 0
    (show nested.length < 2 ^ 32 by omega) []
  rw [List.append_nil] at parse
  rw [← dimension] at parse
  rw [← dimension]
  exact ⟨_, NeuralSsmPredictor.loadState_eq_of_complete parse (by omega) accepted, rfl⟩

/-- On an archive of one stored byte, a neural dictionary that becomes the baseline is ignored, and
so is one of the order-0 family; a dictionary of another family than the predictor's is not. -/
theorem ignored_if_spared_oneByte :
    let archive := oneByte.bytes referenceExternals.toHashing
    let neural := singleThreaded
      (NeuralSsmPredictor.new : NeuralSsmPredictor (.exact NeuralSsmPredictor.flatFunctions))
    let order0 := singleThreaded Order0Model.new
    neural.Primes neuralDictionary ∧
      IgnoredOn referenceExternals neural neuralDictionary archive ∧
      IgnoredOn referenceExternals order0 freshDictionary archive ∧
      ¬IgnoredOn referenceExternals order0 foreignDictionary archive := by
  intro archive neural order0
  have bounded : oneByte.Bounded := ⟨by decide, by decide⟩
  have unneeded : NeedsNoDictionary referenceExternals.toHashing archive :=
    needsNoDictionary_oneBlock bounded _
  have refused : foreignDictionary.apply order0.predictorFactory = .error (.decompression
      "Dictionary was trained for predictor ContextMixer, but applied to 'Order0'") := rfl
  have unprimed : ¬order0.Primes foreignDictionary := by
    rintro ⟨predictor, applied, -⟩
    rw [refused] at applied
    cases applied
  obtain ⟨loaded, accepted, same⟩ := neuralDictionary_accepted NeuralSsmPredictor.new rfl
  obtain ⟨again, taken, -⟩ := neuralDictionary_accepted loaded (congrArg _ same)
  have applied : neuralDictionary.apply neural.predictorFactory = .ok loaded :=
    apply_eq_ok rfl accepted
  obtain ⟨fresh, reloads, -⟩ := Order0Model.loadState_saveState Order0Model.new_wellFormed
    Order0Model.Reached.new.withinBounds Order0Model.new
  have freshApplied : freshDictionary.apply order0.predictorFactory = .ok fresh :=
    apply_eq_ok rfl reloads
  have installed : (loaded.setDictBaseline neuralDictionary.state).1 = true := by
    rw [NeuralSsmPredictor.setDictBaseline, taken]
  have onNeural :=
    ((ignored_if_spared referenceExternals neural neuralDictionary).1 archive unneeded).1
  have onFresh :=
    ((ignored_if_spared referenceExternals order0 freshDictionary).1 archive unneeded).1
  have onForeign :=
    ((ignored_if_spared referenceExternals order0 foreignDictionary).1 archive unneeded).2 unprimed
  refine ⟨⟨loaded, applied, installed⟩, onNeural (spared_oneBlock bounded rfl applied),
    onFresh (spared_oneBlock bounded rfl freshApplied),
    onForeign.not.mpr (not_spared_oneBlock bounded refused)⟩

/-- **A dictionary that no archive needs makes the extraction fail.** -/
theorem extractFile_foreignDictionary :
    let archive := oneByte.bytes referenceExternals.toHashing
    let decompressor := singleThreaded Order0Model.new
    NeedsNoDictionary referenceExternals.toHashing archive ∧
      decompressor.withoutDictionary.extractFile referenceExternals archive "a" = .ok [104] ∧
      (decompressor.withDictionary foreignDictionary).extractFile referenceExternals archive "a" =
        .error (.decompression ("Failed to apply dictionary to predictor: Decompression error: "
          ++ "Dictionary was trained for predictor ContextMixer, but applied to 'Order0'")) := by
  have bounded : oneByte.Bounded := ⟨by decide, by decide⟩
  refine ⟨needsNoDictionary_oneBlock bounded _, ?_, ?_⟩
  · refine bounded.extractFile_eq_content decodeBaselineFor_withoutDictionary ?_
    rfl
  · have resolved : ((singleThreaded Order0Model.new).withDictionary
        foreignDictionary).decodeBaselineFor referenceExternals none =
          .error (.decompression ("Failed to apply dictionary to predictor: Decompression error: "
            ++ "Dictionary was trained for predictor ContextMixer, but applied to 'Order0'")) := rfl
    rw [extractFile, bounded.readMetadata_eq, Result.ok_bind]
    have unhashed : (oneByte.layout referenceExternals.toHashing).metadata.dictionaryHash = none :=
      rfl
    have found : (oneByte.layout referenceExternals.toHashing).metadata.fileEntries.find?
        (fun entry => entry.path = "a") = some (oneByte.entry referenceExternals.toHashing) := rfl
    rw [unhashed, OneBlockArchive.validateDictionary_of_none, Result.ok_bind,
      OneBlockArchive.decryptKeyOf_eq, Result.ok_bind, found]
    dsimp only
    rw [Result.failIf, if_neg (chunkEnd_lt _), Result.ok_bind, resolved]
    rfl

end Decompressor

end AetherArch
