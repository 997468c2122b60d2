import AetherArch.Pipeline.PlainArchive

/-! # The extraction endpoint

An upload is checked against the limits of the server on the table that the streaming reader
finds, and extracted from the table that the seekable reader finds.
-/

namespace AetherArch

namespace Server

/-- Maximum size of a single uploaded field. -/
def MAX_FIELD_SIZE : Nat := 256 * 1024 * 1024

/-- Server-specific total decompression limit. -/
def MAX_SERVER_DECOMPRESSED_SIZE : UInt64 := 512 * 1024 * 1024

/-- Maximum number of files the server will extract. -/
def MAX_SERVER_FILE_COUNT : UInt32 := 10000

/-- Error of the API. -/
inductive ApiError where
  | badRequest (message : String)
  | unauthorized (message : String)
  | internal (message : String)
  deriving DecidableEq

/-- Fail with an error if something is wrong. -/
def failIf (wrong : Prop) [Decidable wrong] (error : ApiError) : Except ApiError Unit :=
  if wrong then .error error else .ok ()

/-- The error of the API for an error of the library. -/
def ApiError.ofAether (error : AetherError) : ApiError := .internal error.display

/-- The sum of the recorded sizes, as it wraps without overflow checks. -/
def declaredTotal (entries : List FileEntry) : UInt64 :=
  entries.foldl (fun total entry => total + entry.originalSize) 0

/-- Fail unless the server has a predictor for an archive. -/
def makeFactoryFromId (id : PredictorId) : Except ApiError Unit :=
  match id with
  | .order0 => .ok ()
  | .neuralSsm => .ok ()
  | .zstdOnly => .ok ()
  | .rle => .ok ()
  | other => .error (.badRequest s!"Archive uses unknown predictor ID {other.debug}")

/-- Fail unless an uploaded archive is small enough. -/
def readArchiveField (data : Bytes) : Except ApiError Bytes := do
  failIf (data.length > MAX_FIELD_SIZE)
    (.badRequest s!"Upload exceeds maximum size of {MAX_FIELD_SIZE} bytes")
  pure data

/-- What the handler checks before it extracts. -/
def admitExtract (ext : Externals) (upload : Bytes) : Except ApiError StreamingMetadata := do
  let data ← readArchiveField upload
  let (metadata, _) ←
    (Decompressor.readMetadataStreaming ext data).mapError ApiError.ofAether
  failIf (metadata.fileEntries.length > MAX_SERVER_FILE_COUNT.toNat) (.badRequest
    (s!"Archive contains {metadata.fileEntries.length} files, exceeding server limit of "
      ++ s!"{MAX_SERVER_FILE_COUNT}"))
  let total := declaredTotal metadata.fileEntries
  failIf (total > MAX_SERVER_DECOMPRESSED_SIZE) (.badRequest
    (s!"Archive declared total size {total} bytes exceeds server limit of "
      ++ s!"{MAX_SERVER_DECOMPRESSED_SIZE} bytes"))
  makeFactoryFromId metadata.header.predictorId
  pure metadata

/-- The handler, up to the listing of the extracted files. -/
def extract {σ : Type} [ProbabilityPredictor σ] (ext : Externals) (decompressor : Decompressor σ)
    (upload : Bytes) : Except ApiError (List ExtractedFile) := do
  let _ ← admitExtract ext upload
  (decompressor.extractAll ext upload).mapError ApiError.ofAether

/-! ## What the check bounds -/

/-- The mathematical sum of the recorded sizes. -/
def recordedTotal (entries : List FileEntry) : Nat :=
  (entries.map fun entry => entry.originalSize.toNat).sum

/-- Entries within the limits of the server. -/
structure WithinServerLimits (entries : List FileEntry) : Prop where
  count : entries.length ≤ MAX_SERVER_FILE_COUNT.toNat
  total : recordedTotal entries ≤ MAX_SERVER_DECOMPRESSED_SIZE.toNat

/-- The running total wraps around its word. -/
theorem toNat_foldl_add (entries : List FileEntry) (total : UInt64) :
    (entries.foldl (fun total entry => total + entry.originalSize) total).toNat =
      (total.toNat + recordedTotal entries) % 2 ^ 64 := by
  induction entries generalizing total with
  | nil => exact (Nat.mod_eq_of_lt total.toNat_lt).symm
  | cons entry entries recurse =>
      have sum : recordedTotal (entry :: entries) =
          entry.originalSize.toNat + recordedTotal entries := List.sum_cons
      rw [List.foldl_cons, recurse, UInt64.toNat_add, Nat.mod_add_mod, sum, Nat.add_assoc]

/-- The declared total is the recorded one, wrapped. -/
theorem toNat_declaredTotal (entries : List FileEntry) :
    (declaredTotal entries).toNat = recordedTotal entries % 2 ^ 64 := by
  have sum := toNat_foldl_add entries 0
  rwa [UInt64.toNat_zero, Nat.zero_add] at sum

/-- The sum that wraps depends on the recorded sizes alone. -/
theorem declaredTotal_congr {first second : List FileEntry}
    (same : first.map FileEntry.originalSize = second.map FileEntry.originalSize) :
    declaredTotal first = declaredTotal second := by
  have total (entries : List FileEntry) : declaredTotal entries =
      (entries.map FileEntry.originalSize).foldl (fun total size => total + size) 0 := by
    rw [declaredTotal, List.foldl_map]
  rw [total, total, same]

/-- A check passes when nothing is wrong. -/
theorem failIf_eq_ok {wrong : Prop} [Decidable wrong] {error : ApiError} {done : Unit} :
    failIf wrong error = .ok done ↔ ¬wrong := by
  rw [failIf]
  split
  · rename_i holds
    exact ⟨fun success => (by cases success), fun fails => absurd holds fails⟩
  · rename_i fails
    exact ⟨fun _ => fails, fun _ => rfl⟩

/-- **What the handler lets through to the extraction.** -/
theorem admitExtract_eq_ok {ext : Externals} {upload : Bytes} {metadata : StreamingMetadata} :
    admitExtract ext upload = .ok metadata ↔
      upload.length ≤ MAX_FIELD_SIZE ∧
      (∃ rest, StreamingRead ext upload metadata rest) ∧
      metadata.fileEntries.length ≤ MAX_SERVER_FILE_COUNT.toNat ∧
      declaredTotal metadata.fileEntries ≤ MAX_SERVER_DECOMPRESSED_SIZE ∧
      makeFactoryFromId metadata.header.predictorId = .ok () := by
  simp only [admitExtract, readArchiveField, Result.bind_eq_ok, Result.pure_eq_ok, failIf_eq_ok,
    Result.mapError_eq_ok, not_lt, gt_iff_lt, UInt64.not_lt]
  constructor
  · rintro ⟨_, ⟨_, small, rfl⟩, ⟨_, rest⟩, read, _, few, _, total, _, factory, rfl⟩
    exact ⟨small, ⟨rest, readMetadataStreaming_eq_ok.mp read⟩, few, total, factory⟩
  · rintro ⟨small, ⟨rest, read⟩, few, total, factory⟩
    exact ⟨upload, ⟨(), small, rfl⟩, (metadata, rest), readMetadataStreaming_eq_ok.mpr read, (),
      few, (), total, (), factory, rfl⟩

/-- Both readers find as many files. -/
theorem length_fileEntries_eq {ext : Externals} {archive rest : Bytes}
    {metadata : ArchiveMetadata} {streaming : StreamingMetadata}
    (seekable : SeekableRead ext archive metadata)
    (streamed : StreamingRead ext archive streaming rest) :
    metadata.fileEntries.length = streaming.fileEntries.length := by
  obtain ⟨_, _, _, header, -, -⟩ := seekable.front
  obtain ⟨_, _, _, _, headerAgain, -, -, files, -⟩ := streamed.front
  obtain ⟨same, -⟩ := Prod.mk.inj (Except.ok.inj (header.symm.trans headerAgain))
  obtain ⟨count, -⟩ := Decompressor.crossCheck_eq_ok.mp seekable.crossCheck
  rw [seekable.length_fileEntries, ← count, same, length_of_readFileTable files]

/-- **The limits bound what is extracted exactly when the sizes of the extracted table do not sum
to 2⁶⁴ or more, and are those that were checked or pass the check too.** -/
theorem extract_withinLimits_iff {ext : Externals} {upload : Bytes}
    {streaming : StreamingMetadata} {metadata : ArchiveMetadata}
    (admitted : admitExtract ext upload = .ok streaming)
    (read : Decompressor.readMetadata ext upload = .ok metadata) :
    WithinServerLimits metadata.fileEntries ↔
      recordedTotal metadata.fileEntries < 2 ^ 64 ∧
        (metadata.fileEntries.map FileEntry.originalSize =
            streaming.fileEntries.map FileEntry.originalSize ∨
          declaredTotal metadata.fileEntries ≤ MAX_SERVER_DECOMPRESSED_SIZE) := by
  obtain ⟨-, ⟨rest, streamed⟩, few, checked, -⟩ := admitExtract_eq_ok.mp admitted
  have seekable := readMetadata_eq_ok.mp read
  have passes : declaredTotal metadata.fileEntries ≤ MAX_SERVER_DECOMPRESSED_SIZE ↔
      recordedTotal metadata.fileEntries % 2 ^ 64 ≤ MAX_SERVER_DECOMPRESSED_SIZE.toNat := by
    rw [UInt64.le_iff_toNat_le, toNat_declaredTotal]
  have limit : MAX_SERVER_DECOMPRESSED_SIZE.toNat < 2 ^ 64 := UInt64.toNat_lt _
  constructor
  · rintro ⟨-, total⟩
    have exact' : recordedTotal metadata.fileEntries < 2 ^ 64 := total.trans_lt limit
    refine ⟨exact', Or.inr (passes.mpr ?_)⟩
    rwa [Nat.mod_eq_of_lt exact']
  · rintro ⟨exact', same⟩
    refine ⟨(length_fileEntries_eq seekable streamed).trans_le few, ?_⟩
    have total : declaredTotal metadata.fileEntries ≤ MAX_SERVER_DECOMPRESSED_SIZE := by
      rcases same with same | total
      · exact declaredTotal_congr same ▸ checked
      · exact total
    rw [passes, Nat.mod_eq_of_lt exact'] at total
    exact total

/-! ## Sizes that wrap -/

/-- Two files without blocks that are recorded as half of 2⁶⁴ bytes each. -/
def wrappingArchive : PlainArchive where
  fileEntries := [plainEntry referenceExternals.toHashing "a" 9223372036854775808 [] 0 0,
    plainEntry referenceExternals.toHashing "b" 9223372036854775808 [] 0 0]
  contents := []
  record := BlockIndexEntry.compressedSize

/-- The archive with the wrapping total is well formed. -/
theorem wrappingArchive_wellFormed : wrappingArchive.WellFormed where
  files := by decide
  contents := by decide
  readable entry member := by
    have accepted : AcceptedPath "a" ∧ AcceptedPath "b" :=
      ⟨⟨by decide, by decide⟩, ⟨by decide, by decide⟩⟩
    rcases List.mem_cons.mp member with rfl | later
    · exact accepted.1.readable _ _ _ _ _
    · rw [List.mem_singleton.mp later]
      exact accepted.2.readable _ _ _ _ _
  bounded data member := by cases member

/-- A small archive of few files is admitted. -/
theorem admits_plain {plain : PlainArchive} (wellFormed : plain.WellFormed)
    (small : (plain.bytes referenceExternals.toHashing).length ≤ MAX_FIELD_SIZE)
    (few : plain.fileEntries.length ≤ MAX_SERVER_FILE_COUNT.toNat)
    (total : declaredTotal plain.fileEntries ≤ MAX_SERVER_DECOMPRESSED_SIZE) :
    admitExtract referenceExternals (plain.bytes referenceExternals.toHashing) =
      .ok (plain.layout referenceExternals.toHashing).streamingMetadata :=
  admitExtract_eq_ok.mpr ⟨small, ⟨_, wellFormed.tiled.streamingRead⟩, few, total, rfl⟩

/-- The archive with the wrapping total is small. -/
theorem wrappingArchive_small :
    (wrappingArchive.bytes referenceExternals.toHashing).length ≤ MAX_FIELD_SIZE := by
  have tables : wrappingArchive.tables.length = 134 := by
    rw [PlainArchive.tables, List.length_flatMap]
    simp only [wrappingArchive, List.map_cons, List.map_nil, PlainArchive.length_writeTo]
    decide
  rw [PlainArchive.length_archive, tables]
  decide

/-- The handler extracts files whose recorded sizes sum to 2⁶⁴ bytes. -/
theorem extract_wrapping : ∃ streaming metadata files,
    admitExtract referenceExternals (wrappingArchive.bytes referenceExternals.toHashing) =
        .ok streaming ∧
      Decompressor.readMetadata referenceExternals
        (wrappingArchive.bytes referenceExternals.toHashing) = .ok metadata ∧
      extract referenceExternals (Decompressor.singleThreaded Order0Model.new)
        (wrappingArchive.bytes referenceExternals.toHashing) = .ok files ∧
      ¬WithinServerLimits metadata.fileEntries := by
  have admitted := admits_plain wrappingArchive_wellFormed wrappingArchive_small (by decide)
    (by decide)
  have written : wrappingArchive.fileEntries.mapM
      (extracted referenceExternals.toHashing wrappingArchive.contents) = some
        [{ path := "a", data := [], mtime := 0, permissions := 0 },
          { path := "b", data := [], mtime := 0, permissions := 0 }] := by decide
  have extracts := wrappingArchive_wellFormed.extractAll_eq rfl (Nat.zero_le _) Order0Model.new
    written
  have excessive : ¬WithinServerLimits wrappingArchive.fileEntries := by
    intro within
    exact absurd within.total (by decide)
  have handled : extract referenceExternals (Decompressor.singleThreaded Order0Model.new)
      (wrappingArchive.bytes referenceExternals.toHashing) = .ok
        [{ path := "a", data := [], mtime := 0, permissions := 0 },
          { path := "b", data := [], mtime := 0, permissions := 0 }] := by
    rw [extract, admitted, extracts]
    rfl
  exact ⟨_, (wrappingArchive.layout referenceExternals.toHashing).metadata, _, admitted,
    readMetadata_eq_ok.mpr wrappingArchive_wellFormed.seekableRead, handled, excessive⟩

/-- An upload whose only file is recorded as long as it is stays within the limits. -/
theorem extract_withinLimits_faithful :
    WithinServerLimits [plainEntry referenceExternals.toHashing "a" 1 [7] 0 1] := by
  have wellFormed : (PlainArchive.oneFile referenceExternals.toHashing 1 [7]).WellFormed :=
    PlainArchive.oneFile_wellFormed (by decide)
  have tables : (PlainArchive.oneFile referenceExternals.toHashing 1 [7]).tables.length = 67 := by
    rw [PlainArchive.tables, List.length_flatMap]
    simp only [PlainArchive.oneFile, List.map_cons, List.map_nil, PlainArchive.length_writeTo]
    decide
  have body : ((PlainArchive.oneFile referenceExternals.toHashing 1 [7]).body
      referenceExternals.toHashing).length = 65 := by
    rw [PlainArchive.body, List.length_flatMap]
    simp only [PlainArchive.blocks, PlainArchive.oneFile, List.mapIdx_cons, List.mapIdx_nil,
      List.map_cons, List.map_nil, PlainArchive.length_plainBlock]
    decide
  have small : ((PlainArchive.oneFile referenceExternals.toHashing 1 [7]).bytes
      referenceExternals.toHashing).length ≤ MAX_FIELD_SIZE := by
    rw [PlainArchive.length_archive, tables, body]
    decide
  have admitted := admits_plain wellFormed small (by decide) (by decide)
  have read := readMetadata_eq_ok.mpr
    (@PlainArchive.WellFormed.seekableRead _ referenceExternals wellFormed)
  exact (extract_withinLimits_iff admitted read).mpr ⟨by decide, Or.inl rfl⟩

end Server

end AetherArch
