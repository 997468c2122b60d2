import AetherArch.Pipeline.FileAgreement

/-! # Two readers of one archive

The seekable reader takes the file table at the offset in the footer, the streaming reader the
one behind the header. Whatever each of them extracts has the digests of its own table, so the
two agree where the tables do.
-/

namespace AetherArch

/-- What an extraction delivers, without modes and times. -/
def contentsOf (files : List ExtractedFile) : List (String × Bytes) :=
  files.map fun file => (file.path, file.data)

/-- What a file table promises. -/
def promisesOf (entries : List FileEntry) : List (String × Digest) :=
  entries.map fun entry => (entry.path, entry.blake3Hash)

/-- **What is extracted keeps the promises of the table.** -/
theorem promisesOf_extracted {hashing : Hashing} {decoded : List Bytes} {entries : List FileEntry}
    {files : List ExtractedFile}
    (written : entries.mapM (extracted hashing decoded) = some files) :
    (contentsOf files).map (Prod.map id hashing.blake3) = promisesOf entries := by
  rw [contentsOf, promisesOf, List.map_map]
  refine ((mapM_eq_some.mp written).map_eq_map fun entry file accepted => ?_).symm
  rw [Function.comp_apply, Prod.map_apply, id_eq, extracted_path accepted,
    extracted_digest accepted]

/-- Contents are told apart by their digests if no two of them collide. -/
theorem contentsOf_eq {hashing : Hashing} {firsts seconds : List ExtractedFile}
    (collisionFree : CollisionFree hashing (firsts ++ seconds))
    (same : (contentsOf firsts).map (Prod.map id hashing.blake3) =
      (contentsOf seconds).map (Prod.map id hashing.blake3)) :
    contentsOf firsts = contentsOf seconds := by
  apply List.ext_getElem
  · have lengths := congrArg List.length same
    rwa [List.length_map, List.length_map] at lengths
  · intro i inFirsts inSeconds
    have here := congrArg (·[i]?) same
    simp only [List.getElem?_map, List.getElem?_eq_getElem inFirsts,
      List.getElem?_eq_getElem inSeconds, Option.map_some, Option.some.injEq] at here
    simp only [contentsOf, List.getElem_map, Prod.map_apply, id_eq, Prod.mk.injEq] at here ⊢
    obtain ⟨path, digest⟩ := here
    refine ⟨path, collisionFree _ (List.mem_append_left _ (List.getElem_mem _)) _
      (List.mem_append_right _ (List.getElem_mem _)) digest⟩

namespace Decompressor

variable {σ : Type} [ProbabilityPredictor σ] {ext : Externals} {self : Decompressor σ}
  {archive : Bytes}

/-- Both tables promise the same, if both readers extract. -/
def TablesAgree (ext : Externals) (self : Decompressor σ) (archive : Bytes) : Prop :=
  ∀ metadata stream rest, readMetadata ext archive = .ok metadata →
    readMetadataStreaming ext archive = .ok (stream, rest) →
    (∃ files, self.extractAll ext archive = .ok files) →
    (∃ files, self.extractAllStreaming ext archive = .ok files) →
    promisesOf metadata.fileEntries = promisesOf stream.fileEntries

/-- What extraction yields, the seekable reader promises. -/
theorem promises_extractAll {files : List ExtractedFile} {metadata : ArchiveMetadata}
    (success : self.extractAll ext archive = .ok files)
    (read : readMetadata ext archive = .ok metadata) :
    (contentsOf files).map (Prod.map id ext.blake3) = promisesOf metadata.fileEntries := by
  obtain ⟨_, _, _, _, extraction, written⟩ := extractAll_eq_ok.mp success
  obtain rfl := Except.ok.inj (read.symm.trans (readMetadata_eq_ok.mpr extraction.read))
  exact promisesOf_extracted written

/-- What streamed extraction yields, the streaming reader promises. -/
theorem promises_extractAllStreaming {files : List ExtractedFile} {metadata : StreamingMetadata}
    {rest : Bytes} (success : self.extractAllStreaming ext archive = .ok files)
    (read : readMetadataStreaming ext archive = .ok (metadata, rest)) :
    (contentsOf files).map (Prod.map id ext.blake3) = promisesOf metadata.fileEntries := by
  obtain ⟨_, _, _, _, extraction, written⟩ := extractAllStreaming_eq_ok.mp success
  obtain ⟨_, _, readAgain, -⟩ := extraction.decodes
  obtain ⟨rfl, -⟩ := Prod.mk.inj
    (Except.ok.inj (read.symm.trans (readMetadataStreaming_eq_ok.mpr readAgain)))
  exact promisesOf_extracted written

/-- **Both readers extract the same exactly when both tables promise the same.** -/
theorem readers_agree_iff (ext : Externals) (self : Decompressor σ) (archive : Bytes)
    (collisionFree : ∀ files streamed, self.extractAll ext archive = .ok files →
      self.extractAllStreaming ext archive = .ok streamed →
      CollisionFree ext.toHashing (files ++ streamed)) :
    (∀ files streamed, self.extractAll ext archive = .ok files →
      self.extractAllStreaming ext archive = .ok streamed →
      contentsOf files = contentsOf streamed) ↔ self.TablesAgree ext archive := by
  constructor
  · rintro agree metadata stream rest read streamRead ⟨files, success⟩ ⟨streamed, streamSuccess⟩
    rw [← promises_extractAll success read, ← promises_extractAllStreaming streamSuccess streamRead,
      agree files streamed success streamSuccess]
  · intro tables files streamed success streamSuccess
    obtain ⟨metadata, _, _, _, extraction, -⟩ := extractAll_eq_ok.mp success
    obtain ⟨stream, _, _, _, streamExtraction, -⟩ := extractAllStreaming_eq_ok.mp streamSuccess
    obtain ⟨firstBlock, _, streamRead, -⟩ := streamExtraction.decodes
    have read := readMetadata_eq_ok.mpr extraction.read
    have readStream := readMetadataStreaming_eq_ok.mpr streamRead
    apply contentsOf_eq (collisionFree files streamed success streamSuccess)
    rw [promises_extractAll success read, promises_extractAllStreaming streamSuccess readStream]
    exact tables _ _ _ read readStream ⟨files, success⟩ ⟨streamed, streamSuccess⟩

end Decompressor

/-! ## One table and two -/

namespace PlainArchive

open Decompressor

/-- The readers agree on an archive of one file. -/
theorem readers_agree_one :
    let archive := (oneFile referenceExternals.toHashing 1 [7]).bytes referenceExternals.toHashing
    ∀ files streamed,
      (singleThreaded Order0Model.new).extractAll referenceExternals archive = .ok files →
      (singleThreaded Order0Model.new).extractAllStreaming referenceExternals archive =
        .ok streamed → contentsOf files = contentsOf streamed := by
  intro archive
  have wellFormed : (oneFile referenceExternals.toHashing 1 [7]).WellFormed :=
    oneFile_wellFormed (by decide)
  obtain ⟨extracts, streams, -⟩ := @oneFile_extracts 1 [7] _ _ referenceExternals Order0Model.new
    (by decide) (by decide)
  refine (readers_agree_iff _ _ _ fun files streamed success streamSuccess => ?_).mpr ?_
  · obtain rfl := Except.ok.inj (extracts.symm.trans success)
    obtain rfl := Except.ok.inj (streams.symm.trans streamSuccess)
    intro first firstMember second secondMember _
    rw [List.mem_singleton.mp ((or_self_iff).mp (List.mem_append.mp firstMember)),
      List.mem_singleton.mp ((or_self_iff).mp (List.mem_append.mp secondMember))]
  · intro metadata stream rest read streamRead _ _
    obtain rfl := Except.ok.inj (read.symm.trans (readMetadata_eq_ok.mpr
      (@WellFormed.seekableRead _ referenceExternals wellFormed)))
    obtain ⟨rfl, -⟩ := Prod.mk.inj (Except.ok.inj (streamRead.symm.trans
      (readMetadataStreaming_eq_ok.mpr wellFormed.tiled.streamingRead)))
    rfl

end PlainArchive

/-- Front matter of an archive of one empty file whose table stands at an offset. -/
def offsetFront (fileTableOffset blockIndexOffset : UInt64) : FrontMatter where
  header :=
    { flags := 0, predictorId := .order0, fileCount := 1, solidGroupCount := 0, blockCount := 0
      fileTableOffset, blockIndexOffset }
  encryptionHeader := none
  dictionaryHash := none

/-- The entry of an empty file. -/
def emptyEntry (path : String) : FileEntry :=
  plainEntry referenceExternals.toHashing path 0 [] 0 0

/-- The file an empty entry is extracted to. -/
def emptyFile (path : String) : ExtractedFile where
  path := path
  data := []
  mtime := 0
  permissions := 0

def offsetFooter : ArchiveFooter where
  blockIndexOffset := 182
  fileTableOffset := 115
  blockCount := 0
  fileCount := 1

/-- An archive with one table behind its header, and another where the footer says. -/
def twoTables (path other : String) : Bytes :=
  (offsetFront 115 182).bytes referenceExternals.toHashing ++ ((emptyEntry path).writeTo ++
    ((emptyEntry other).writeTo ++ offsetFooter.writeTo referenceExternals.toHashing))

namespace PlainArchive

open Decompressor

/-- The front with two offsets can be read. -/
theorem offsetFront_readable (fileTableOffset blockIndexOffset : UInt64) :
    (offsetFront fileTableOffset blockIndexOffset).Readable where
  counts := by
    have files : (1 : UInt32) ≤ MAX_FILE_COUNT := by decide
    have blocks : (0 : UInt32) ≤ MAX_BLOCK_COUNT := by decide
    have groups : (0 : UInt32) ≤ MAX_SOLID_GROUP_COUNT := by decide
    exact ArchiveHeader.checkCounts_eq_ok.mpr ⟨files, blocks, groups⟩
  encrypted := by
    have unencrypted : hasFlag 0 FLAG_ENCRYPTED = false := by decide
    exact unencrypted
  hasDictionary := by
    have unprimed : hasFlag 0 FLAG_HAS_DICTIONARY = false := by decide
    exact unprimed
  encryption header member := by cases member

/-- It is as long as a header. -/
theorem length_offsetFront (fileTableOffset blockIndexOffset : UInt64) :
    ((offsetFront fileTableOffset blockIndexOffset).bytes
      referenceExternals.toHashing).length = 48 := by
  simp only [offsetFront, FrontMatter.bytes, Option.elim_none, List.append_nil,
    ArchiveHeader.writeTo, ArchiveHeader.fields, List.length_append, length_writeU16,
    length_writeU32, length_writeU64, (ArchiveHeader.computeBlake3Tag ..).2]
  rfl

/-- An empty file has a table. -/
theorem writtenTables_empty {path : String} (accepted : AcceptedPath path) :
    WrittenTables 0 [emptyEntry path] [] (emptyEntry path).writeTo where
  written := by
    have unprefixed : hasFlag 0 FLAG_PATH_PREFIXES = false := rfl
    refine ⟨_, unprefixed ▸ writeFileTable_plain [emptyEntry path] "", ?_⟩
    rw [List.flatMap_singleton, List.flatMap_nil, List.append_nil]
  readable entry member := by
    rw [List.mem_singleton.mp member]
    exact accepted.readable _ _ _ _ _

/-- An empty file is extracted from no blocks. -/
theorem extracted_emptyEntry {path : String} (valid : validateExtractionPath path = .ok ()) :
    [emptyEntry path].mapM (extracted referenceExternals.toHashing []) =
      some [emptyFile path] := by
  have accepted : extracted referenceExternals.toHashing [] (emptyEntry path) =
      some (emptyFile path) := by
    refine extracted_eq_some.mpr ⟨valid, [], intactContent_eq_some.mpr ⟨rfl, rfl⟩, ?_⟩
    have masked : (0 : UInt32) &&& SAFE_PERMISSION_MASK = 0 := by decide
    rw [extractedFile, emptyEntry, plainEntry, masked]
    rfl
  rw [List.mapM_cons, accepted]
  rfl

variable {path other : String}

/-- The streaming reader reads the first table. -/
theorem streamingRead_twoTables (accepted : AcceptedPath path) :
    ∃ rest, StreamingRead referenceExternals (twoTables path other)
      { header := (offsetFront 115 182).header, fileEntries := [emptyEntry path]
        solidGroups := [], encryptionHeader := none, dictionaryHash := none } rest :=
  ⟨_, streamingRead_of_parts (offsetFront_readable _ _) (writtenTables_empty accepted) rfl rfl _⟩

/-- The seekable reader reads the other table. -/
theorem seekableRead_twoTables (short : (asBytes path).length = 1)
    (otherShort : (asBytes other).length = 1) (accepted : AcceptedPath other) :
    SeekableRead referenceExternals (twoTables path other)
      { header := (offsetFront 115 182).header, footer := offsetFooter
        fileEntries := [emptyEntry other], solidGroups := [], blockIndex := []
        encryptionHeader := none, dictionaryHash := none } := by
  have front := length_offsetFront 115 182
  have entry : (emptyEntry path).writeTo.length = 67 := by
    rw [length_writeTo]
    exact congrArg (66 + ·) short
  have otherEntry : (emptyEntry other).writeTo.length = 67 := by
    rw [length_writeTo]
    exact congrArg (66 + ·) otherShort
  have footer : (offsetFooter.writeTo referenceExternals.toHashing).length = 32 :=
    ArchiveFooter.length_writeTo _ _
  have length : (twoTables path other).length = 214 := by
    rw [twoTables, List.length_append, List.length_append, List.length_append, front, entry,
      otherEntry, footer]
  have closes : twoTables path other = ((offsetFront 115 182).bytes referenceExternals.toHashing ++
      ((emptyEntry path).writeTo ++ (emptyEntry other).writeTo)) ++
        offsetFooter.writeTo referenceExternals.toHashing := by
    rw [twoTables, List.append_assoc, List.append_assoc]
  have located : (twoTables path other).drop 115 =
      (emptyEntry other).writeTo ++ offsetFooter.writeTo referenceExternals.toHashing := by
    have start : ((offsetFront 115 182).bytes referenceExternals.toHashing ++
        (emptyEntry path).writeTo).length = 115 := by
      rw [List.length_append, front, entry]
    rw [twoTables, ← List.append_assoc, ← start, List.drop_left]
  have indexed : (twoTables path other).drop 182 =
      offsetFooter.writeTo referenceExternals.toHashing := by
    have start : ((offsetFront 115 182).bytes referenceExternals.toHashing ++
        ((emptyEntry path).writeTo ++ (emptyEntry other).writeTo)).length = 182 := by
      rw [List.length_append, List.length_append, front, entry, otherEntry]
    rw [closes, ← start, List.drop_left]
  have offsets : checkOffsets offsetFooter (twoTables path other).length = .ok () := by
    rw [length]
    decide
  exact seekableRead_of_parts (offsetFront_readable 115 182) rfl closes
    (crossCheck_eq_ok.mpr ⟨rfl, rfl, rfl, rfl⟩) offsets (writtenTables_empty accepted) located
    indexed rfl rfl rfl List.nodup_nil

/-- **Two tables**: seeking extracts the one, streaming the other. -/
theorem readers_disagree :
    (singleThreaded Order0Model.new).extractAll referenceExternals (twoTables "a" "b") =
        .ok [emptyFile "b"] ∧
      (singleThreaded Order0Model.new).extractAllStreaming referenceExternals
        (twoTables "a" "b") = .ok [emptyFile "a"] := by
  have acceptedB : AcceptedPath "b" := ⟨by decide, by decide⟩
  have validB : validateExtractionPath "b" = .ok () := by decide
  have unlocked := @unlocked_of_none referenceExternals _ _ (singleThreaded Order0Model.new) rfl
  obtain ⟨rest, streams⟩ := @streamingRead_twoTables "a" "b" acceptedPath_a
  constructor
  · refine extractAll_eq_ok.mpr ⟨_, none, none, [],
      ⟨seekableRead_twoTables rfl rfl acceptedB, unlocked, ?_, rfl, Nat.zero_le _, Nat.zero_le _⟩,
      extracted_emptyEntry validB⟩
    exact nofun
  · exact extractAllStreaming_eq_ok.mpr ⟨_, none, none, [],
      ⟨⟨_, _, streams, rfl⟩, unlocked, Nat.zero_le _, Nat.zero_le _⟩,
      extracted_emptyEntry validateExtractionPath_a⟩

end PlainArchive

end AetherArch
