import AetherArch.Pipeline.BlockWriting

/-! # Compressing groups

What the compression phase hands over to the writing phase: for every file of a group its own
chunks, or an earlier file of the group whose content has the same digest and size.
-/

namespace AetherArch

/-- A compressed chunk keeps the size and the digest of its chunk. -/
theorem compressChunkWithBaseline_keeps {codecs : Codecs} {chunk : ChunkRef codecs.arith.double}
    {dictBaseline : Option Bytes} {contentType : ContentType} {profile : CompressionProfile}
    {compressed : CompressedChunk}
    (success : compressChunkWithBaseline codecs chunk dictBaseline contentType profile =
      .ok compressed) :
    compressed.originalSize = chunk.length ∧ compressed.blake3Hash = chunk.blake3Hash := by
  rw [compressChunkWithBaseline] at success
  split at success
  · obtain ⟨best, -, success⟩ := Result.bind_eq_ok.mp success
    cases success
    exact ⟨rfl, rfl⟩
  · obtain ⟨⟨best, synced⟩, -, success⟩ := Result.bind_eq_ok.mp success
    dsimp only at success
    split at success
    · cases success
      split <;> exact ⟨rfl, rfl⟩
    · cases success
      exact ⟨rfl, rfl⟩

namespace Compressor

variable {σ : Type} {ext : WriterExternals} {compressor : Compressor σ} {n : Nat}
  {fileEntries : Fin n → FileEntry} {fileDatas : Fin n → Bytes}
  {baseline : Option Bytes}

/-- What files are told apart by. -/
def fileKey (fileEntries : Fin n → FileEntry) (idx : Fin n) : Digest × UInt64 :=
  ((fileEntries idx).blake3Hash, (fileEntries idx).originalSize)

/-- The chunks of some content, compressed. -/
def Compresses (ext : WriterExternals) (compressor : Compressor σ) (baseline : Option Bytes)
    (contentType : ContentType) (fileData : Bytes) (blocks : List CompressedChunk) : Prop :=
  List.Forall₂ (fun chunk compressed =>
      compressChunkWithBaseline ext.toCodecs chunk baseline contentType compressor.profile =
        .ok compressed)
    (Chunker.fileChunks ext.toHashing ext.arith.double ext.fastCdc fileData) blocks

/-- The compressed chunks of a file, or of one with the same digest and size. -/
def ChunksOf (ext : WriterExternals) (compressor : Compressor σ)
    (fileEntries : Fin n → FileEntry) (fileDatas : Fin n → Bytes) (baseline : Option Bytes)
    (idx : Fin n) (blocks : List CompressedChunk) : Prop :=
  ∃ contentType origIdx, fileKey fileEntries origIdx = fileKey fileEntries idx ∧
    Compresses ext compressor baseline contentType (fileDatas origIdx) blocks

theorem Compresses.sum_originalSize {contentType : ContentType} {fileData : Bytes}
    {blocks : List CompressedChunk} (partitions : Chunker.FastCdc.Partitions ext.fastCdc)
    (compresses : Compresses ext compressor baseline contentType fileData blocks) :
    (blocks.map CompressedChunk.originalSize).sum = fileData.length := by
  have sizes : ∀ {chunks : List (ChunkRef ext.arith.double)} {blocks : List CompressedChunk},
      List.Forall₂ (fun chunk compressed => compressChunkWithBaseline ext.toCodecs chunk baseline
        contentType compressor.profile = .ok compressed) chunks blocks →
      (blocks.map CompressedChunk.originalSize).sum = (chunks.flatMap ChunkRef.data).length := by
    intro chunks blocks each
    induction each with
    | nil => rfl
    | @cons chunk compressed chunks blocks success _ recurse =>
        rw [List.map_cons, List.sum_cons, recurse, List.flatMap_cons, List.length_append,
          (compressChunkWithBaseline_keeps success).1, chunk.length_eq]
  rw [sizes compresses, Chunker.fileChunks_flatMap partitions]

theorem compressFile_eq_ok {contentType : ContentType} {fileIdx : Fin n} {fileData : Bytes}
    {fb : CompressedFileBlocks n} :
    compressor.compressFile ext baseline contentType fileIdx fileData = .ok fb ↔
      Compresses ext compressor baseline contentType fileData fb.blocks ∧
        fb = { fileIdx, chunkCount := fb.blocks.length, blocks := fb.blocks
               dupOfFileIdx := none } := by
  simp only [compressFile, Result.bind_eq_ok, Result.mapM_eq_ok, Result.pure_eq_ok]
  constructor
  · rintro ⟨blocks, each, rfl⟩
    exact ⟨each, by rw [← each.length_eq]⟩
  · rintro ⟨each, same⟩
    refine ⟨fb.blocks, each, ?_⟩
    rw [each.length_eq, ← same]

/-- Files seen so far, with a key of each. -/
structure Seen (fileEntries : Fin n → FileEntry) (earlier : List (Fin n))
    (seenFiles : List ((Digest × UInt64) × Fin n)) : Prop where
  earlier : ∀ file ∈ seenFiles, file.2 ∈ earlier
  keys : ∀ file ∈ seenFiles, fileKey fileEntries file.2 = file.1

theorem mem_of_lookup {α β : Type} [BEq α] [LawfulBEq α] {key : α} {value : β}
    {pairs : List (α × β)}
    (found : pairs.lookup key = some value) : (key, value) ∈ pairs := by
  induction pairs with
  | nil => cases found
  | cons pair pairs recurse =>
      obtain ⟨first, second⟩ := pair
      rw [List.lookup_cons] at found
      split at found
      · rename_i same
        cases found
        rw [eq_of_beq same]
        exact List.mem_cons_self
      · exact List.mem_cons_of_mem _ (recurse found)

/-- **A compressed group names every file once**, with its chunks or with those of an earlier
one. -/
theorem compressGroup_spec {contentType : ContentType} {fileIndices : List (Fin n)}
    {earlier : List (Fin n)} {seenFiles : List ((Digest × UInt64) × Fin n)}
    (seen : Seen fileEntries earlier seenFiles) {results : List (CompressedFileBlocks n)}
    (success : compressor.compressGroup ext fileEntries fileDatas baseline contentType fileIndices
      seenFiles = .ok results) :
    results.map CompressedFileBlocks.fileIdx = fileIndices ∧
      GroupResult (ChunksOf ext compressor fileEntries fileDatas baseline) earlier results := by
  induction fileIndices generalizing earlier seenFiles results with
  | nil =>
      cases success
      exact ⟨rfl, .nil⟩
  | cons fileIdx fileIndices recurse =>
      have later : Seen fileEntries (fileIdx :: earlier) seenFiles :=
        ⟨fun file member => List.mem_cons_of_mem _ (seen.earlier file member), seen.keys⟩
      rw [compressGroup] at success
      split at success
      · rename_i origIdx found
        simp only [Result.bind_eq_ok, Result.pure_eq_ok] at success
        obtain ⟨rest, others, rfl⟩ := success
        obtain ⟨indices, result⟩ := recurse later others
        have member := mem_of_lookup found
        refine ⟨congrArg (fileIdx :: ·) indices, .cons ⟨?_, nofun⟩ result⟩
        rintro _ ⟨⟩
        refine ⟨seen.earlier _ member, ?_⟩
        rintro chunks ⟨type, source, key, compresses⟩
        exact ⟨type, source, key.trans (seen.keys _ member), compresses⟩
      · simp only [Result.bind_eq_ok, Result.pure_eq_ok] at success
        obtain ⟨compressed, own, rest, others, rfl⟩ := success
        obtain ⟨compresses, same⟩ := compressFile_eq_ok.mp own
        have this : compressed.fileIdx = fileIdx := congrArg CompressedFileBlocks.fileIdx same
        have noDup : compressed.dupOfFileIdx = none :=
          congrArg CompressedFileBlocks.dupOfFileIdx same
        have count : compressed.chunkCount = compressed.blocks.length :=
          congrArg CompressedFileBlocks.chunkCount same
        have noted : Seen fileEntries (fileIdx :: earlier)
            ((fileKey fileEntries fileIdx, fileIdx) :: seenFiles) := by
          constructor <;> intro file member <;> rcases List.mem_cons.mp member with rfl | member
          · exact List.mem_cons_self
          · exact later.earlier file member
          · rfl
          · exact seen.keys file member
        obtain ⟨indices, result⟩ := recurse noted others
        refine ⟨?_, .cons ⟨?_, fun _ => ⟨⟨contentType, fileIdx, ?_, compresses⟩, count⟩⟩ ?_⟩
        · rw [List.map_cons, indices, this]
        · rw [noDup]
          nofun
        · rw [this]
        · rw [this]
          exact result

/-- **All groups.** -/
theorem compressGroups_spec {groups : List (SolidGroup n)}
    {results : List (List (CompressedFileBlocks n))}
    (success : compressor.compressGroups ext groups fileEntries fileDatas baseline =
      .ok results) :
    List.Forall₂ (fun group fileResults =>
      fileResults.map CompressedFileBlocks.fileIdx = group.fileIndices ∧
        GroupResult (ChunksOf ext compressor fileEntries fileDatas baseline) [] fileResults)
      groups results := by
  rw [compressGroups] at success
  have traversed : groups.mapM (fun group => compressor.compressGroup ext fileEntries fileDatas
      baseline group.contentType group.fileIndices []) = .ok results := by
    split at success
    · split at success
      · cases success
      · exact success
    · exact success
  refine (Result.mapM_eq_ok.mp traversed).imp fun group fileResults compressed => ?_
  have nothing : Seen fileEntries [] [] :=
    ⟨fun _ member => absurd member List.not_mem_nil, fun _ member => absurd member List.not_mem_nil⟩
  exact compressGroup_spec nothing compressed

end Compressor

end AetherArch
