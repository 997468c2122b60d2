import AetherArch.Pipeline.PlainArchive
import AetherArch.Pipeline.WrittenContents

/-! # Archives of short files

A file shorter than the shortest chunk has one block at most. With libraries that compress and
encrypt whatever they are given, the writer accepts any few of such files.
-/

namespace AetherArch

/-- A table of short paths can be written, and takes little room. -/
theorem writeFileTable_short {isPrefixed : Bool} {entries : List FileEntry}
    (short : ∀ entry ∈ entries, (asBytes entry.path).length ≤ MAX_PATH_LENGTH)
    (previousPath : String) :
    ∃ bytes, writeFileTable isPrefixed entries previousPath = .ok bytes ∧
      bytes.length ≤ entries.length * 5000 := by
  have limit : MAX_PATH_LENGTH = 4096 := rfl
  have fixed : FileEntry.FIXED_FIELDS_SIZE = 64 := rfl
  induction entries generalizing previousPath with
  | nil => exact ⟨[], rfl, Nat.zero_le _⟩
  | cons entry entries recurse =>
      obtain ⟨rest, written, small⟩ :=
        recurse (fun other member => short other (List.mem_cons_of_mem _ member)) entry.path
      have fits := short entry List.mem_cons_self
      obtain ⟨bytes, here⟩ := FileEntry.writeEntry_exists isPrefixed fits previousPath
      have length : bytes.length ≤ 5000 := by
        rw [FileEntry.length_writeEntry here, FileEntry.entrySize, FileEntry.prefixedPathSize]
        split <;> omega
      refine ⟨bytes ++ rest, ?_, ?_⟩
      · rw [writeFileTable, here, Result.ok_bind, written]
        rfl
      · rw [List.length_append, List.length_cons]
        omega

/-- A traversal succeeds when each of its steps does. -/
theorem Result.mapM_exists {ε α β : Type} {step : α → Except ε β} {property : β → Prop}
    {xs : List α} (steps : ∀ x ∈ xs, ∃ y, step x = .ok y ∧ property y) :
    ∃ ys, xs.mapM step = .ok ys ∧ ∀ y ∈ ys, property y := by
  induction xs with
  | nil => exact ⟨[], rfl, fun _ member => absurd member List.not_mem_nil⟩
  | cons x xs recurse =>
      obtain ⟨y, here, holds⟩ := steps x List.mem_cons_self
      obtain ⟨ys, rest, hold⟩ := recurse fun other member =>
        steps other (List.mem_cons_of_mem _ member)
      refine ⟨y :: ys, ?_, ?_⟩
      · rw [List.mapM_cons, here, rest]
        rfl
      · intro other member
        rcases List.mem_cons.mp member with rfl | member
        · exact holds
        · exact hold other member

namespace Compressor

/-- A small write succeeds. -/
theorem writeAll_small {output : Output} {bytes : Bytes}
    (small : output.bytes.length + bytes.length < 2 ^ 63) :
    ∃ next, writeAll output bytes = .ok next ∧ next.bytes = output.bytes ++ bytes := by
  have addressable : (output.bytes ++ bytes).length < 2 ^ 63 := by
    rw [List.length_append]
    exact small
  exact ⟨⟨output.bytes ++ bytes, addressable⟩, writeAll_eq_ok.mpr rfl, rfl⟩

/-- A patch inside of an output. -/
theorem seekWriteAll_inside {output : Output} {position : UInt64} {bytes : Bytes}
    (inside : position.toNat + bytes.length ≤ output.bytes.length) :
    ∃ next, seekWriteAll output position bytes = .ok next ∧
      next.bytes.length = output.bytes.length := by
  have same : (overwrite output.bytes position.toNat bytes).length = output.bytes.length := by
    simp only [overwrite, List.length_append, List.length_take, List.length_drop]
    omega
  exact ⟨⟨_, same.trans_lt output.addressable⟩, seekWriteAll_eq_ok.mpr rfl, same⟩

/-! ## Chunks of short files -/

/-- Libraries that compress and encrypt whatever they are given, and lengthen it by a tag at
most. -/
structure Untroubled (ext : WriterExternals) (baseline : Option Bytes) : Prop where
  sound : Router.Sound ext.toCodecs baseline
  compresses : ∀ data, ∃ compressed, ext.zstd.compress data = .ok compressed
  seals : ∀ cipherId key nonce plaintext aad, ∃ ciphertext,
    aeadEncrypt ext.toPrimitives cipherId key nonce plaintext aad = .ok ciphertext ∧
      ciphertext.length ≤ plaintext.length + Crypto.TAG_SIZE
  pools : ∀ threads, ext.threadPool threads = .ok ()

/-- A chunk no longer than the shortest one the chunker cuts. -/
structure ShortChunk (compressed : CompressedChunk) : Prop where
  data : compressed.data.length ≤ Chunker.MIN_CHUNK_SIZE
  originalSize : compressed.originalSize ≤ Chunker.MIN_CHUNK_SIZE

section

variable {σ : Type} {ext : WriterExternals} {compressor : Compressor σ} {n : Nat}
  {fileEntries : Fin n → FileEntry} {fileDatas : Fin n → Bytes} {encryption : EncryptionState}
  {baseline : Option Bytes} (untroubled : Untroubled ext baseline)

include untroubled

/-- **Any chunk compresses** when Zstandard never fails. -/
theorem Untroubled.compressChunk (chunk : ChunkRef ext.arith.double) (contentType : ContentType)
    (profile : CompressionProfile) :
    ∃ compressed, compressChunkWithBaseline ext.toCodecs chunk baseline contentType profile =
      .ok compressed := by
  have fast : ∃ candidate, Router.fastRoute ext.toCodecs chunk.data contentType =
      .ok candidate := by
    obtain ⟨whole, compresses⟩ := untroubled.compresses chunk.data
    rw [Router.fastRoute, compresses, Result.ok_bind]
    generalize (if whole.length < chunk.data.length then (CompressionMethod.zstd, whole)
      else (.store, chunk.data)) = best
    dsimp only
    split
    · split
      · exact ⟨_, rfl⟩
      · rename_i transformed _
        obtain ⟨normalized, compressed⟩ := untroubled.compresses transformed
        rw [compressed, Result.ok_bind]
        exact ⟨_, rfl⟩
    · exact ⟨_, rfl⟩
  have routed : ∃ candidate, Router.methodRoute ext.toCodecs chunk baseline contentType =
      .ok candidate := by
    rw [Router.methodRoute]
    split
    · exact ⟨_, rfl⟩
    · obtain ⟨whole, compresses⟩ := untroubled.compresses chunk.data
      rw [compresses, Result.ok_bind]
      exact ⟨_, rfl⟩
    · exact ⟨_, rfl⟩
  rw [compressChunkWithBaseline]
  split
  · obtain ⟨candidate, fast⟩ := fast
    rw [fast, Result.ok_bind]
    exact ⟨_, rfl⟩
  · obtain ⟨⟨best, synced⟩, routed⟩ := routed
    rw [routed, Result.ok_bind]
    dsimp only
    split
    · exact ⟨_, rfl⟩
    · exact ⟨_, rfl⟩

/-- A file that shares the blocks of another, or has one short chunk at most. -/
def ShortFile (fb : CompressedFileBlocks n) : Prop :=
  fb.chunkCount ≤ 1 ∧ fb.blocks.length ≤ 1 ∧ ∀ compressed ∈ fb.blocks, ShortChunk compressed

/-- A short file compresses to one short chunk at most. -/
theorem Untroubled.compressFile (contentType : ContentType) (fileIdx : Fin n) {fileData : Bytes}
    (short : fileData.length < Chunker.MIN_CHUNK_SIZE) :
    ∃ fb, compressor.compressFile ext baseline contentType fileIdx fileData = .ok fb ∧
      ShortFile fb := by
  have average : Chunker.MIN_CHUNK_SIZE ≤ Chunker.AVG_CHUNK_SIZE := by decide
  have chunks : Chunker.fileChunks ext.toHashing ext.arith.double ext.fastCdc fileData =
      Chunker.chunkFixedRefs ext.toHashing ext.arith.double Chunker.AVG_CHUNK_SIZE (by decide)
        fileData := by
    rw [Chunker.fileChunks, if_pos short]
  have single : (Chunker.fileChunks ext.toHashing ext.arith.double ext.fastCdc
      fileData).length ≤ 1 := chunks ▸ Chunker.length_chunkFixedRefs (short.le.trans average)
  obtain ⟨blocks, compressed, each⟩ := Result.mapM_exists
    fun (chunk : ChunkRef ext.arith.double) (among : chunk ∈
        Chunker.fileChunks ext.toHashing ext.arith.double ext.fastCdc fileData) => by
      obtain ⟨compressed, success⟩ :=
        untroubled.compressChunk chunk contentType compressor.profile
      have within : chunk.data.length ≤ Chunker.MIN_CHUNK_SIZE := by
        rw [chunks] at among
        have part := List.single_le_sum (fun _ _ => Nat.zero_le _) _
          (List.mem_map_of_mem (f := fun chunk => chunk.data.length) among)
        rw [← List.length_flatMap, Chunker.chunkFixedRefs_flatMap] at part
        exact part.trans short.le
      have bounded : chunk.data.length ≤ Chunker.MAX_CHUNK_SIZE := within.trans (by decide)
      obtain ⟨-, shorter, -⟩ := (Router.accepted_compressChunk untroubled.sound bounded
        success).decodes (Router.block_of_chunk bounded)
      have size := (compressChunkWithBaseline_keeps success).1
      rw [chunk.length_eq] at size
      have fits : ShortChunk compressed := ⟨shorter.trans within, size.le.trans within⟩
      exact ⟨compressed, success, fits⟩
  have count : blocks.length ≤ 1 := (Result.mapM_eq_ok.mp compressed).length_eq ▸ single
  refine ⟨{ fileIdx, chunkCount := _, blocks, dupOfFileIdx := none }, ?_, single, count, each⟩
  rw [Compressor.compressFile, compressed, Result.ok_bind]
  rfl

/-- **A group of short files compresses to short files**, one result for each. -/
theorem Untroubled.compressGroup (short : ∀ idx, (fileDatas idx).length < Chunker.MIN_CHUNK_SIZE)
    (contentType : ContentType) (fileIndices : List (Fin n))
    (seenFiles : List ((Digest × UInt64) × Fin n)) :
    ∃ results, compressor.compressGroup ext fileEntries fileDatas baseline contentType
        fileIndices seenFiles = .ok results ∧ ∀ fb ∈ results, ShortFile fb := by
  induction fileIndices generalizing seenFiles with
  | nil => exact ⟨[], rfl, fun _ member => absurd member List.not_mem_nil⟩
  | cons fileIdx fileIndices recurse =>
      rw [Compressor.compressGroup]
      split
      · rename_i origIdx _
        obtain ⟨results, compressed, allShort⟩ := recurse seenFiles
        refine ⟨_ :: results, by rw [compressed]; rfl, ?_⟩
        intro fb member
        rcases List.mem_cons.mp member with rfl | member
        · exact ⟨Nat.zero_le 1, Nat.zero_le 1, fun _ inside => absurd inside List.not_mem_nil⟩
        · exact allShort fb member
      · obtain ⟨own, ownCompressed, ownShort⟩ :=
          @Untroubled.compressFile _ _ compressor _ _ untroubled contentType fileIdx _
            (short fileIdx)
        obtain ⟨results, compressed, allShort⟩ := recurse
          ((((fileEntries fileIdx).blake3Hash, (fileEntries fileIdx).originalSize), fileIdx) ::
            seenFiles)
        refine ⟨own :: results, ?_, ?_⟩
        · rw [ownCompressed, Result.ok_bind, compressed]
          rfl
        · intro fb member
          rcases List.mem_cons.mp member with rfl | member
          · exact ownShort
          · exact allShort fb member

/-- **All groups of short files compress to short files.** -/
theorem Untroubled.compressGroups
    (short : ∀ idx, (fileDatas idx).length < Chunker.MIN_CHUNK_SIZE)
    (groups : List (SolidGroup n)) :
    ∃ results, compressor.compressGroups ext groups fileEntries fileDatas baseline = .ok results ∧
      ∀ fileResults ∈ results, ∀ fb ∈ fileResults, ShortFile fb := by
  obtain ⟨results, compressed, each⟩ := Result.mapM_exists
    fun group (_ : group ∈ groups) => @Untroubled.compressGroup _ _ compressor _ fileEntries _ _
      untroubled short group.contentType group.fileIndices []
  refine ⟨results, ?_, each⟩
  rw [Compressor.compressGroups]
  split
  · rw [untroubled.pools]
    exact compressed
  · exact compressed

/-! ## Blocks of short files -/

/-- A short payload is encrypted, if it is to be, to a short one. -/
theorem Untroubled.blockData (encryption : EncryptionState) (blockId : UInt32) {data : Bytes}
    (short : data.length ≤ Chunker.MIN_CHUNK_SIZE) :
    ∃ payload, Compressor.blockData ext encryption blockId data = .ok payload ∧
      payload.length ≤ data.length + (Crypto.NONCE_SIZE + Crypto.TAG_SIZE) := by
  cases encryption with
  | none => exact ⟨data, rfl, Nat.le_add_right ..⟩
  | some state =>
      obtain ⟨header, key⟩ := state
      have room : ¬data.length > Crypto.MAX_BLOCK_PLAINTEXT_SIZE :=
        not_lt.mpr (short.trans (by decide))
      let nonce := deriveBlockNonce ext.toPrimitives header.masterNonce blockId
      obtain ⟨ciphertext, sealed, tagged⟩ := untroubled.seals header.cipherId key nonce data
        (buildBlockAad header.cipherId blockId)
      refine ⟨nonce.1 ++ ciphertext, ?_, ?_⟩
      · simp only [Compressor.blockData, encryptBlock, Result.bind_eq_ok, Result.failIf_eq_ok,
          Result.pure_eq_ok]
        exact ⟨(), room, ciphertext, sealed, rfl⟩
      · have nonceSize : Crypto.NONCE_SIZE = 12 := rfl
        rw [List.length_append, nonce.2]
        omega

/-- What some short blocks after an opening come to at most. -/
structure Modest (opening blocks : Nat) (writer : BlockWriter n) : Prop where
  opened : opening ≤ writer.output.bytes.length
  output : writer.output.bytes.length ≤ opening + blocks * 20000
  index : writer.allBlockIndices.length ≤ blocks
  counter : writer.blockIdCounter.toNat ≤ blocks

omit untroubled in
/-- Modesty for fewer blocks follows. -/
theorem Modest.mono {opening blocks more : Nat} {writer : BlockWriter n}
    (modest : Modest opening blocks writer) (le : blocks ≤ more) : Modest opening more writer where
  opened := modest.opened
  output := modest.output.trans (Nat.add_le_add_left (Nat.mul_le_mul_right _ le) _)
  index := modest.index.trans le
  counter := modest.counter.trans le

/-- **A short chunk is written** while there are few blocks. -/
theorem Modest.writeBlock {opening blocks : Nat} {writer : BlockWriter n}
    (modest : Modest opening blocks writer) (small : opening ≤ 2 ^ 40) (few : blocks ≤ 1000000)
    (groupId : UInt32) {compressed : CompressedChunk} (short : ShortChunk compressed) :
    ∃ next, Compressor.writeBlock ext encryption groupId writer compressed = .ok next ∧
      Modest opening (blocks + 1) next ∧ next.fileEntries = writer.fileEntries := by
  have shortest : Chunker.MIN_CHUNK_SIZE = 16384 := rfl
  have sealing : Crypto.NONCE_SIZE + Crypto.TAG_SIZE = 28 := rfl
  have headerSize : BLOCK_HEADER_SIZE = 28 := rfl
  have trailerSize : BLOCK_TRAILER_SIZE = 36 := rfl
  obtain ⟨opened, output, index, counter⟩ := modest
  obtain ⟨dataShort, sizeShort⟩ := short
  obtain ⟨payload, encrypted, payloadShort⟩ :=
    untroubled.blockData encryption writer.blockIdCounter dataShort
  let blockHeader : BlockHeader :=
    { blockId := writer.blockIdCounter, solidGroupId := groupId
      compressionMethod := compressed.method
      predictorStateFlag := !compressed.predictorSynced
      compressedSize := UInt32.ofNat payload.length
      uncompressedSize := UInt32.ofNat compressed.originalSize }
  let blockTrailer : BlockTrailer := { contentBlake3 := compressed.blake3Hash }
  have headerLength : (blockHeader.writeTo ext.toHashing).length = BLOCK_HEADER_SIZE :=
    BlockHeader.length_writeTo ..
  have trailerLength : (blockTrailer.writeTo ext.toHashing).length = BLOCK_TRAILER_SIZE :=
    BlockTrailer.length_writeTo ..
  obtain ⟨headed, header, headedBytes⟩ := @writeAll_small writer.output
    (blockHeader.writeTo ext.toHashing) (by omega)
  have headedSize := congrArg List.length headedBytes
  rw [List.length_append, headerLength] at headedSize
  obtain ⟨filled, body, filledBytes⟩ := @writeAll_small headed payload (by omega)
  have filledSize := congrArg List.length filledBytes
  rw [List.length_append] at filledSize
  obtain ⟨closed, trailer, closedBytes⟩ := @writeAll_small filled
    (blockTrailer.writeTo ext.toHashing) (by omega)
  have closedSize := congrArg List.length closedBytes
  rw [List.length_append, trailerLength] at closedSize
  have uncounted : writer.blockIdCounter ≠ UInt32.ofNat (2 ^ 32 - 1) := by
    intro full
    have value := congrArg UInt32.toNat full
    rw [UInt32.toNat_ofNat_of_lt' (by decide)] at value
    omega
  have counted : (writer.blockIdCounter + 1).toNat = writer.blockIdCounter.toNat + 1 := by
    rw [UInt32.toNat_add, UInt32.toNat_one]
    exact Nat.mod_eq_of_lt (by omega)
  let entry : BlockIndexEntry :=
    { blockId := writer.blockIdCounter, archiveOffset := writer.output.position
      compressedSize := UInt32.ofNat (BLOCK_HEADER_SIZE + payload.length + BLOCK_TRAILER_SIZE)
      uncompressedSize := UInt32.ofNat compressed.originalSize, solidGroupId := groupId }
  refine ⟨{ writer with
    output := closed, allBlockIndices := writer.allBlockIndices ++ [entry]
    blockIdCounter := writer.blockIdCounter + 1
    compressedSize := writer.compressedSize + UInt64.ofNat payload.length }, ?_, ?_, rfl⟩
  · simp only [Compressor.writeBlock, Result.bind_eq_ok, Result.failIf_eq_ok, not_le, ge_iff_le,
      Result.pure_eq_ok]
    exact ⟨payload, encrypted, (), by omega, (), by omega, headed, header, filled, body, closed,
      trailer, (), by omega, (), uncounted, rfl⟩
  · refine ⟨?_, ?_, ?_, ?_⟩ <;> dsimp only
    · omega
    · omega
    · rw [List.length_append, List.length_singleton]
      omega
    · omega

/-- The blocks of a short file are written, and its entry changes in its blocks at most. -/
theorem Modest.writeFileBlocks {opening blocks : Nat} {writer : BlockWriter n}
    (modest : Modest opening blocks writer) (small : opening ≤ 2 ^ 40) (few : blocks ≤ 1000000)
    (groupId : UInt32) {fb : CompressedFileBlocks n} (short : ShortFile fb) :
    ∃ next, Compressor.writeFileBlocks ext encryption groupId writer fb = .ok next ∧
      Modest opening (blocks + 1) next ∧
      ∀ idx, SameFile (writer.fileEntries idx) (next.fileEntries idx) := by
  obtain ⟨chunkCount, count, allShort⟩ := short
  have ranged (start chunks : UInt32) :
      Modest opening blocks (writer.setRange fb.fileIdx start chunks) :=
    ⟨modest.opened, modest.output, modest.index, modest.counter⟩
  have more := modest.mono (Nat.le_succ blocks)
  rw [Compressor.writeFileBlocks]
  split
  · exact ⟨_, rfl, ⟨more.opened, more.output, more.index, more.counter⟩,
      sameFile_setRange writer _ _ _⟩
  · have representable (error : AetherError) :
        Result.failIf (fb.chunkCount ≥ 2 ^ 32) error = .ok () :=
      Result.failIf_eq_ok.mpr (not_le.mpr (chunkCount.trans_lt (by decide)))
    rw [representable, Result.ok_bind]
    dsimp only
    generalize fb.blocks = chunks at count allShort
    cases chunks with
    | nil =>
        exact ⟨_, rfl, ⟨more.opened, more.output, more.index, more.counter⟩,
          sameFile_setRange writer _ _ _⟩
    | cons compressed chunks =>
        obtain rfl : chunks = [] := List.eq_nil_of_length_eq_zero (by
          rw [List.length_cons] at count
          omega)
        obtain ⟨next, written, progressed, entries⟩ := Modest.writeBlock untroubled
          (ranged writer.globalChunkIdx (UInt32.ofNat fb.chunkCount)) small few groupId
          (allShort compressed List.mem_cons_self)
        refine ⟨{ next with globalChunkIdx := next.globalChunkIdx + UInt32.ofNat fb.chunkCount },
          ?_, ⟨progressed.opened, progressed.output, progressed.index, progressed.counter⟩, ?_⟩
        · rw [List.foldlM_cons, written]
          rfl
        · intro idx
          dsimp only
          rw [entries]
          exact sameFile_setRange writer _ _ _ idx

/-- The blocks of short files are written one file after the other. -/
theorem Modest.foldlM {opening blocks : Nat} {writer : BlockWriter n}
    (modest : Modest opening blocks writer) (small : opening ≤ 2 ^ 40)
    {fileResults : List (CompressedFileBlocks n)} (few : blocks + fileResults.length ≤ 1000000)
    (groupId : UInt32) (short : ∀ fb ∈ fileResults, ShortFile fb) :
    ∃ next, fileResults.foldlM (Compressor.writeFileBlocks ext encryption groupId) writer =
        .ok next ∧ Modest opening (blocks + fileResults.length) next ∧
      ∀ idx, SameFile (writer.fileEntries idx) (next.fileEntries idx) := by
  induction fileResults generalizing writer blocks with
  | nil => exact ⟨writer, rfl, modest, fun _ => .refl _⟩
  | cons fb fileResults recurse =>
      rw [List.length_cons] at few
      obtain ⟨between, here, progressed, same⟩ := modest.writeFileBlocks untroubled small
        (by omega) groupId (short fb List.mem_cons_self)
      obtain ⟨next, later, finished, sameLater⟩ := recurse progressed (by omega)
        fun other member => short other (List.mem_cons_of_mem _ member)
      refine ⟨next, ?_, ?_, fun idx => (same idx).trans (sameLater idx)⟩
      · rw [List.foldlM_cons, here]
        exact later
      · rw [List.length_cons, Nat.add_comm fileResults.length, ← Nat.add_assoc]
        exact finished

/-- **The blocks of all groups are written**, while the files are few. -/
theorem Modest.writeGroups {opening blocks : Nat} {writer : BlockWriter n}
    (modest : Modest opening blocks writer) (small : opening ≤ 2 ^ 40)
    {groups : List (SolidGroupEntry × List (CompressedFileBlocks n))}
    (few : blocks + (groups.map fun group => group.2.length).sum ≤ 1000000)
    (short : ∀ group ∈ groups, ∀ fb ∈ group.2, ShortFile fb) :
    ∃ next entries, Compressor.writeGroups ext encryption groups writer = .ok (next, entries) ∧
      entries.length = groups.length ∧
      Modest opening (blocks + (groups.map fun group => group.2.length).sum) next ∧
      ∀ idx, SameFile (writer.fileEntries idx) (next.fileEntries idx) := by
  induction groups generalizing writer blocks with
  | nil => exact ⟨writer, [], rfl, rfl, modest, fun _ => .refl _⟩
  | cons group groups recurse =>
      obtain ⟨entry, fileResults⟩ := group
      rw [List.map_cons, List.sum_cons] at few
      obtain ⟨between, here, progressed, same⟩ := modest.foldlM untroubled small
        (by omega) entry.groupId (short _ List.mem_cons_self)
      obtain ⟨next, entries, later, count, finished, sameLater⟩ := recurse progressed
        (by dsimp only at few ⊢; omega)
        fun other member => short other (List.mem_cons_of_mem _ member)
      let written : SolidGroupEntry :=
        { entry with
          firstBlockIdx := writer.blockIdCounter
          blockCount := between.blockIdCounter - writer.blockIdCounter }
      refine ⟨next, written :: entries, ?_, congrArg (· + 1) count, ?_,
        fun idx => (same idx).trans (sameLater idx)⟩
      · rw [Compressor.writeGroups, here, Result.ok_bind, later]
        rfl
      · rw [List.map_cons, List.sum_cons, ← Nat.add_assoc]
        exact finished

end

/-! ## Archives of short files -/

variable {σ : Type} [ProbabilityPredictor σ] {ext : WriterExternals} {compressor : Compressor σ}
  {encryption : EncryptionState} {baseline : Option Bytes}

/-- The encryption header has one size. -/
theorem length_encryptionHeader (header : EncryptionHeader) : header.writeTo.length = 90 := by
  simp only [EncryptionHeader.writeTo, List.length_append, length_writeU8, length_writeU32,
    header.salt.2, header.masterNonce.2, header.verificationTag.2]

/-- **An archive of few files is opened**, and its tables are small. -/
theorem openArchive_short (keyed : compressor.encryptionState ext = .ok encryption) {n : Nat}
    {groups : List (SolidGroup n)} {fileEntries : Fin n → FileEntry} (few : n ≤ 1000000)
    (fewGroups : groups.length ≤ 7)
    (short : ∀ idx, (asBytes (fileEntries idx).path).length ≤ MAX_PATH_LENGTH) :
    ∃ opened, compressor.openArchive ext groups fileEntries = .ok opened ∧
      opened.output.bytes.length ≤ 2 ^ 40 := by
  have headerSize : ARCHIVE_HEADER_SIZE = 48 := rfl
  have groupSize : SOLID_GROUP_ENTRY_SIZE = 24 := rfl
  have shortAssigned : ∀ entry ∈ List.ofFn (assignGroups groups fileEntries),
      (asBytes entry.path).length ≤ MAX_PATH_LENGTH := by
    intro entry member
    obtain ⟨idx, rfl⟩ := List.mem_ofFn.mp member
    rw [assignGroups_same]
    exact short idx
  generalize prefixed : decide (prefixedPathBytes (List.ofFn (assignGroups groups fileEntries)) "" <
    rawPathBytes (List.ofFn (assignGroups groups fileEntries))) = usePathPrefixes
  obtain ⟨fileTable, table, tableSize⟩ :=
    @writeFileTable_short usePathPrefixes _ shortAssigned ""
  rw [List.length_ofFn] at tableSize
  have groupTable := length_groupTable (groups.map solidGroupEntry)
  rw [List.length_map, groupSize] at groupTable
  have headerRecord : (encryption.elim [] fun state => state.1.writeTo).length ≤ 90 := by
    cases encryption with
    | none => exact Nat.zero_le _
    | some state => exact (length_encryptionHeader state.1).le
  have hashRecord : (compressor.dictionary.elim [] fun dict => dict.hash.1).length ≤ 32 := by
    cases compressor.dictionary with
    | none => exact Nat.zero_le _
    | some dict => exact dict.hash.2.le
  obtain ⟨headed, header, headedBytes⟩ := @writeAll_small .empty
    ((compressor.archiveHeader usePathPrefixes n groups.length 0 0 0).writeTo ext.toHashing)
    (by rw [ArchiveHeader.length_writeTo]; decide)
  have headedSize := congrArg List.length headedBytes
  rw [List.length_append, ArchiveHeader.length_writeTo, headerSize] at headedSize
  have nothing : Output.empty.bytes.length = 0 := rfl
  rw [nothing, Nat.zero_add] at headedSize
  obtain ⟨keyedOutput, keys, keyedBytes⟩ := @writeAll_small headed
    (encryption.elim [] fun state => state.1.writeTo) (by omega)
  have keyedSize := congrArg List.length keyedBytes
  rw [List.length_append, headedSize] at keyedSize
  obtain ⟨hashed, hash, hashedBytes⟩ := @writeAll_small keyedOutput
    (compressor.dictionary.elim [] fun dict => dict.hash.1) (by omega)
  have hashedSize := congrArg List.length hashedBytes
  rw [List.length_append, keyedSize] at hashedSize
  obtain ⟨filed, files, filedBytes⟩ := @writeAll_small hashed fileTable (by omega)
  have filedSize := congrArg List.length filedBytes
  rw [List.length_append, hashedSize] at filedSize
  obtain ⟨grouped, groupsWritten, groupedBytes⟩ := @writeAll_small filed
    ((groups.map solidGroupEntry).flatMap SolidGroupEntry.writeTo) (by omega)
  have groupedSize := congrArg List.length groupedBytes
  rw [List.length_append] at groupedSize
  refine ⟨⟨usePathPrefixes, assignGroups groups fileEntries, groups.map solidGroupEntry,
    encryption, hashed.position, filed.position, grouped⟩, ?_, by dsimp only; omega⟩
  have noFailure : ∀ {wrong : Prop} [Decidable wrong] (error : AetherError), ¬wrong →
      Result.failIf wrong error = .ok () := fun error fails => Result.failIf_eq_ok.mpr fails
  rw [openArchive]
  simp only [prefixed, noFailure _ (show ¬n ≥ 2 ^ 32 by omega),
    noFailure _ (show ¬groups.length ≥ 2 ^ 32 by omega), Result.ok_bind, keyed, header, keys, hash,
    table, files, groupsWritten]
  rfl

/-- **The tables of few files are completed** behind their blocks. -/
theorem closeArchive_short {n : Nat} {groups : List (SolidGroup n)}
    {fileEntries : Fin n → FileEntry} {opened : Opened n}
    (openedFor : OpenedFor ext compressor groups fileEntries opened)
    (small : opened.output.bytes.length ≤ 2 ^ 40)
    (short : ∀ idx, (asBytes (fileEntries idx).path).length ≤ MAX_PATH_LENGTH)
    {blocks : Nat} {writer : BlockWriter n}
    (modest : Modest opened.output.bytes.length blocks writer) (few : blocks ≤ 1000000)
    (same : ∀ idx, SameFile (opened.fileEntries idx) (writer.fileEntries idx))
    {entries : List SolidGroupEntry} (count : entries.length = opened.solidGroupEntries.length) :
    ∃ closed, compressor.closeArchive ext opened writer entries = .ok closed := by
  have headerSize : ARCHIVE_HEADER_SIZE = 48 := rfl
  have footerSize : ARCHIVE_FOOTER_SIZE = 32 := rfl
  have indexSize : BLOCK_INDEX_ENTRY_SIZE = 24 := rfl
  obtain ⟨openedInside, outputSize, indexCount, -⟩ := modest
  obtain ⟨placeholder, firstTable, firstWritten, opening, tableOffset, groupOffset⟩ :=
    openedFor.tables
  have front : ARCHIVE_HEADER_SIZE ≤
      ((frontMatter compressor opened.encryptionState placeholder).bytes ext.toHashing).length := by
    rw [frontMatter_bytes, List.length_append, ArchiveHeader.length_writeTo]
    exact Nat.le_add_right ..
  have openedSize := congrArg List.length opening
  simp only [List.length_append] at openedSize groupOffset
  have shortWritten : ∀ entry ∈ List.ofFn writer.fileEntries,
      (asBytes entry.path).length ≤ MAX_PATH_LENGTH := by
    intro entry member
    obtain ⟨idx, rfl⟩ := List.mem_ofFn.mp member
    rw [(same idx).path, openedFor.fileEntries, assignGroups_same]
    exact short idx
  obtain ⟨fileTable, table, -⟩ :=
    @writeFileTable_short opened.usePathPrefixes _ shortWritten ""
  have sameTable : firstTable.length = fileTable.length := by
    refine length_writeFileTable_congr ?_ firstWritten table
    rw [List.forall₂_iff_get]
    refine ⟨by simp only [List.length_ofFn], fun i _ _ => ?_⟩
    rw [List.get_ofFn, List.get_ofFn]
    exact same _
  have sameGroups : (entries.flatMap SolidGroupEntry.writeTo).length =
      (opened.solidGroupEntries.flatMap SolidGroupEntry.writeTo).length := by
    rw [length_groupTable, length_groupTable, count]
  have indexLength := length_flatMap_writeTo writer.allBlockIndices
  rw [indexSize] at indexLength
  obtain ⟨indexed, index, indexedBytes⟩ := @writeAll_small writer.output
    (writer.allBlockIndices.flatMap BlockIndexEntry.writeTo) (by omega)
  have indexedSize := congrArg List.length indexedBytes
  rw [List.length_append, indexLength] at indexedSize
  obtain ⟨footed, footer, footedBytes⟩ := @writeAll_small indexed
    (ArchiveFooter.writeTo ext.toHashing
      { blockIndexOffset := writer.output.position, fileTableOffset := opened.fileTableOffset
        blockCount := writer.blockIdCounter, fileCount := UInt32.ofNat n })
    (by rw [ArchiveFooter.length_writeTo]; omega)
  have footedSize := congrArg List.length footedBytes
  rw [List.length_append, ArchiveFooter.length_writeTo] at footedSize
  obtain ⟨headed, header, headedSize⟩ := @seekWriteAll_inside footed 0
    ((compressor.archiveHeader opened.usePathPrefixes n opened.solidGroupEntries.length
      writer.blockIdCounter opened.fileTableOffset writer.output.position).writeTo ext.toHashing)
    (by rw [ArchiveHeader.length_writeTo, UInt64.toNat_zero]; omega)
  obtain ⟨filed, files, filedSize⟩ := @seekWriteAll_inside headed opened.fileTableOffset fileTable
    (by rw [tableOffset]; omega)
  obtain ⟨closed, groupsWritten, -⟩ := @seekWriteAll_inside filed opened.solidGroupTablePos
    (entries.flatMap SolidGroupEntry.writeTo) (by rw [groupOffset]; omega)
  refine ⟨closed, ?_⟩
  rw [closeArchive]
  simp only [index, Result.ok_bind, footer, header, table, files, groupsWritten]

/-- Few files, all of them short and with short paths. -/
structure FewShort {format : FloatFormat} (files : List (ScannedFile format)) : Prop where
  few : files.length ≤ 1000
  short : ∀ file ∈ files, file.data.length < Chunker.MIN_CHUNK_SIZE
  sizes : ∀ file ∈ files, file.info.size.toNat = file.data.length
  paths : ∀ file ∈ files, (asBytes file.entry.path).length ≤ MAX_PATH_LENGTH

/-- Few short files make one group of each type at most. -/
theorem FewShort.groups_le {format : FloatFormat} {files : List (ScannedFile format)}
    (fewShort : FewShort files) :
    (Grouper.groupFiles fun idx : Fin files.length => files[idx].info).length ≤ 7 := by
  have shortest : Chunker.MIN_CHUNK_SIZE = 16384 := rfl
  have groupLimit : Grouper.MAX_SOLID_GROUP_SIZE.toNat = 268435456 := rfl
  have types : ContentType.ascending.length = 7 := rfl
  have total : Grouper.sizeOfAll (fun idx : Fin files.length => files[idx].info)
      (List.finRange files.length) ≤ files.length * Chunker.MIN_CHUNK_SIZE := by
    have each := List.sum_le_card_nsmul ((List.finRange files.length).map
      fun idx => files[idx].info.size.toNat) Chunker.MIN_CHUNK_SIZE ?_
    · rw [List.length_map, List.length_finRange, smul_eq_mul] at each
      exact each
    · intro size member
      obtain ⟨idx, -, rfl⟩ := List.mem_map.mp member
      have among : files[idx] ∈ files := List.getElem_mem _
      exact (fewShort.sizes _ among).trans_le (fewShort.short _ among).le
  have few := fewShort.few
  rw [shortest] at total
  have bound := @Grouper.length_groupFiles_le _ _ (fun idx : Fin files.length => files[idx].info)
    (by omega)
  rw [types, groupLimit] at bound
  omega

/-- **Few short files are always written.** -/
theorem compressScanned_short (keyed : compressor.encryptionState ext = .ok encryption)
    (coded : compressor.encodeBaseline = .ok baseline)
    (untroubled : Untroubled ext baseline) {files : List (ScannedFile ext.arith.double)}
    (fewShort : FewShort files) :
    ∃ stats output, compressor.compressScanned ext files = .ok (stats, output) := by
  have few := fewShort.few
  obtain ⟨opened, opens, openedSize⟩ := @openArchive_short σ _ ext compressor encryption
    keyed _ _ (fun idx : Fin files.length => files[idx].entry) (by omega) fewShort.groups_le
    fun idx => fewShort.paths _ (List.getElem_mem _)
  have openedFor := openArchive_spec opens
  obtain ⟨results, compressed, short⟩ := @Untroubled.compressGroups σ ext compressor _
    opened.fileEntries (fun idx => files[idx].data) baseline untroubled
    (fun idx => fewShort.short _ (List.getElem_mem _))
    (Grouper.groupFiles fun idx : Fin files.length => files[idx].info)
  have each := compressGroups_spec compressed
  have counts : ((opened.solidGroupEntries.zip results).map fun group => group.2.length).sum =
      files.length := by
    have lengths : results.map List.length =
        (Grouper.groupFiles fun idx : Fin files.length => files[idx].info).map
          fun group => group.fileIndices.length := by
      exact (each.map_eq_map fun group fileResults compressed => by
        rw [← compressed.1, List.length_map]).symm
    have seconds : (opened.solidGroupEntries.zip results).map (fun group => group.2.length) =
        results.map List.length := by
      have same : opened.solidGroupEntries.length = results.length := by
        rw [openedFor.solidGroupEntries, List.length_map, each.length_eq]
      have second := congrArg (List.map List.length) (List.map_snd_zip same.ge)
      rw [List.map_map] at second
      exact second
    rw [seconds, lengths, ← List.length_flatMap, Grouper.groupFiles_perm.length_eq,
      List.length_finRange]
  have start : Modest opened.output.bytes.length 0
      { output := opened.output, fileEntries := opened.fileEntries, allBlockIndices := []
        blockIdCounter := 0, globalChunkIdx := 0, compressedSize := 0 } :=
    ⟨le_rfl, Nat.le_add_right .., Nat.zero_le _, Nat.zero_le _⟩
  obtain ⟨writer, entries, written, count, modest, same⟩ :=
    @Modest.writeGroups ext _ opened.encryptionState baseline untroubled _ _ _ start openedSize
      (opened.solidGroupEntries.zip results) (by rw [counts]; omega)
      fun group member => short _ (List.of_mem_zip member).2
  rw [counts, Nat.zero_add] at modest
  have entryCount : entries.length = opened.solidGroupEntries.length := by
    rw [count, List.length_zip, ← each.length_eq, openedFor.solidGroupEntries, List.length_map,
      Nat.min_self]
  obtain ⟨closed, closes⟩ := closeArchive_short openedFor openedSize
    (fun idx => fewShort.paths _ (List.getElem_mem _)) modest (by omega) same entryCount
  rw [compressScanned]
  simp only [opens, coded, compressed, written, closes, Result.ok_bind]
  exact ⟨_, _, rfl⟩

/-- A short file with a path that can be archived. -/
structure ShortInput (baseDir : UnixPath.Path) (input : InputFile) (relPath : String) : Prop where
  content : ∃ data, input.content = .ok data ∧ data.length < Chunker.MIN_CHUNK_SIZE
  relative : relativePath baseDir input.path = .ok relPath
  path : (asBytes relPath).length ≤ MAX_PATH_LENGTH

/-- Few short files are scanned. -/
theorem scanFiles_short (hashing : Hashing) (format : FloatFormat) {baseDir : UnixPath.Path}
    {inputs : List InputFile} {relPaths : List String} {cumulativeInputSize : Nat}
    (short : List.Forall₂ (ShortInput baseDir) inputs relPaths)
    (few : cumulativeInputSize + inputs.length * Chunker.MIN_CHUNK_SIZE ≤ MAX_TOTAL_INPUT_SIZE) :
    ∃ files, scanFiles hashing format baseDir inputs cumulativeInputSize = .ok files := by
  have inputLimit : MAX_TOTAL_INPUT_SIZE = 8589934592 := rfl
  induction short generalizing cumulativeInputSize with
  | nil => exact ⟨[], rfl⟩
  | @cons input relPath inputs relPaths here _ recurse =>
      obtain ⟨data, content, small⟩ := here.content
      rw [List.length_cons, Nat.succ_mul] at few
      have unsaturated : min (cumulativeInputSize + data.length) (2 ^ 64 - 1) =
          cumulativeInputSize + data.length := min_eq_left (by omega)
      have within :
        ¬min (cumulativeInputSize + data.length) (2 ^ 64 - 1) > MAX_TOTAL_INPUT_SIZE := by
        rw [unsaturated]
        omega
      obtain ⟨files, scanned⟩ := @recurse (cumulativeInputSize + data.length) (by omega)
      refine ⟨scanFile hashing format relPath input data :: files, ?_⟩
      simp only [scanFiles, Result.bind_eq_ok, Result.failIf_eq_ok, Result.pure_eq_ok]
      refine ⟨data, content, (), within, relPath, here.relative, files, ?_, rfl⟩
      rw [unsaturated]
      exact scanned

/-- **The writer accepts any few short files** whose paths can be archived. -/
theorem compressToArchive_short (keyed : compressor.encryptionState ext = .ok encryption)
    (coded : compressor.encodeBaseline = .ok baseline)
    (untroubled : Untroubled ext baseline) {baseDir : UnixPath.Path}
    {inputs : List InputFile} {relPaths : List String}
    (short : List.Forall₂ (ShortInput baseDir) inputs relPaths) (few : inputs.length ≤ 1000) :
    ∃ stats output, compressor.compressToArchive ext baseDir inputs = .ok (stats, output) := by
  have shortest : Chunker.MIN_CHUNK_SIZE = 16384 := rfl
  have inputLimit : MAX_TOTAL_INPUT_SIZE = 8589934592 := rfl
  obtain ⟨files, scans⟩ := @scanFiles_short ext.toHashing ext.arith.double _ _ _ 0 short
    (by rw [shortest]; omega)
  have each := (scanFiles_spec scans).1
  have fewShort : FewShort files := by
    refine ⟨each.length_eq ▸ few, ?_, ?_, ?_⟩
    all_goals
      intro file member
      obtain ⟨input, among, data, relPath, content, relative, rfl⟩ := each.exists_left member
      obtain ⟨expected, -, expects⟩ := short.exists_right among
      obtain ⟨found, has, small⟩ := expects.content
      obtain rfl := Except.ok.inj (content.symm.trans has)
    · exact small
    · exact UInt64.toNat_ofNat_of_lt' (small.trans (by decide))
    · obtain rfl := Except.ok.inj (relative.symm.trans expects.relative)
      exact expects.path
  obtain ⟨stats, output, written⟩ := compressScanned_short keyed coded untroubled fewShort
  refine ⟨stats, output, ?_⟩
  rw [compressToArchive, scans]
  exact written

/-- A compressor with nothing but encryption configured. -/
def encrypting {σ : Type} (predictorFactory : σ) (config : Option EncryptionConfig) :
    Compressor σ where
  predictorFactory := predictorFactory
  maxThreads := 0
  profile := .archival
  encryptionConfig := config
  dictionary := none

/-- A compressor with nothing configured. -/
def plain {σ : Type} (predictorFactory : σ) : Compressor σ := encrypting predictorFactory none

/-- Without a password there is no key. -/
theorem keyless {σ : Type} {ext : WriterExternals} (predictorFactory : σ) :
    (plain predictorFactory).encryptionState ext = .ok none := rfl

end Compressor

/-! ## Libraries to read and write with -/

/-- Cuts of a fixed length. -/
def fixedCuts (size : Nat) (positive : 0 < size) (start stop : Nat) : List (Nat × Nat) :=
  if stop ≤ start then []
  else (start, min size (stop - start)) :: fixedCuts size positive (start + size) stop
termination_by stop - start

/-- Cuts of a fixed size tile the data. -/
theorem tiles_fixedCuts (size : Nat) (positive : 0 < size) {start stop : Nat}
    (before : start ≤ stop) : Chunker.Tiles stop start (fixedCuts size positive start stop) := by
  induction start using fixedCuts.induct size positive stop with
  | case1 start done =>
      obtain rfl := le_antisymm before done
      rw [fixedCuts, if_pos le_rfl]
      exact .nil
  | case2 start more recurse =>
      rw [fixedCuts, if_neg more]
      refine .cons ?_
      rcases Nat.le_total (start + size) stop with inside | last
      · rw [min_eq_left (Nat.le_sub_of_add_le' inside)]
        exact recurse inside
      · rw [min_eq_right (Nat.sub_le_iff_le_add'.mpr last), Nat.add_sub_cancel' before, fixedCuts,
          if_pos last]
        exact .nil

/-- The reference libraries with a chunker that cuts at fixed lengths. -/
def referenceWriter : WriterExternals where
  toExternals := referenceExternals
  fastCdc data _ _ _ := fixedCuts Chunker.MAX_CHUNK_SIZE (by decide) 0 data.length
  salt := paddedDigest []
  masterNonce := ⟨List.replicate 12 0, rfl⟩

theorem referenceWriter_partitions : Chunker.FastCdc.Partitions referenceWriter.fastCdc :=
  fun data => tiles_fixedCuts _ _ (Nat.zero_le data.length)

/-- A cipher that leaves its message readable and adds a keyed digest of it as the tag. -/
def digestAead (keyedHash : Digest → Bytes → Digest) : Aead where
  encrypt key nonce plaintext aad :=
    .ok (plaintext ++ (keyedHash key (nonce.1 ++ aad ++ plaintext)).1.take Crypto.TAG_SIZE)
  decrypt key nonce ciphertext aad :=
    let plaintext := ciphertext.take (ciphertext.length - Crypto.TAG_SIZE)
    if ciphertext.drop (ciphertext.length - Crypto.TAG_SIZE) =
        (keyedHash key (nonce.1 ++ aad ++ plaintext)).1.take Crypto.TAG_SIZE then some plaintext
    else none

/-- The reference cipher inverts. -/
theorem digestAead_inverts (keyedHash : Digest → Bytes → Digest) :
    (digestAead keyedHash).Inverts := by
  have tag (key : Digest) (message : Bytes) :
      ((keyedHash key message).1.take Crypto.TAG_SIZE).length = Crypto.TAG_SIZE := by
    rw [List.length_take, (keyedHash key message).2]
    rfl
  constructor
  · rintro key nonce plaintext aad _ ⟨⟩
    dsimp only [digestAead]
    rw [List.length_append, tag, Nat.add_sub_cancel, List.take_left, List.drop_left, if_pos rfl]
  · rintro key nonce plaintext aad _ ⟨⟩
    rw [List.length_append, tag]

/-- Fixed cuts are full, but for the last. -/
theorem bounded_fixedCuts (size : Nat) (positive : 0 < size) (start stop : Nat) :
    (∀ cut ∈ fixedCuts size positive start stop, cut.2 ≤ size) ∧
      ∀ cut ∈ (fixedCuts size positive start stop).dropLast, cut.2 = size := by
  induction start using fixedCuts.induct size positive stop with
  | case1 start done =>
      rw [fixedCuts, if_pos done]
      exact ⟨fun _ member => absurd member List.not_mem_nil,
        fun _ member => absurd member List.not_mem_nil⟩
  | case2 start more recurse =>
      rw [fixedCuts, if_neg more]
      constructor
      · intro cut member
        rcases List.mem_cons.mp member with rfl | later
        · exact min_le_left ..
        · exact recurse.1 cut later
      · cases rest : fixedCuts size positive (start + size) stop with
        | nil => exact fun _ member => absurd member List.not_mem_nil
        | cons next cuts =>
            have room : ¬stop ≤ start + size := by
              intro done
              rw [fixedCuts, if_pos done] at rest
              cases rest
            rw [rest] at recurse
            rw [List.dropLast_cons_cons]
            intro cut member
            rcases List.mem_cons.mp member with rfl | later
            · exact min_eq_left (Nat.le_sub_of_add_le' (not_le.mp room).le)
            · exact recurse.2 cut later

/-- The reference libraries with ciphers that add a tag. -/
def sealingWriter : WriterExternals :=
  { referenceWriter with
    aesGcm := digestAead referenceExternals.keyedHash
    chaCha := digestAead referenceExternals.keyedHash }

/-- The reference libraries keep every promise. -/
theorem sealingWriter_reliable : sealingWriter.Reliable where
  predictor := Router.contract_codingPredictor rfl
  zstd := Router.referenceCodecs_sound.inverts
  libsais := Router.referenceCodecs_sound.sorts
  partitions := referenceWriter_partitions
  bounded := by
    have atLeast : Chunker.MIN_CHUNK_SIZE ≤ Chunker.MAX_CHUNK_SIZE := by decide
    exact ⟨fun data => (bounded_fixedCuts _ _ 0 data.length).1,
      fun data cut member => ((bounded_fixedCuts _ _ 0 data.length).2 cut member).symm ▸ atLeast⟩
  aesGcm := digestAead_inverts _
  chaCha := digestAead_inverts _
  pools _ := rfl

namespace Compressor

/-- A password and a cipher. -/
def referenceConfig : EncryptionConfig where
  password := asBytes "password"
  cipherId := .aes256Gcm

def referenceKey : Digest := paddedDigest (asBytes "password")

def referenceHeader : EncryptionHeader where
  version := Crypto.HEADER_VERSION
  cipherId := .aes256Gcm
  salt := sealingWriter.salt
  mCost := Crypto.DEFAULT_ARGON2_M_COST
  tCost := Crypto.DEFAULT_ARGON2_T_COST
  pCost := Crypto.DEFAULT_ARGON2_P_COST
  masterNonce := sealingWriter.masterNonce
  verificationTag := computeVerificationTag sealingWriter.toPrimitives referenceKey

/-- The reference key leads to the reference state. -/
theorem encryptionState_reference {σ : Type} (predictorFactory : σ) :
    (encrypting predictorFactory (some referenceConfig)).encryptionState sealingWriter =
      .ok (some (referenceHeader, referenceKey)) := by
  have long : validateEncryptionPassword (asBytes "password") = .ok () := by decide
  have costs : validateArgon2Params Crypto.DEFAULT_ARGON2_M_COST Crypto.DEFAULT_ARGON2_T_COST
      Crypto.DEFAULT_ARGON2_P_COST = .ok () := by decide
  have derived : deriveKey sealingWriter.toPrimitives (asBytes "password") sealingWriter.salt
      Crypto.DEFAULT_ARGON2_M_COST Crypto.DEFAULT_ARGON2_T_COST Crypto.DEFAULT_ARGON2_P_COST =
        .ok referenceKey := by
    rw [deriveKey, costs]
    rfl
  simp only [encryptionState, encrypting, referenceConfig, long, derived, Result.ok_bind]
  rfl

/-- The sealing libraries never fail. -/
theorem sealingWriter_untroubled : Untroubled sealingWriter none where
  sound := sealingWriter_reliable.sound none
  compresses _ := ⟨_, rfl⟩
  seals cipherId key nonce plaintext aad := by
    have sealed : ∃ ciphertext, aeadEncrypt sealingWriter.toPrimitives cipherId key nonce plaintext
        aad = .ok ciphertext := by
      cases cipherId with
      | aes256Gcm => exact ⟨_, rfl⟩
      | chaCha20Poly1305 => exact ⟨_, rfl⟩
    obtain ⟨ciphertext, sealed⟩ := sealed
    exact ⟨ciphertext, sealed, (aeadDecrypt_aeadEncrypt sealingWriter_reliable sealed).2.le⟩
  pools _ := rfl

/-- A text file of a name and a content. -/
def textFile (name content : String) : InputFile where
  path := asBytes name
  content := .ok (asBytes content)
  modified := none
  mode := none

/-- Three text files, two of them of one content. -/
def threeTexts : List InputFile :=
  [textFile "a.txt" "abc", textFile "b.txt" "ba", textFile "c.txt" "abc"]

/-- The three texts are short inputs. -/
theorem threeTexts_short :
    List.Forall₂ (ShortInput []) threeTexts ["a.txt", "b.txt", "c.txt"] :=
  .cons ⟨⟨_, rfl, by decide⟩, by decide, by decide⟩
    (.cons ⟨⟨_, rfl, by decide⟩, by decide, by decide⟩
    (.cons ⟨⟨_, rfl, by decide⟩, by decide, by decide⟩ .nil))

/-- A file of text as it is scanned. -/
def scannedText (name content : String) : ScannedFile sealingWriter.arith.double :=
  scanFile sealingWriter.toHashing sealingWriter.arith.double name (textFile name content)
    (asBytes content)

/-- The three text files as they are scanned. -/
theorem scanFiles_threeTexts :
    scanFiles sealingWriter.toHashing sealingWriter.arith.double [] threeTexts 0 =
      .ok [scannedText "a.txt" "abc", scannedText "b.txt" "ba", scannedText "c.txt" "abc"] := by
  rfl

end Compressor

end AetherArch
