import AetherArch.Pipeline.Metering
import AetherArch.Pipeline.FileAgreement

/-! # Memory caps

How many bytes the reading operations hold, and which of them stop when the blocks of an archive
sum past the limits.
-/

namespace AetherArch

/-- At most a limit and one block of payloads, and of decoded blocks. -/
structure Holding.Capped (holding : Holding) : Prop where
  raw : holding.raw ≤ MAX_TOTAL_COMPRESSED_READ_SIZE + MAX_DECOMPRESSED_BLOCK_SIZE
  decoded : holding.decoded ≤ MAX_TOTAL_DECOMPRESSED_SIZE + MAX_DECOMPRESSED_BLOCK_SIZE

section

variable {ext : Externals} {archive : Bytes} {baseline : Option Bytes} {key : Option DecryptKey}

/-! ## One block -/

/-- A block decodes to no more than its header claims. -/
theorem chunkLength_le (block : RawBlock) :
    chunkLength ext baseline block ≤ block.uncompressedSize := by
  rw [chunkLength]
  split
  · rename_i data success
    exact (length_decompressChunk success).1.le
  · exact Nat.zero_le _

/-- A block that decodes is as long as its data. -/
theorem chunkLength_of_ok {block : RawBlock} {data : Bytes}
    (success : decompressRawBlock ext block baseline = .ok data) :
    chunkLength ext baseline block = data.length := by
  rw [chunkLength, (decompressRawBlock_eq_ok.mp success).1]

/-- The bytes a block decodes to, when it can be read. -/
def decodedSize (ext : Externals) (archive : Bytes) (baseline : Option Bytes)
    (key : Option DecryptKey) (entry : BlockIndexEntry) : Nat :=
  match readRawBlock ext archive 0 entry key with
  | .ok block => chunkLength ext baseline block
  | .error _ => 0

/-- The bytes several blocks decode to. -/
def decodedTotal (ext : Externals) (archive : Bytes) (baseline : Option Bytes)
    (key : Option DecryptKey) (entries : List BlockIndexEntry) : Nat :=
  (entries.map (decodedSize ext archive baseline key)).sum

/-- The decoded size of an entry is that of the block read there. -/
theorem decodedSize_of_read {globalIdx : Nat} {entry : BlockIndexEntry} {block : RawBlock}
    (read : readRawBlock ext archive globalIdx entry key = .ok block) :
    decodedSize ext archive baseline key entry = chunkLength ext baseline block := by
  obtain ⟨first, same, rfl⟩ := readRawBlock_eq_ok.mp read
  rw [decodedSize, same]
  rfl

/-- The decoded size of an entry is that of its data. -/
theorem decodedSize_of_ok {entry : BlockIndexEntry} {data : Bytes}
    (success : decompressBlock ext archive entry baseline key = .ok data) :
    decodedSize ext archive baseline key entry = data.length := by
  obtain ⟨block, read, decoded⟩ := (decompressBlock_eq_ok 0).mp success
  rw [decodedSize_of_read read, chunkLength_of_ok decoded]

/-- The first entry comes on top of the others. -/
theorem decodedTotal_cons (entry : BlockIndexEntry) (entries : List BlockIndexEntry) :
    decodedTotal ext archive baseline key (entry :: entries) =
      decodedSize ext archive baseline key entry +
        decodedTotal ext archive baseline key entries :=
  List.sum_cons

/-- All entries together decode to all of the data. -/
theorem decodedTotal_of_decodeAll {entries : List BlockIndexEntry} {decoded : List Bytes}
    (success : decodeAll ext archive baseline key entries = some decoded) :
    decodedTotal ext archive baseline key entries = totalSize decoded := by
  induction entries generalizing decoded with
  | nil =>
      cases success
      rfl
  | cons entry entries recurse =>
      obtain ⟨data, decodes, rest, later, rfl⟩ := decodeAll_cons_eq_some.mp success
      rw [decodedTotal_cons, recurse later, decodedSize_of_ok decodes]
      exact List.sum_cons.symm

/-- A block whose header passes holds one block at most. -/
theorem compressedSize_le_of_valid {header : BlockHeader} {entry : BlockIndexEntry} {offset : Nat}
    (valid : validateBlockHeader header entry offset = .ok ()) :
    header.compressedSize.toNat ≤ MAX_DECOMPRESSED_BLOCK_SIZE := by
  simp only [validateBlockHeader, Result.bind_eq_ok, Result.failIf_eq_ok, not_lt] at valid
  obtain ⟨_, -, _, -, _, -, _, small, -⟩ := valid
  exact small

/-- Bounds on what is held. -/
structure Holding.Within (holding : Holding) (raw decoded : Nat) : Prop where
  raw : holding.raw ≤ raw
  decoded : holding.decoded ≤ decoded

/-- Larger bounds hold as well. -/
theorem Holding.Within.mono {holding : Holding} {raw decoded largerRaw largerDecoded : Nat}
    (within : holding.Within raw decoded) (rawLe : raw ≤ largerRaw)
    (decodedLe : decoded ≤ largerDecoded) : holding.Within largerRaw largerDecoded :=
  ⟨within.raw.trans rawLe, within.decoded.trans decodedLe⟩

/-- Decompressing a block holds its payload and, in the end, what it decodes to. -/
theorem always_decompressBlock (shrinks : ext.Shrinks) (entry : BlockIndexEntry) (held : Nat) :
    (decompressBlockMetered ext archive entry baseline key held).Always fun holding =>
      holding.Within MAX_DECOMPRESSED_BLOCK_SIZE
        (held + decodedSize ext archive baseline key entry) := by
  refine Traced.always_lift_bind fun ⟨header, opened⟩ headerRead => ?_
  refine Traced.always_lift_bind fun _ valid => ?_
  have small := compressedSize_le_of_valid valid
  refine Traced.always_note_bind ⟨small, Nat.le_add_right _ _⟩ ?_
  refine Traced.always_lift_bind fun ⟨payload, closing⟩ payloadRead => ?_
  refine Traced.always_lift_bind fun ⟨trailer, rest⟩ trailerRead => ?_
  refine Traced.always_lift_bind fun plain decrypted => ?_
  have plainSmall : plain.length ≤ MAX_DECOMPRESSED_BLOCK_SIZE :=
    ((length_maybeDecryptPayload shrinks decrypted).trans payload.2.le).trans small
  refine Traced.always_note_bind ⟨plainSmall, Nat.le_add_right _ _⟩ ?_
  refine Traced.always_lift_bind fun data decoded => ?_
  have read : readRawBlock ext archive 0 entry key = .ok
      { globalIdx := 0, payload := plain, compressionMethod := header.compressionMethod
        uncompressedSize := header.uncompressedSize.toNat
        contentBlake3 := trailer.contentBlake3, blockId := header.blockId
        archiveOffset := entry.archiveOffset, solidGroupId := header.solidGroupId } := by
    simp only [readRawBlock, Result.bind_eq_ok, Result.pure_eq_ok]
    exact ⟨_, headerRead, (), valid, _, payloadRead, _, trailerRead, _, decrypted, rfl⟩
  have size : decodedSize ext archive baseline key entry = data.length := by
    rw [decodedSize_of_read read, chunkLength, Result.mapError_eq_ok.mp decoded]
  refine Traced.always_note_bind ⟨plainSmall, size ▸ le_rfl⟩ ?_
  refine Traced.always_lift_bind fun _ _ => ?_
  exact Traced.always_lift_bind fun _ _ => Traced.always_pure _

/-- Reading a block holds its payload. -/
theorem always_readRawBlock (shrinks : ext.Shrinks) (globalIdx : Nat) (entry : BlockIndexEntry)
    (held : Nat) :
    (readRawBlockMetered ext archive globalIdx entry key held).Always fun holding =>
      holding.Within (held + MAX_DECOMPRESSED_BLOCK_SIZE) 0 := by
  refine Traced.always_lift_bind fun ⟨header, opened⟩ headerRead => ?_
  refine Traced.always_lift_bind fun _ valid => ?_
  have small := compressedSize_le_of_valid valid
  refine Traced.always_note_bind ⟨Nat.add_le_add_left small _, le_rfl⟩ ?_
  refine Traced.always_lift_bind fun ⟨payload, closing⟩ _ => ?_
  refine Traced.always_lift_bind fun _ _ => ?_
  refine Traced.always_lift_bind fun plain decrypted => ?_
  have plainSmall : plain.length ≤ MAX_DECOMPRESSED_BLOCK_SIZE :=
    ((length_maybeDecryptPayload shrinks decrypted).trans payload.2.le).trans small
  exact Traced.always_note_bind ⟨Nat.add_le_add_left plainSmall _, le_rfl⟩ (Traced.always_pure _)

/-- Every entry decodes within the limit of a block. -/
theorem decodedSize_le (entry : BlockIndexEntry) :
    decodedSize ext archive baseline key entry ≤ MAX_DECOMPRESSED_BLOCK_SIZE := by
  rw [decodedSize]
  split
  · rw [chunkLength]
    split
    · rename_i success
      obtain ⟨length, bounded⟩ := length_decompressChunk success
      exact length.le.trans bounded
    · exact Nat.zero_le _
  · exact Nat.zero_le _

/-! ## The write phase -/

/-- Decoded blocks hold their data. -/
theorem heldBytes_map_some (decoded : List Bytes) :
    heldBytes (decoded.map some) = totalSize decoded := by
  rw [heldBytes, List.map_map]
  rfl

/-- Taking a block out holds less. -/
theorem heldBytes_set_none_le (blocks : List (Option Bytes)) (i : Nat) :
    heldBytes (blocks.set i none) ≤ heldBytes blocks := by
  induction blocks generalizing i with
  | nil => exact le_rfl
  | cons block blocks recurse =>
      have cons (first : Option Bytes) (rest : List (Option Bytes)) :
          heldBytes (first :: rest) = first.elim 0 List.length + heldBytes rest := List.sum_cons
      cases i with
      | zero =>
          rw [List.set_cons_zero, cons, cons]
          exact Nat.add_le_add_right (Nat.zero_le _) _
      | succ i =>
          rw [List.set_cons_succ, cons, cons]
          exact Nat.add_le_add_left (recurse i) _

/-- Taking a block holds no more than before. -/
theorem heldBytes_takeOrClone {shared next : SharedBlocks} {i : Nat} {data : Bytes}
    (success : takeOrClone shared i = .ok (data, next)) :
    heldBytes next.blocks ≤ heldBytes shared.blocks := by
  rw [takeOrClone] at success
  split at success
  · cases success
    dsimp only
    split
    · exact heldBytes_set_none_le _ _
    · exact le_rfl
  · cases success

/-- Taking several blocks holds no more than before. -/
theorem heldBytes_takeOrCloneAll {indices : List Nat} {shared next : SharedBlocks} {data : Bytes}
    (success : takeOrCloneAll indices shared = .ok (data, next)) :
    heldBytes next.blocks ≤ heldBytes shared.blocks := by
  induction indices generalizing shared data with
  | nil =>
      cases success
      exact le_rfl
  | cons i indices recurse =>
      obtain ⟨⟨first, between⟩, taken, success⟩ := Result.bind_eq_ok.mp success
      obtain ⟨⟨rest, final⟩, later, same⟩ := Result.bind_eq_ok.mp success
      cases same
      exact (recurse later).trans (heldBytes_takeOrClone taken)

/-- Reassembling a file releases blocks and never adds any. -/
theorem heldBytes_reassemble {entry : FileEntry} {shared next : SharedBlocks} {data : Bytes}
    (success : reassembleFileShared entry shared = .ok (data, next)) :
    heldBytes next.blocks ≤ heldBytes shared.blocks := by
  obtain ⟨range, -, success⟩ := Result.bind_eq_ok.mp success
  cases range with
  | none =>
      cases success
      exact le_rfl
  | some range =>
      obtain ⟨⟨combined, final⟩, taken, same⟩ := Result.bind_eq_ok.mp success
      cases same
      exact heldBytes_takeOrCloneAll taken

/-- Writing the files holds no more than the decoded blocks. -/
theorem always_writeFiles {hashing : Hashing} (entries : List FileEntry) (shared : SharedBlocks) :
    (writeFilesMetered hashing entries shared).Always fun holding =>
      holding.Within 0 (heldBytes shared.blocks) := by
  induction entries generalizing shared with
  | nil => exact Traced.always_note_bind ⟨le_rfl, le_rfl⟩ (Traced.always_pure _)
  | cons entry entries recurse =>
      refine Traced.always_note_bind ⟨le_rfl, le_rfl⟩ ?_
      refine Traced.always_lift_bind fun ⟨data, next⟩ reassembled => ?_
      refine Traced.always_lift_bind fun _ _ => ?_
      refine Traced.always_lift_bind fun file _ => ?_
      refine Traced.Always.bind ?_ fun _ _ => Traced.always_pure _
      exact (recurse next).mono fun holding within =>
        within.mono le_rfl (heldBytes_reassemble reassembled)

/-! ## Readable blocks -/

/-- Whether a block can be read does not depend on the position it is decoded to. -/
theorem unread_of_unread {globalIdx : Nat} {entry : BlockIndexEntry} {error : AetherError}
    (failed : readRawBlock ext archive globalIdx entry key = .error error) :
    ∃ other, readRawBlock ext archive 0 entry key = .error other := by
  cases first : readRawBlock ext archive 0 entry key with
  | error other => exact ⟨other, rfl⟩
  | ok block =>
      have again : readRawBlock ext archive globalIdx entry key =
          .ok { block with globalIdx := globalIdx } := readRawBlock_eq_ok.mpr ⟨block, first, rfl⟩
      rw [failed] at again
      cases again

/-- A sum over the blocks that can be read. -/
theorem sum_readable (measure : RawBlock → Nat) (size : BlockIndexEntry → Nat)
    (same : ∀ globalIdx entry block, readRawBlock ext archive globalIdx entry key = .ok block →
      size entry = measure block)
    (unread : ∀ entry error, readRawBlock ext archive 0 entry key = .error error → size entry = 0)
    (entries : List BlockIndexEntry) (globalIdx : Nat) :
    (((entries.mapIdx fun i entry => (readRawBlock ext archive (globalIdx + i) entry key).mapError
      AetherError.display).filterMap Except.toOption).map measure).sum =
        (entries.map size).sum := by
  induction entries generalizing globalIdx with
  | nil => rfl
  | cons entry entries recurse =>
      have later := recurse (globalIdx + 1)
      rw [List.mapIdx_cons, List.map_cons, List.sum_cons, ← later]
      simp only [Nat.add_zero, Nat.add_assoc, Nat.add_comm 1]
      cases read : readRawBlock ext archive globalIdx entry key with
      | ok block =>
          rw [same globalIdx entry block read]
          exact List.sum_cons
      | error error =>
          obtain ⟨other, failed⟩ := unread_of_unread read
          rw [unread entry other failed, Nat.zero_add]
          rfl

/-- An entry that cannot be read has no payload. -/
theorem payloadSize_of_error {entry : BlockIndexEntry} {error : AetherError}
    (failed : readRawBlock ext archive 0 entry key = .error error) :
    payloadSize ext archive key entry = 0 := by
  rw [payloadSize, failed]

/-- Nor does it decode to anything. -/
theorem decodedSize_of_error {entry : BlockIndexEntry} {error : AetherError}
    (failed : readRawBlock ext archive 0 entry key = .error error) :
    decodedSize ext archive baseline key entry = 0 := by
  rw [decodedSize, failed]

/-- Reading every block holds the payloads read so far and one more. -/
theorem always_readRawBlocksLenient (shrinks : ext.Shrinks) (entries : List BlockIndexEntry)
    (globalIdx held : Nat) :
    (readRawBlocksLenientMetered ext archive key entries globalIdx held).Always fun holding =>
      holding.Within (held + payloadTotal ext archive key entries + MAX_DECOMPRESSED_BLOCK_SIZE)
        0 := by
  induction entries generalizing globalIdx held with
  | nil => exact Traced.always_pure _
  | cons entry entries recurse =>
      rw [payloadTotal_cons, ← Nat.add_assoc]
      refine (Traced.Always.attempt ?_).bind fun outcome found => ?_
      · refine (always_readRawBlock shrinks globalIdx entry held).mono fun holding within => ?_
        refine within.mono (Nat.add_le_add_right ?_ _) le_rfl
        rw [Nat.add_assoc]
        exact Nat.le_add_right _ _
      · rw [Traced.outcome_attempt, outcome_readRawBlock] at found
        cases found
        have size : ((readRawBlock ext archive globalIdx entry key).toOption.elim 0 fun block =>
            block.payload.length) ≤ payloadSize ext archive key entry := by
          cases read : readRawBlock ext archive globalIdx entry key with
          | ok block => exact (payloadSize_of_read read).1.ge
          | error error => exact Nat.zero_le _
        refine Traced.Always.bind ?_ fun _ _ => Traced.always_pure _
        refine (recurse _ _).mono fun holding within => ?_
        exact within.mono (Nat.add_le_add_right (Nat.add_le_add_right
          (Nat.add_le_add_left size _) _) _) le_rfl

/-- Blocks decoded at once hold all payloads and what is decoded of them. -/
theorem always_decodeAtOnce (schedule : Schedule) (blocks : List RawBlock) :
    (decodeAtOnce ext schedule baseline blocks).Always fun holding =>
      holding.Within (blocks.map fun block => block.payload.length).sum
        (blocks.map (chunkLength ext baseline)).sum := by
  apply Traced.always_noteAll
  intro holding member
  obtain ⟨done, moment, rfl⟩ := List.mem_map.mp member
  exact ⟨le_rfl, ((schedule.within blocks done moment).map _).sum_le_sum fun _ _ => Nat.zero_le _⟩

end

namespace Decompressor

variable {σ : Type} [ProbabilityPredictor σ] {ext : Externals} {self : Decompressor σ}
variable {archive : Bytes} {baseline : Option Bytes} {key : Option DecryptKey}

/-! ## Extraction -/

/-- Decoding one by one stays within the caps. -/
theorem always_decompressSequentially (shrinks : ext.Shrinks) (entries : List BlockIndexEntry)
    {compressed decompressed : Nat} (decompressedLe : decompressed ≤ MAX_TOTAL_DECOMPRESSED_SIZE) :
    (decompressSequentiallyMetered ext archive baseline key entries compressed
      decompressed).Always Holding.Capped := by
  induction entries generalizing compressed decompressed with
  | nil => exact Traced.always_pure _
  | cons entry entries recurse =>
      refine Traced.always_lift_bind fun _ _ => ?_
      refine Traced.Always.bind ?_ fun data _ => ?_
      · refine (always_decompressBlock shrinks entry decompressed).mono fun holding within => ?_
        exact ⟨within.raw.trans (Nat.le_add_left _ _),
          within.decoded.trans (Nat.add_le_add decompressedLe (decodedSize_le entry))⟩
      · refine Traced.always_lift_bind fun _ fits => ?_
        rw [Result.failIf_eq_ok, not_lt] at fits
        exact (recurse fits).bind fun _ _ => Traced.always_pure _

/-- Decoding the blocks of a file stays within the caps. -/
theorem always_decompressFileBlocks (shrinks : ext.Shrinks) (entries : List BlockIndexEntry)
    {decompressed : Nat} (decompressedLe : decompressed ≤ MAX_TOTAL_DECOMPRESSED_SIZE) :
    (decompressFileBlocksMetered ext archive baseline key entries decompressed).Always
      Holding.Capped := by
  induction entries generalizing decompressed with
  | nil => exact Traced.always_pure _
  | cons entry entries recurse =>
      refine Traced.Always.bind ?_ fun data _ => ?_
      · refine (always_decompressBlock shrinks entry decompressed).mono fun holding within => ?_
        exact ⟨within.raw.trans (Nat.le_add_left _ _),
          within.decoded.trans (Nat.add_le_add decompressedLe (decodedSize_le entry))⟩
      · refine Traced.always_lift_bind fun _ fits => ?_
        rw [Result.failIf_eq_ok, not_lt] at fits
        exact (recurse fits).bind fun _ _ => Traced.always_pure _

/-- Reading in order stays within the caps. -/
theorem always_readRawBlocks (shrinks : ext.Shrinks) (entries : List BlockIndexEntry)
    {globalIdx compressed : Nat} (compressedLe : compressed ≤ MAX_TOTAL_COMPRESSED_READ_SIZE) :
    (readRawBlocksMetered ext archive key entries globalIdx compressed).Always Holding.Capped := by
  induction entries generalizing globalIdx compressed with
  | nil => exact Traced.always_pure _
  | cons entry entries recurse =>
      refine Traced.Always.bind ?_ fun block _ => ?_
      · refine (always_readRawBlock shrinks globalIdx entry compressed).mono
          fun holding within => ?_
        exact ⟨within.raw.trans (Nat.add_le_add_right compressedLe _),
          within.decoded.trans (Nat.zero_le _)⟩
      · refine Traced.always_lift_bind fun _ within => ?_
        rw [Result.failIf_eq_ok, not_lt] at within
        exact (recurse within).bind fun _ _ => Traced.always_pure _

/-- The payloads read in order. -/
theorem payloads_of_readInOrder {entries : List BlockIndexEntry} {globalIdx : Nat}
    {blocks : List RawBlock} (ordered : ReadInOrder ext archive key globalIdx entries blocks) :
    (blocks.map fun block => block.payload.length).sum = payloadTotal ext archive key entries := by
  induction ordered with
  | nil => rfl
  | cons read ordered recurse =>
      rw [List.map_cons, List.sum_cons, recurse, payloadTotal_cons, (payloadSize_of_read read).1]

/-- **Decoding all blocks stays within the caps**, on any number of threads. -/
theorem always_decompressBlocks (shrinks : ext.Shrinks) (schedule : Schedule)
    (metadata : ArchiveMetadata) :
    (self.decompressBlocksMetered ext schedule archive metadata key).Always Holding.Capped := by
  rw [decompressBlocksMetered]
  split
  · refine (always_readRawBlocks shrinks _ (Nat.zero_le _)).bind fun blocks read => ?_
    rw [outcome_readRawBlocks, readRawBlocks_eq_ok (Nat.zero_le _), Nat.zero_add] at read
    obtain ⟨ordered, compressed⟩ := read
    refine Traced.always_lift_bind fun _ expected => ?_
    rw [Result.failIf_eq_ok, not_lt] at expected
    refine Traced.always_lift_bind fun baseline _ => ?_
    refine Traced.always_lift_bind fun _ _ => ?_
    refine Traced.Always.bind ?_ fun _ _ => Traced.always_lift _
    refine (always_decodeAtOnce schedule blocks).mono fun holding within => ?_
    have decoded : (blocks.map (chunkLength ext baseline)).sum ≤
        (blocks.map RawBlock.uncompressedSize).sum :=
      List.sum_le_sum fun block _ => chunkLength_le block
    rw [payloads_of_readInOrder ordered] at within
    exact ⟨(within.raw.trans compressed).trans (Nat.le_add_right _ _),
      ((within.decoded.trans decoded).trans expected).trans (Nat.le_add_right _ _)⟩
  · exact Traced.always_lift_bind fun _ _ => always_decompressSequentially shrinks _ (Nat.zero_le _)

/-- Writing files from decoded blocks stays within the caps. -/
theorem always_writeDecoded {hashing : Hashing} {entries : List FileEntry} {decoded : List Bytes}
    {refCounts : List Nat} (decompressed : totalSize decoded ≤ MAX_TOTAL_DECOMPRESSED_SIZE) :
    (writeFilesMetered hashing entries { blocks := decoded.map some, refCounts }).Always
      Holding.Capped := by
  refine (always_writeFiles entries _).mono fun holding within => ?_
  have held := within.decoded
  rw [heldBytes_map_some] at held
  exact ⟨within.raw.trans (Nat.zero_le _),
    (held.trans decompressed).trans (Nat.le_add_right _ _)⟩

/-- **A whole extraction stays within the caps.** -/
theorem always_extractAll (shrinks : ext.Shrinks) (schedule : Schedule) :
    (self.extractAllMetered ext schedule archive).Always Holding.Capped := by
  refine Traced.always_lift_bind fun metadata _ => ?_
  refine Traced.always_lift_bind fun _ _ => ?_
  refine Traced.always_lift_bind fun key _ => ?_
  refine (always_decompressBlocks shrinks schedule metadata).bind fun blocks decodes => ?_
  rw [outcome_decompressBlocks, decompressBlocks_eq_ok] at decodes
  obtain ⟨baseline, decoded, -, -, -, rfl, -, decompressed⟩ := decodes
  exact always_writeDecoded decompressed

/-- **Extracting one file stays within the caps.** -/
theorem always_extractFile (shrinks : ext.Shrinks) (filePath : String) :
    (self.extractFileMetered ext archive filePath).Always Holding.Capped := by
  refine Traced.always_lift_bind fun metadata _ => ?_
  refine Traced.always_lift_bind fun _ _ => ?_
  refine Traced.always_lift_bind fun key _ => ?_
  cases metadata.fileEntries.find? fun entry => entry.path = filePath with
  | none => exact Traced.always_lift _
  | some entry =>
      refine Traced.always_lift_bind fun _ _ => ?_
      refine Traced.always_lift_bind fun baseline _ => ?_
      exact (always_decompressFileBlocks shrinks _ (Nat.zero_le _)).bind
        fun _ _ => Traced.always_lift _

/-! ## Verification -/

/-- Verifying one by one holds everything decoded so far. -/
theorem always_verifySequentially (shrinks : ext.Shrinks) (entries : List BlockIndexEntry)
    (held : Nat) :
    (verifySequentiallyMetered ext archive baseline key entries held).Always fun holding =>
      holding.Within MAX_DECOMPRESSED_BLOCK_SIZE
        (held + decodedTotal ext archive baseline key entries) := by
  induction entries generalizing held with
  | nil => exact Traced.always_pure _
  | cons entry entries recurse =>
      rw [decodedTotal_cons, ← Nat.add_assoc]
      refine (Traced.Always.attempt ?_).bind fun outcome found => ?_
      · exact (always_decompressBlock shrinks entry held).mono fun holding within =>
          within.mono le_rfl (Nat.le_add_right _ _)
      · rw [Traced.outcome_attempt, outcome_decompressBlock] at found
        cases found
        have size : (decompressBlock ext archive entry baseline key).toOption.elim 0 List.length ≤
            decodedSize ext archive baseline key entry := by
          cases decodes : decompressBlock ext archive entry baseline key with
          | ok data => exact (decodedSize_of_ok decodes).ge
          | error error => exact Nat.zero_le _
        refine Traced.Always.bind ?_ fun _ _ => Traced.always_pure _
        exact (recurse _).mono fun holding within =>
          within.mono le_rfl (Nat.add_le_add_right (Nat.add_le_add_left size _) _)

omit [ProbabilityPredictor σ] in
/-- Verification holds all payloads and all decoded blocks at most. -/
theorem always_verifyBlocks (shrinks : ext.Shrinks) (schedule : Schedule)
    (metadata : ArchiveMetadata) :
    (self.verifyBlocksMetered ext schedule archive metadata baseline key).Always fun holding =>
      holding.Within
        (payloadTotal ext archive key metadata.blockIndex + MAX_DECOMPRESSED_BLOCK_SIZE)
        (decodedTotal ext archive baseline key metadata.blockIndex) := by
  rw [verifyBlocksMetered]
  split
  · refine Traced.Always.bind ?_ fun raw read => ?_
    · refine (always_readRawBlocksLenient shrinks metadata.blockIndex 0 0).mono
        fun holding within => ?_
      rw [Nat.zero_add] at within
      exact within.mono le_rfl (Nat.zero_le _)
    · rw [outcome_readRawBlocksLenient] at read
      cases read
      refine Traced.always_lift_bind fun _ _ => ?_
      refine Traced.Always.bind ?_ fun _ _ => Traced.always_pure _
      refine (always_decodeAtOnce schedule _).mono fun holding within => ?_
      rw [sum_readable (fun block => block.payload.length) (payloadSize ext archive key)
        (fun _ _ _ read => (payloadSize_of_read read).1) (fun _ _ => payloadSize_of_error),
        sum_readable (chunkLength ext baseline) (decodedSize ext archive baseline key)
        (fun _ _ _ read => decodedSize_of_read read) (fun _ _ => decodedSize_of_error)] at within
      exact within.mono (Nat.le_add_right _ _) le_rfl
  · refine (always_verifySequentially shrinks metadata.blockIndex 0).mono fun holding within => ?_
    rw [Nat.zero_add] at within
    exact within.mono (Nat.le_add_left _ _) le_rfl

omit [ProbabilityPredictor σ] in
/-- What verification keeps is what decodes. -/
theorem heldBytes_verified {metadata : ArchiveMetadata} {decoded : List (Result Bytes)}
    (success : self.verifyBlocks ext archive metadata baseline key = .ok decoded) :
    heldBytes (decoded.map Except.toOption) ≤
      decodedTotal ext archive baseline key metadata.blockIndex := by
  rw [verifyBlocks_verdicts success, heldBytes, List.map_map, decodedTotal]
  refine List.sum_le_sum fun entry _ => ?_
  cases decodes : verdict ext archive baseline key entry with
  | none =>
      rw [Function.comp_apply, decodes]
      exact Nat.zero_le _
  | some data =>
      rw [Function.comp_apply, decodes]
      exact (decodedSize_of_ok (verdict_eq_some.mp decodes)).ge

/-! ## Streams -/

/-- Decompressing a block of a stream holds one block. -/
theorem always_decompressBlockStreaming (shrinks : ext.Shrinks) (held : Nat) :
    (decompressBlockStreamingMetered ext baseline key held archive).Always fun holding =>
      holding.Within MAX_DECOMPRESSED_BLOCK_SIZE (held + MAX_DECOMPRESSED_BLOCK_SIZE) := by
  apply Traced.always_lift_bind
  rintro ⟨header, opened⟩ -
  refine Traced.always_lift_bind fun _ valid => ?_
  simp only [checkStreamedSizes, Result.bind_eq_ok, Result.failIf_eq_ok, not_lt] at valid
  obtain ⟨_, small, -⟩ := valid
  refine Traced.always_note_bind ⟨small, Nat.le_add_right _ _⟩ ?_
  apply Traced.always_lift_bind
  rintro ⟨payload, closing⟩ -
  apply Traced.always_lift_bind
  rintro ⟨trailer, rest⟩ -
  refine Traced.always_lift_bind fun plain decrypted => ?_
  have plainSmall : plain.length ≤ MAX_DECOMPRESSED_BLOCK_SIZE :=
    ((length_maybeDecryptPayload shrinks decrypted).trans payload.2.le).trans small
  refine Traced.always_note_bind ⟨plainSmall, Nat.le_add_right _ _⟩ ?_
  refine Traced.always_lift_bind fun data decoded => ?_
  obtain ⟨length, bounded⟩ := length_decompressChunk (Result.mapError_eq_ok.mp decoded)
  refine Traced.always_note_bind ⟨plainSmall, Nat.add_le_add_left (length.le.trans bounded) _⟩ ?_
  refine Traced.always_lift_bind fun _ _ => ?_
  exact Traced.always_lift_bind fun _ _ => Traced.always_pure _

/-- Decoding a stream stays within the caps. -/
theorem always_decompressStreamed (shrinks : ext.Shrinks) (count : Nat)
    {compressed decompressed : Nat} (decompressedLe : decompressed ≤ MAX_TOTAL_DECOMPRESSED_SIZE) :
    (decompressStreamedMetered ext baseline key count compressed decompressed archive).Always
      Holding.Capped := by
  induction count generalizing compressed decompressed archive with
  | zero => exact Traced.always_pure _
  | succ count recurse =>
      refine Traced.Always.bind ?_ fun ⟨⟨data, id, size⟩, rest⟩ _ => ?_
      · refine (always_decompressBlockStreaming shrinks decompressed).mono fun holding within => ?_
        exact ⟨within.raw.trans (Nat.le_add_left _ _),
          within.decoded.trans (Nat.add_le_add_right decompressedLe _)⟩
      · refine Traced.always_lift_bind fun _ _ => ?_
        refine Traced.always_lift_bind fun _ fits => ?_
        rw [Result.failIf_eq_ok, not_lt] at fits
        exact (recurse fits).bind fun _ _ => Traced.always_pure _

/-- **An extraction from a stream stays within the caps.** -/
theorem always_extractAllStreaming (shrinks : ext.Shrinks) :
    (self.extractAllStreamingMetered ext archive).Always Holding.Capped := by
  refine Traced.always_lift_bind fun ⟨metadata, firstBlock⟩ _ => ?_
  refine Traced.always_lift_bind fun _ _ => ?_
  refine Traced.always_lift_bind fun key _ => ?_
  refine Traced.always_lift_bind fun baseline _ => ?_
  refine (always_decompressStreamed shrinks _ (Nat.zero_le _)).bind
    fun ⟨blocks, rest⟩ decodes => ?_
  rw [outcome_decompressStreamed,
    decompressStreamed_eq_ok (Nat.zero_le _) (Nat.zero_le _)] at decodes
  obtain ⟨streamed, -, rfl, -, decompressed⟩ := decodes
  rw [Nat.zero_add] at decompressed
  exact always_writeDecoded decompressed

/-- Reporting a block holds its payload and what it decodes to. -/
theorem always_reportStreamedBlock (shrinks : ext.Shrinks) {header : BlockHeader} {payload : Bytes}
    (small : payload.length ≤ MAX_DECOMPRESSED_BLOCK_SIZE) (trailer : BlockTrailer)
    (result : VerificationResult) :
    (reportStreamedBlockMetered ext baseline key header payload trailer result).Always
      fun holding =>
      holding.Within MAX_DECOMPRESSED_BLOCK_SIZE MAX_DECOMPRESSED_BLOCK_SIZE := by
  rw [reportStreamedBlockMetered]
  split
  · exact Traced.always_pure _
  · rename_i plain decrypted
    have plainSmall := (length_maybeDecryptPayload shrinks decrypted).trans small
    refine Traced.always_note_bind ⟨plainSmall, Nat.zero_le _⟩ ?_
    split
    · rename_i data decoded
      obtain ⟨length, bounded⟩ := length_decompressChunk decoded
      refine Traced.always_note_bind ⟨plainSmall, length.le.trans bounded⟩ ?_
      split
      · exact Traced.always_pure _
      · exact Traced.always_pure _
    · exact Traced.always_pure _

/-- **Verification of a stream holds one block at a time.** -/
theorem always_verifyStreamed (shrinks : ext.Shrinks) (count blockIdx : Nat)
    (result : VerificationResult) :
    (verifyStreamedMetered ext baseline key count blockIdx archive result).Always fun holding =>
      holding.Within MAX_DECOMPRESSED_BLOCK_SIZE MAX_DECOMPRESSED_BLOCK_SIZE := by
  induction count generalizing blockIdx archive result with
  | zero => exact Traced.always_pure _
  | succ count recurse =>
      rw [verifyStreamedMetered]
      split
      · exact Traced.always_pure _
      split
      · exact Traced.always_pure _
      rename_i compressed
      split
      · exact Traced.always_pure _
      refine Traced.always_note_bind ⟨not_lt.mp compressed, Nat.zero_le _⟩ ?_
      split
      · exact Traced.always_pure _
      rename_i payload _ _
      split
      · exact Traced.always_pure _
      refine Traced.Always.bind ?_ fun result _ => recurse _ result
      exact always_reportStreamedBlock shrinks (payload.2.le.trans (not_lt.mp compressed)) _ _

end Decompressor

end AetherArch
