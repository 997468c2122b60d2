import AetherArch.Pipeline.Verification

/-! # Decoding all blocks

The sequential and the parallel strategy accept the same blocks and give the same data. They
differ in what they count against the limit on compressed data: the sizes in the index, or
the payloads as they are read and decrypted.
-/

namespace AetherArch

variable {ext : Externals} {archive : Bytes} {baseline : Option Bytes} {key : Option DecryptKey}

/-- The data of every block, when all of them decode. -/
def decodeAll (ext : Externals) (archive : Bytes) (baseline : Option Bytes)
    (key : Option DecryptKey) (blockIndex : List BlockIndexEntry) : Option (List Bytes) :=
  blockIndex.mapM (verdict ext archive baseline key)

/-- The bytes of several blocks. -/
def totalSize (blocks : List Bytes) : Nat := (blocks.map List.length).sum

/-- The compressed sizes the index records. -/
def indexedTotal (blockIndex : List BlockIndexEntry) : Nat :=
  (blockIndex.map fun entry => entry.compressedSize.toNat).sum

/-- The bytes of a block's payload, as it is read and decrypted. -/
def payloadSize (ext : Externals) (archive : Bytes) (key : Option DecryptKey)
    (entry : BlockIndexEntry) : Nat :=
  match readRawBlock ext archive 0 entry key with
  | .ok block => block.payload.length
  | .error _ => 0

/-- The payloads of several blocks. -/
def payloadTotal (ext : Externals) (archive : Bytes) (key : Option DecryptKey)
    (blockIndex : List BlockIndexEntry) : Nat :=
  (blockIndex.map (payloadSize ext archive key)).sum

/-! ## What decryption leaves -/

/-- A message is not longer than its ciphertext. -/
def Aead.Shrinks (aead : Aead) : Prop :=
  ∀ key nonce ciphertext aad plaintext, aead.decrypt key nonce ciphertext aad = some plaintext →
    plaintext.length ≤ ciphertext.length

/-- Ciphers that add a tag to their messages and nothing else. -/
structure Externals.Shrinks (ext : Externals) : Prop where
  aesGcm : ext.aesGcm.Shrinks
  chaCha : ext.chaCha.Shrinks

/-- Decryption makes no payload longer. -/
theorem length_maybeDecryptPayload (shrinks : ext.Shrinks) {payload plain : Bytes}
    {blockId : UInt32} (decrypted : maybeDecryptPayload ext payload key blockId = .ok plain) :
    plain.length ≤ payload.length := by
  unfold maybeDecryptPayload at decrypted
  split at decrypted
  · cases decrypted
    exact le_rfl
  · simp only [decryptBlock, Result.bind_eq_ok] at decrypted
    obtain ⟨cipherId, -, _, -, _, -, opened⟩ := decrypted
    have dropped : plain.length ≤ (payload.drop Crypto.NONCE_SIZE).length := by
      unfold aeadDecrypt at opened
      cases cipherId with
      | aes256Gcm =>
          dsimp only at opened
          split at opened
          · rename_i found
            cases opened
            exact shrinks.aesGcm _ _ _ _ _ found
          · cases opened
      | chaCha20Poly1305 =>
          dsimp only at opened
          split at opened
          · rename_i found
            cases opened
            exact shrinks.chaCha _ _ _ _ _ found
          · cases opened
    exact dropped.trans (by rw [List.length_drop]; exact Nat.sub_le _ _)

/-- The verdict is positive on the block's data only. -/
theorem verdict_eq_some {entry : BlockIndexEntry} {data : Bytes} :
    verdict ext archive baseline key entry = some data ↔
      decompressBlock ext archive entry baseline key = .ok data :=
  toOption_eq_some

/-- Decoding goes entry by entry. -/
theorem decodeAll_cons_eq_some {entry : BlockIndexEntry} {entries : List BlockIndexEntry}
    {decoded : List Bytes} :
    decodeAll ext archive baseline key (entry :: entries) = some decoded ↔
      ∃ data, decompressBlock ext archive entry baseline key = .ok data ∧
        ∃ rest, decodeAll ext archive baseline key entries = some rest ∧
          data :: rest = decoded := by
  simp only [decodeAll, List.mapM_cons, Option.bind_eq_bind, Option.bind_eq_some_iff,
    Option.pure_def, Option.some.injEq, verdict_eq_some]

/-- There is one block for each entry. -/
theorem length_of_decodeAll {entries : List BlockIndexEntry} {decoded : List Bytes}
    (success : decodeAll ext archive baseline key entries = some decoded) :
    decoded.length = entries.length := by
  induction entries generalizing decoded with
  | nil =>
      cases success
      rfl
  | cons entry entries recurse =>
      obtain ⟨data, -, rest, decodedRest, rfl⟩ := decodeAll_cons_eq_some.mp success
      rw [List.length_cons, List.length_cons, recurse decodedRest]

/-- Decoding from an entry on drops the blocks before it. -/
theorem decodeAll_drop {entries : List BlockIndexEntry} {decoded : List Bytes}
    (success : decodeAll ext archive baseline key entries = some decoded) (count : Nat) :
    decodeAll ext archive baseline key (entries.drop count) = some (decoded.drop count) := by
  induction count generalizing entries decoded with
  | zero => exact success
  | succ count recurse =>
      cases entries with
      | nil =>
          cases success
          rfl
      | cons entry entries =>
          obtain ⟨data, -, rest, later, rfl⟩ := decodeAll_cons_eq_some.mp success
          exact recurse later

/-- Decoding up to an entry takes the blocks before it. -/
theorem decodeAll_take {entries : List BlockIndexEntry} {decoded : List Bytes}
    (success : decodeAll ext archive baseline key entries = some decoded) (count : Nat) :
    decodeAll ext archive baseline key (entries.take count) = some (decoded.take count) := by
  induction count generalizing entries decoded with
  | zero => rfl
  | succ count recurse =>
      cases entries with
      | nil =>
          cases success
          rfl
      | cons entry entries =>
          obtain ⟨data, decodes, rest, later, rfl⟩ := decodeAll_cons_eq_some.mp success
          exact decodeAll_cons_eq_some.mpr ⟨data, decodes, _, recurse later, rfl⟩

/-- Some of the blocks are no larger than all of them. -/
theorem totalSize_slice_le (blocks : List Bytes) (start count : Nat) :
    totalSize ((blocks.drop start).take count) ≤ totalSize blocks := by
  have sub : List.Sublist ((blocks.drop start).take count) blocks :=
    (List.take_sublist _ _).trans (List.drop_sublist _ _)
  exact (sub.map List.length).sum_le_sum fun _ _ => Nat.zero_le _

/-- All blocks decode when each one does. -/
theorem decodeAll_isSome {entries : List BlockIndexEntry} :
    (∃ decoded, decodeAll ext archive baseline key entries = some decoded) ↔
      ∀ entry ∈ entries, ∃ data, decompressBlock ext archive entry baseline key = .ok data := by
  induction entries with
  | nil =>
      constructor
      · intro _ entry member
        cases member
      · intro _
        exact ⟨[], rfl⟩
  | cons entry entries recurse =>
      rw [List.forall_mem_cons, ← recurse]
      constructor
      · rintro ⟨decoded, success⟩
        obtain ⟨data, here, rest, later, -⟩ := decodeAll_cons_eq_some.mp success
        exact ⟨⟨data, here⟩, rest, later⟩
      · rintro ⟨⟨data, here⟩, rest, later⟩
        exact ⟨data :: rest, decodeAll_cons_eq_some.mpr ⟨data, here, rest, later, rfl⟩⟩

/-! ## One by one -/

open Decompressor

/-- What decoding in sequence requires. -/
theorem decompressSequentially_eq_ok {entries : List BlockIndexEntry}
    {compressed decompressed : Nat}
    {blocks : List (Option Bytes)} (compressedLe : compressed ≤ MAX_TOTAL_COMPRESSED_READ_SIZE)
    (decompressedLe : decompressed ≤ MAX_TOTAL_DECOMPRESSED_SIZE) :
    decompressSequentially ext archive baseline key entries compressed decompressed = .ok blocks ↔
      ∃ decoded, decodeAll ext archive baseline key entries = some decoded ∧
        blocks = decoded.map some ∧
        compressed + indexedTotal entries ≤ MAX_TOTAL_COMPRESSED_READ_SIZE ∧
        decompressed + totalSize decoded ≤ MAX_TOTAL_DECOMPRESSED_SIZE := by
  induction entries generalizing compressed decompressed blocks with
  | nil =>
      rw [decompressSequentially]
      constructor
      · rintro ⟨⟩
        exact ⟨[], rfl, rfl, compressedLe, decompressedLe⟩
      · rintro ⟨_, success, rfl, -, -⟩
        cases success
        rfl
  | cons entry entries recurse =>
      simp only [decompressSequentially, Result.bind_eq_ok, Result.failIf_eq_ok, not_lt,
        Result.pure_eq_ok, decodeAll_cons_eq_some]
      have indexed : indexedTotal (entry :: entries) =
          entry.compressedSize.toNat + indexedTotal entries := List.sum_cons
      have total (data : Bytes) (rest : List Bytes) :
          totalSize (data :: rest) = data.length + totalSize rest := List.sum_cons
      constructor
      · rintro ⟨_, within, data, decodes, _, fits, rest, later, rfl⟩
        obtain ⟨decoded, success, rfl, compressedAll, decompressedAll⟩ :=
          (recurse within fits).mp later
        refine ⟨data :: decoded, ⟨data, decodes, decoded, success, rfl⟩, rfl, ?_, ?_⟩
        · rw [indexed, ← Nat.add_assoc]
          exact compressedAll
        · rw [total, ← Nat.add_assoc]
          exact decompressedAll
      · rintro ⟨_, ⟨data, decodes, decoded, success, rfl⟩, rfl, compressedAll, decompressedAll⟩
        rw [indexed, ← Nat.add_assoc] at compressedAll
        rw [total, ← Nat.add_assoc] at decompressedAll
        have within := (Nat.le_add_right _ _).trans compressedAll
        have fits := (Nat.le_add_right _ _).trans decompressedAll
        exact ⟨(), within, data, decodes, (), fits, _,
          (recurse within fits).mpr ⟨decoded, success, rfl, compressedAll, decompressedAll⟩, rfl⟩

/-! ## Read in order, decoded in any order -/

/-- Reading a block does not depend on the position it is decoded to. -/
theorem readRawBlock_eq_ok {globalIdx : Nat} {entry : BlockIndexEntry} {block : RawBlock} :
    readRawBlock ext archive globalIdx entry key = .ok block ↔
      ∃ first, readRawBlock ext archive 0 entry key = .ok first ∧
        { first with globalIdx := globalIdx } = block := by
  simp only [readRawBlock, Result.bind_eq_ok, Result.pure_eq_ok]
  constructor
  · rintro ⟨header, headerRead, _, valid, payload, payloadRead, trailer, trailerRead, plain,
      decrypted, rfl⟩
    exact ⟨_, ⟨header, headerRead, (), valid, payload, payloadRead, trailer, trailerRead, plain,
      decrypted, rfl⟩, rfl⟩
  · rintro ⟨_, ⟨header, headerRead, _, valid, payload, payloadRead, trailer, trailerRead, plain,
      decrypted, rfl⟩, rfl⟩
    exact ⟨header, headerRead, (), valid, payload, payloadRead, trailer, trailerRead, plain,
      decrypted, rfl⟩

/-- The payload of a block that was read. -/
theorem payloadSize_of_read {globalIdx : Nat} {entry : BlockIndexEntry} {block : RawBlock}
    (success : readRawBlock ext archive globalIdx entry key = .ok block) :
    payloadSize ext archive key entry = block.payload.length ∧ block.globalIdx = globalIdx := by
  obtain ⟨first, read, rfl⟩ := readRawBlock_eq_ok.mp success
  rw [payloadSize, read]
  exact ⟨rfl, rfl⟩

/-- The blocks as they are read in order, each for its own position. -/
inductive ReadInOrder (ext : Externals) (archive : Bytes) (key : Option DecryptKey) :
    (globalIdx : Nat) → List BlockIndexEntry → List RawBlock → Prop where
  | nil {globalIdx : Nat} : ReadInOrder ext archive key globalIdx [] []
  | cons {globalIdx : Nat} {entry : BlockIndexEntry} {entries : List BlockIndexEntry}
      {block : RawBlock} {blocks : List RawBlock} :
      readRawBlock ext archive globalIdx entry key = .ok block →
      ReadInOrder ext archive key (globalIdx + 1) entries blocks →
      ReadInOrder ext archive key globalIdx (entry :: entries) (block :: blocks)

/-- One more entry adds its payload. -/
theorem payloadTotal_cons (entry : BlockIndexEntry) (entries : List BlockIndexEntry) :
    payloadTotal ext archive key (entry :: entries) =
      payloadSize ext archive key entry + payloadTotal ext archive key entries :=
  List.sum_cons

/-- What reading all blocks requires. -/
theorem readRawBlocks_eq_ok {entries : List BlockIndexEntry} {globalIdx compressed : Nat}
    {blocks : List RawBlock} (compressedLe : compressed ≤ MAX_TOTAL_COMPRESSED_READ_SIZE) :
    readRawBlocks ext archive key entries globalIdx compressed = .ok blocks ↔
      ReadInOrder ext archive key globalIdx entries blocks ∧
        compressed + payloadTotal ext archive key entries ≤ MAX_TOTAL_COMPRESSED_READ_SIZE := by
  induction entries generalizing globalIdx compressed blocks with
  | nil =>
      rw [readRawBlocks]
      constructor
      · rintro ⟨⟩
        exact ⟨.nil, compressedLe⟩
      · rintro ⟨⟨⟩, -⟩
        rfl
  | cons entry entries recurse =>
      simp only [readRawBlocks, Result.bind_eq_ok, Result.failIf_eq_ok, not_lt, Result.pure_eq_ok,
        payloadTotal_cons, ← Nat.add_assoc]
      constructor
      · rintro ⟨block, read, _, within, rest, readRest, rfl⟩
        obtain ⟨ordered, all⟩ := (recurse within).mp readRest
        rw [(payloadSize_of_read read).1]
        exact ⟨.cons read ordered, all⟩
      · rintro ⟨ordered, all⟩
        cases ordered with
        | cons read ordered =>
            rw [(payloadSize_of_read read).1] at all
            have within := (Nat.le_add_right _ _).trans all
            exact ⟨_, read, (), within, _, (recurse within).mpr ⟨ordered, all⟩, rfl⟩

/-- Blocks that decode can be read. -/
theorem exists_readInOrder {entries : List BlockIndexEntry} {decoded : List Bytes}
    (success : decodeAll ext archive baseline key entries = some decoded) (globalIdx : Nat) :
    ∃ blocks, ReadInOrder ext archive key globalIdx entries blocks := by
  induction entries generalizing decoded globalIdx with
  | nil => exact ⟨[], .nil⟩
  | cons entry entries recurse =>
      obtain ⟨data, decodes, rest, later, -⟩ := decodeAll_cons_eq_some.mp success
      obtain ⟨block, read, -⟩ := (decompressBlock_eq_ok globalIdx).mp decodes
      obtain ⟨blocks, ordered⟩ := recurse later (globalIdx + 1)
      exact ⟨block :: blocks, .cons read ordered⟩

/-- What is expected before decoding is what decoding gives. -/
theorem ReadInOrder.expected_eq {entries : List BlockIndexEntry} {globalIdx : Nat}
    {blocks : List RawBlock} {decoded : List Bytes}
    (ordered : ReadInOrder ext archive key globalIdx entries blocks)
    (success : decodeAll ext archive baseline key entries = some decoded) :
    (blocks.map RawBlock.uncompressedSize).sum = totalSize decoded := by
  induction ordered generalizing decoded with
  | nil =>
      cases success
      rfl
  | @cons globalIdx entry entries block blocks read ordered recurse =>
      obtain ⟨data, decodes, rest, later, rfl⟩ := decodeAll_cons_eq_some.mp success
      obtain ⟨same, sameRead, decoded⟩ := (decompressBlock_eq_ok globalIdx).mp decodes
      rw [read] at sameRead
      cases sameRead
      rw [List.map_cons, List.sum_cons, recurse later,
        ← (decompressRawBlock_eq_ok.mp decoded).2.1]
      exact List.sum_cons.symm

/-- Decoded blocks are put in front of the slots still empty. -/
theorem ReadInOrder.assembleBlocks_eq_ok {entries : List BlockIndexEntry}
    {blocks : List RawBlock} {front final : List (Option Bytes)} {decompressed : Nat}
    (ordered : ReadInOrder ext archive key front.length entries blocks)
    (decompressedLe : decompressed ≤ MAX_TOTAL_DECOMPRESSED_SIZE) :
    assembleBlocks (blocks.map fun block =>
        (decompressRawBlock ext block baseline).map fun data => (block.globalIdx, data))
        (front ++ List.replicate entries.length none) decompressed = .ok final ↔
      ∃ decoded, decodeAll ext archive baseline key entries = some decoded ∧
        final = front ++ decoded.map some ∧
        decompressed + totalSize decoded ≤ MAX_TOTAL_DECOMPRESSED_SIZE := by
  induction entries generalizing blocks front decompressed with
  | nil =>
      cases ordered
      rw [List.map_nil, assembleBlocks]
      constructor
      · rintro ⟨⟩
        exact ⟨[], rfl, rfl, decompressedLe⟩
      · rintro ⟨_, success, rfl, -⟩
        cases success
        rfl
  | cons entry entries recurse =>
      cases ordered with
      | @cons _ _ _ block blocks read ordered =>
          have place (data : Bytes) :
              (front ++ List.replicate (entry :: entries).length none).set block.globalIdx
                (some data) = (front ++ [some data]) ++ List.replicate entries.length none := by
            rw [(payloadSize_of_read read).2, List.length_cons, List.replicate_succ,
              List.set_append_right _ _ le_rfl, Nat.sub_self, List.set_cons_zero,
              List.append_assoc, List.singleton_append]
          have advanced (data : Bytes) : (front ++ [some data]).length = front.length + 1 :=
            List.length_append
          have decodes (data : Bytes) :
              decompressRawBlock ext block baseline = .ok data ↔
                decompressBlock ext archive entry baseline key = .ok data := by
            rw [decompressBlock_eq_ok front.length]
            constructor
            · intro decoded
              exact ⟨block, read, decoded⟩
            · rintro ⟨_, sameRead, decoded⟩
              rw [read] at sameRead
              cases sameRead
              exact decoded
          have total (data : Bytes) (rest : List Bytes) :
              totalSize (data :: rest) = data.length + totalSize rest := List.sum_cons
          simp only [List.map_cons, assembleBlocks, Result.bind_eq_ok, Result.failIf_eq_ok, not_lt,
            decodeAll_cons_eq_some]
          constructor
          · rintro ⟨⟨position, data⟩, decoded, _, fits, success⟩
            cases outcome : decompressRawBlock ext block baseline with
            | error error =>
                rw [outcome] at decoded
                cases decoded
            | ok found =>
                rw [outcome] at decoded
                cases decoded
                rw [place] at success
                obtain ⟨rest, later, rfl, all⟩ :=
                  (recurse (advanced data ▸ ordered) fits).mp success
                refine ⟨data :: rest, ⟨data, (decodes data).mp outcome, rest, later, rfl⟩, ?_, ?_⟩
                · rw [List.map_cons, List.append_assoc, List.singleton_append]
                · rw [total, ← Nat.add_assoc]
                  exact all
          · rintro ⟨_, ⟨data, decoded, rest, later, rfl⟩, rfl, all⟩
            rw [total, ← Nat.add_assoc] at all
            have fits := (Nat.le_add_right _ _).trans all
            refine ⟨(block.globalIdx, data), ?_, (), fits, ?_⟩
            · rw [(decodes data).mpr decoded]
              rfl
            · rw [place, (recurse (advanced data ▸ ordered) fits)]
              refine ⟨rest, later, ?_, all⟩
              rw [List.map_cons, List.append_assoc, List.singleton_append]

/-- Decoded blocks fill all slots. -/
theorem ReadInOrder.assembleAll_eq_ok {entries : List BlockIndexEntry} {blocks : List RawBlock}
    {final : List (Option Bytes)} (ordered : ReadInOrder ext archive key 0 entries blocks) :
    assembleBlocks (blocks.map fun block =>
        (decompressRawBlock ext block baseline).map fun data => (block.globalIdx, data))
        (List.replicate entries.length none) 0 = .ok final ↔
      ∃ decoded, decodeAll ext archive baseline key entries = some decoded ∧
        final = decoded.map some ∧ totalSize decoded ≤ MAX_TOTAL_DECOMPRESSED_SIZE := by
  have assembled := @ReadInOrder.assembleBlocks_eq_ok ext archive baseline key entries blocks []
    final 0 ordered (Nat.zero_le _)
  simpa only [List.nil_append, Nat.zero_add] using assembled

namespace Decompressor

variable {σ : Type} [ProbabilityPredictor σ] {self : Decompressor σ} {metadata : ArchiveMetadata}
  {blocks : List (Option Bytes)}

/-- **What the sequential strategy accepts.** -/
theorem decompressBlocksSequential_eq_ok :
    self.decompressBlocksSequential ext archive metadata key = .ok blocks ↔
      ∃ baseline decoded, self.decodeBaselineFor ext metadata.dictionaryHash = .ok baseline ∧
        decodeAll ext archive baseline key metadata.blockIndex = some decoded ∧
        blocks = decoded.map some ∧
        indexedTotal metadata.blockIndex ≤ MAX_TOTAL_COMPRESSED_READ_SIZE ∧
        totalSize decoded ≤ MAX_TOTAL_DECOMPRESSED_SIZE := by
  simp only [decompressBlocksSequential, Result.bind_eq_ok,
    decompressSequentially_eq_ok (Nat.zero_le _) (Nat.zero_le _), Nat.zero_add,
    exists_and_left]

/-- **What the parallel strategy accepts.** -/
theorem decompressBlocksParallel_eq_ok :
    self.decompressBlocksParallel ext archive metadata key = .ok blocks ↔
      ∃ baseline decoded, self.decodeBaselineFor ext metadata.dictionaryHash = .ok baseline ∧
        self.onPool ext "decompression" = .ok () ∧
        decodeAll ext archive baseline key metadata.blockIndex = some decoded ∧
        blocks = decoded.map some ∧
        payloadTotal ext archive key metadata.blockIndex ≤ MAX_TOTAL_COMPRESSED_READ_SIZE ∧
        totalSize decoded ≤ MAX_TOTAL_DECOMPRESSED_SIZE := by
  simp only [decompressBlocksParallel, Result.bind_eq_ok, Result.failIf_eq_ok, not_lt,
    readRawBlocks_eq_ok (Nat.zero_le _), Nat.zero_add]
  constructor
  · rintro ⟨raw, ⟨ordered, within⟩, _, -, baseline, resolved, _, pooled, success⟩
    obtain ⟨decoded, all, rfl, fits⟩ := ordered.assembleAll_eq_ok.mp success
    exact ⟨baseline, decoded, resolved, pooled, all, rfl, within, fits⟩
  · rintro ⟨baseline, decoded, resolved, pooled, all, rfl, within, fits⟩
    obtain ⟨raw, ordered⟩ := exists_readInOrder all 0
    refine ⟨raw, ⟨ordered, within⟩, (), ?_, baseline, resolved, (), pooled, ?_⟩
    · rw [ordered.expected_eq all]
      exact fits
    · exact ordered.assembleAll_eq_ok.mpr ⟨decoded, all, rfl, fits⟩

end Decompressor

end AetherArch
