import AetherArch.Entropy.NeuralSsmStates
import AetherArch.Pipeline.Operations
import AetherArch.Pipeline.RouterRoundTrip
import AetherArch.Pipeline.WriterLayout

/-! # What written blocks hold

With libraries that do what they promise, every block the writer writes decodes to its chunk,
under the key and the dictionary of the writer, and the key a reader derives from the same
password is that one.
-/

namespace AetherArch

/-! ## What the writer relies on -/

/-- Cuts within the limits the chunker is given. Only the last one may be shorter. -/
structure Chunker.FastCdc.Bounded (fastCdc : FastCdc) : Prop where
  atMost : ∀ data, ∀ cut ∈ fastCdc data MIN_CHUNK_SIZE AVG_CHUNK_SIZE MAX_CHUNK_SIZE,
    cut.2 ≤ MAX_CHUNK_SIZE
  atLeast : ∀ data, ∀ cut ∈ (fastCdc data MIN_CHUNK_SIZE AVG_CHUNK_SIZE MAX_CHUNK_SIZE).dropLast,
    MIN_CHUNK_SIZE ≤ cut.2

/-- A cipher that opens what it sealed. Sealing adds a tag. -/
structure Aead.Inverts (aead : Aead) : Prop where
  opens : ∀ key nonce plaintext aad ciphertext,
    aead.encrypt key nonce plaintext aad = .ok ciphertext →
      aead.decrypt key nonce ciphertext aad = some plaintext
  tagged : ∀ key nonce plaintext aad ciphertext,
    aead.encrypt key nonce plaintext aad = .ok ciphertext →
      ciphertext.length = plaintext.length + Crypto.TAG_SIZE

/-- Libraries that do what they promise, and a neural predictor that keeps its contract from any
dictionary baseline. -/
structure WriterExternals.Reliable (ext : WriterExternals) : Prop where
  predictor : ∀ dictBaseline,
    ProbabilityPredictor.Contract (Router.codingPredictor ext.toCodecs dictBaseline)
  zstd : ext.zstd.Inverts
  libsais : SortsSuffixes ext.libsais
  partitions : Chunker.FastCdc.Partitions ext.fastCdc
  bounded : Chunker.FastCdc.Bounded ext.fastCdc
  aesGcm : ext.aesGcm.Inverts
  chaCha : ext.chaCha.Inverts
  pools : ∀ threads, ext.threadPool threads = .ok ()

open ProbabilityPredictor in
/-- In exact arithmetic the predictor of the codecs keeps the contract from any dictionary. -/
theorem Router.contract_codingPredictor {codecs : Codecs} {functions : ExactFunctions}
    (exact : codecs.arith = .exact functions) (dictBaseline : Option Bytes) :
    Contract (codingPredictor codecs dictBaseline) := by
  obtain ⟨arith, zstd, libsais, decompressSizePrepended⟩ := codecs
  dsimp only at exact
  subst exact
  cases dictBaseline with
  | none => exact NeuralSsmPredictor.contract NeuralSsmPredictor.new_wellFormed
  | some baseline =>
      exact NeuralSsmPredictor.contract
        (NeuralSsmPredictor.new_wellFormed.setDictBaseline baseline)

/-- The router is sound with reliable libraries, from any dictionary baseline. -/
theorem WriterExternals.Reliable.sound {ext : WriterExternals} (reliable : ext.Reliable)
    (dictBaseline : Option Bytes) : Router.Sound ext.toCodecs dictBaseline :=
  ⟨reliable.zstd, reliable.libsais, reliable.predictor dictBaseline⟩

/-! ## Chunks -/

namespace Chunker

variable {hashing : Hashing} {format : FloatFormat} {fastCdc : FastCdc}

/-- Every fixed chunk holds a part of the data. -/
theorem mem_chunkFixedRefs {blockSize : Nat} {positive : 0 < blockSize} {data : Bytes}
    {chunk : ChunkRef format}
    (among : chunk ∈ chunkFixedRefs hashing format blockSize positive data) :
    chunk.data.length ≤ blockSize ∧ chunk.blake3Hash = hashing.blake3 chunk.data := by
  induction data using chunkFixedRefs.induct blockSize positive with
  | case1 =>
      rw [chunkFixedRefs, if_pos rfl] at among
      cases among
  | case2 data present recurse =>
      rw [chunkFixedRefs, if_neg present] at among
      rcases List.mem_cons.mp among with rfl | later
      · exact ⟨List.length_take_le _ _, rfl⟩
      · exact recurse later

/-- **A chunk is no longer than the limit**, and comes with its digest. -/
theorem mem_fileChunks (bounded : fastCdc.Bounded) {fileData : Bytes} {chunk : ChunkRef format}
    (among : chunk ∈ fileChunks hashing format fastCdc fileData) :
    chunk.data.length ≤ MAX_CHUNK_SIZE ∧ chunk.blake3Hash = hashing.blake3 chunk.data := by
  rw [fileChunks] at among
  split at among
  · obtain ⟨short, digest⟩ := mem_chunkFixedRefs among
    exact ⟨short.trans (by decide), digest⟩
  · rw [chunkDataRefs] at among
    split at among
    · cases among
    · obtain ⟨cut, inside, rfl⟩ := List.mem_map.mp among
      exact ⟨(List.length_take_le _ _).trans (bounded.atMost fileData cut inside), rfl⟩

/-- The lengths of a tiling add up. -/
theorem Tiles.sum_lengths {stop start : Nat} {cuts : List (Nat × Nat)}
    (tiles : Tiles stop start cuts) : start + (cuts.map Prod.snd).sum = stop := by
  induction tiles with
  | nil => exact Nat.add_zero stop
  | cons _ recurse =>
      rw [List.map_cons, List.sum_cons, ← Nat.add_assoc]
      exact recurse

/-- Cuts of some length each, but the last, are as few as that length allows. -/
theorem length_mul_le_sum {cuts : List (Nat × Nat)} {size : Nat}
    (atLeast : ∀ cut ∈ cuts.dropLast, size ≤ cut.2) :
    cuts.length * size ≤ (cuts.map Prod.snd).sum + size := by
  induction cuts with
  | nil =>
      rw [List.length_nil, Nat.zero_mul]
      exact Nat.zero_le _
  | cons cut cuts recurse =>
      rw [List.length_cons, Nat.succ_mul, List.map_cons, List.sum_cons]
      cases cuts with
      | nil =>
          rw [List.length_nil, Nat.zero_mul, Nat.zero_add]
          exact Nat.le_add_left ..
      | cons next cuts =>
          rw [List.dropLast_cons_cons] at atLeast
          have here := atLeast cut List.mem_cons_self
          have later := recurse fun other member => atLeast other (List.mem_cons_of_mem _ member)
          omega

/-- Short data is one chunk. -/
theorem length_chunkFixedRefs {blockSize : Nat} {positive : 0 < blockSize} {data : Bytes}
    (short : data.length ≤ blockSize) :
    (chunkFixedRefs hashing format blockSize positive data).length ≤ 1 := by
  rw [chunkFixedRefs]
  split
  · exact Nat.zero_le 1
  · rw [List.drop_eq_nil_of_le short, chunkFixedRefs, if_pos rfl]
    exact le_rfl

/-- **A file has few chunks** for its size. -/
theorem length_fileChunks_le (partitions : fastCdc.Partitions) (bounded : fastCdc.Bounded)
    (fileData : Bytes) :
    (fileChunks hashing format fastCdc fileData).length * MIN_CHUNK_SIZE ≤
      fileData.length + MIN_CHUNK_SIZE := by
  rw [fileChunks]
  split
  · rename_i short
    have average : MIN_CHUNK_SIZE ≤ AVG_CHUNK_SIZE := by decide
    have single := @length_chunkFixedRefs hashing format _ (by decide) _ (short.le.trans average)
    refine (Nat.mul_le_mul_right MIN_CHUNK_SIZE single).trans ?_
    rw [Nat.one_mul]
    exact Nat.le_add_left ..
  · rw [chunkDataRefs]
    split
    · rw [List.length_nil, Nat.zero_mul]
      exact Nat.zero_le _
    · have total := (partitions fileData).sum_lengths
      rw [Nat.zero_add] at total
      rw [List.length_map, ← total]
      exact length_mul_le_sum (bounded.atLeast fileData)

end Chunker

/-! ## Encryption -/

section

variable {ext : WriterExternals}

/-- Decryption undoes encryption. -/
theorem aeadDecrypt_aeadEncrypt (reliable : ext.Reliable) {cipherId : CipherId} {key : Digest}
    {nonce : FixedBytes 12} {plaintext aad ciphertext : Bytes}
    (encrypted : aeadEncrypt ext.toPrimitives cipherId key nonce plaintext aad =
      .ok ciphertext) :
    aeadDecrypt ext.toPrimitives cipherId key nonce ciphertext aad = .ok plaintext ∧
      ciphertext.length = plaintext.length + Crypto.TAG_SIZE := by
  cases cipherId with
  | aes256Gcm =>
      dsimp only [aeadEncrypt, aeadDecrypt] at encrypted ⊢
      split at encrypted
      · rename_i sealed
        cases encrypted
        rw [reliable.aesGcm.opens _ _ _ _ _ sealed]
        exact ⟨rfl, reliable.aesGcm.tagged _ _ _ _ _ sealed⟩
      · cases encrypted
  | chaCha20Poly1305 =>
      dsimp only [aeadEncrypt, aeadDecrypt] at encrypted ⊢
      split at encrypted
      · rename_i sealed
        cases encrypted
        rw [reliable.chaCha.opens _ _ _ _ _ sealed]
        exact ⟨rfl, reliable.chaCha.tagged _ _ _ _ _ sealed⟩
      · cases encrypted

/-- **An encrypted payload decrypts**, and is longer by its nonce and its tag. -/
theorem decryptBlock_encryptBlock (reliable : ext.Reliable) {cipherId : CipherId} {key : Digest}
    {masterNonce : FixedBytes 12} {blockId : UInt32} {plaintext payload : Bytes}
    (encrypted : encryptBlock ext.toPrimitives cipherId key masterNonce blockId plaintext =
      .ok payload) :
    decryptBlock ext.toPrimitives cipherId key masterNonce blockId payload = .ok plaintext ∧
      payload.length = plaintext.length + (Crypto.NONCE_SIZE + Crypto.TAG_SIZE) := by
  simp only [encryptBlock, Result.bind_eq_ok, Result.pure_eq_ok] at encrypted
  obtain ⟨-, -, ciphertext, sealed, rfl⟩ := encrypted
  obtain ⟨opens, tagged⟩ := aeadDecrypt_aeadEncrypt reliable sealed
  have nonceSize : Crypto.NONCE_SIZE = 12 := rfl
  have nonce := (deriveBlockNonce ext.toPrimitives masterNonce blockId).2
  have length : ((deriveBlockNonce ext.toPrimitives masterNonce blockId).1 ++ ciphertext).length =
      plaintext.length + (Crypto.NONCE_SIZE + Crypto.TAG_SIZE) := by
    rw [List.length_append, nonce, tagged, nonceSize]
    exact Nat.add_left_comm ..
  refine ⟨?_, length⟩
  simp only [decryptBlock, Result.bind_eq_ok, Result.failIf_eq_ok, not_lt, not_not]
  refine ⟨(), ?_, (), List.take_left' nonce, ?_⟩
  · rw [length]
    exact Nat.le_add_left ..
  · rw [nonceSize, List.drop_left' nonce]
    exact opens

end

namespace Compressor

variable {σ : Type} {ext : WriterExternals} {compressor : Compressor σ}
  {encryption : EncryptionState} {baseline : Option Bytes}

/-- The key a reader derives for an archive. -/
def decryptKey (encryption : EncryptionState) : Option DecryptKey :=
  encryption.map fun state =>
    { cipherId := state.1.cipherId.toU8, key := state.2, masterNonce := state.1.masterNonce }

/-- The payload of a block is decrypted to its data. -/
theorem maybeDecryptPayload_blockData (reliable : ext.Reliable) {blockId : UInt32}
    {data payload : Bytes} (encrypted : blockData ext encryption blockId data = .ok payload) :
    maybeDecryptPayload ext.toExternals payload (decryptKey encryption) blockId = .ok data ∧
      data.length ≤ payload.length ∧
      payload.length ≤ data.length + (Crypto.NONCE_SIZE + Crypto.TAG_SIZE) := by
  cases encryption with
  | none =>
      cases encrypted
      exact ⟨rfl, le_rfl, Nat.le_add_right ..⟩
  | some state =>
      obtain ⟨header, key⟩ := state
      obtain ⟨opens, length⟩ := decryptBlock_encryptBlock reliable encrypted
      refine ⟨?_, length ▸ Nat.le_add_right .., length.le⟩
      simp only [maybeDecryptPayload, decryptKey, Option.map_some, CipherId.fromU8_toU8,
        Result.ok_bind]
      exact opens

/-! ## The reader's set-up -/

/-- A decompressor with the predictor, the dictionary and the password of the writer. -/
structure ConfiguredFor (compressor : Compressor σ) (decompressor : Decompressor σ) : Prop where
  predictorFactory : decompressor.predictorFactory = compressor.predictorFactory
  dictionary : decompressor.dictionary = compressor.dictionary
  password : decompressor.password = compressor.encryptionConfig.map EncryptionConfig.password

variable {decompressor : Decompressor σ}

/-- **A reader derives the key of the writer.** -/
theorem ConfiguredFor.deriveDecryptKey_eq (configured : ConfiguredFor compressor decompressor)
    (keyed : compressor.encryptionState ext = .ok encryption) {flags : UInt16}
    (flagged : hasFlag flags FLAG_ENCRYPTED = encryption.isSome) :
    deriveDecryptKey ext.toExternals flags (encryption.map Prod.fst) decompressor.password =
      .ok (decryptKey encryption) := by
  rw [deriveDecryptKey.eq_def, flagged, configured.password]
  rw [encryptionState] at keyed
  split at keyed
  · cases keyed
    rfl
  · rename_i config configuredPassword
    simp only [Result.bind_eq_ok, Result.pure_eq_ok] at keyed
    obtain ⟨-, -, key, derived, rfl⟩ := keyed
    have limits (header : EncryptionHeader) (mCost : header.mCost = Crypto.DEFAULT_ARGON2_M_COST)
        (tCost : header.tCost = Crypto.DEFAULT_ARGON2_T_COST)
        (pCost : header.pCost = Crypto.DEFAULT_ARGON2_P_COST) :
        checkArgon2Limits header = .ok () := by
      simp only [checkArgon2Limits, mCost, tCost, pCost, Result.bind_eq_ok, Result.failIf_eq_ok]
      decide
    rw [configuredPassword]
    simp only [Option.isSome_some, ↓reduceIte, Option.map_some, Result.bind_eq_ok,
      Result.pure_eq_ok]
    exact ⟨(), limits _ rfl rfl rfl, key, derived, (), Result.failIf_eq_ok.mpr (not_not.mpr rfl),
      rfl⟩

variable [ProbabilityPredictor σ]

/-- **A reader resolves the dictionary of the writer.** -/
theorem ConfiguredFor.decodeBaselineFor_eq (configured : ConfiguredFor compressor decompressor)
    (coded : compressor.encodeBaseline = .ok baseline) :
    decompressor.decodeBaselineFor ext.toExternals (compressor.dictionary.map Dictionary.hash) =
      .ok baseline := by
  rw [encodeBaseline] at coded
  rw [Decompressor.decodeBaselineFor, Decompressor.resolveDictionary, configured.dictionary,
    configured.predictorFactory]
  cases present : compressor.dictionary with
  | none =>
      rw [present] at coded
      exact coded
  | some dict =>
      rw [present] at coded
      dsimp only [Option.map_some] at coded ⊢
      cases applied : dict.apply compressor.predictorFactory with
      | error e =>
          rw [applied] at coded
          cases coded
      | ok predictor =>
          rw [applied] at coded
          exact coded

/-- A decompressor configured like the writer unlocks the archive. -/
theorem ConfiguredFor.unlocked (configured : ConfiguredFor compressor decompressor)
    (keyed : compressor.encryptionState ext = .ok encryption)
    (coded : compressor.encodeBaseline = .ok baseline) {flags : UInt16}
    (flagged : hasFlag flags FLAG_ENCRYPTED = encryption.isSome) :
    decompressor.Unlocked ext.toExternals flags (encryption.map Prod.fst)
      (compressor.dictionary.map Dictionary.hash) (decryptKey encryption) baseline where
  dictionary := by
    rw [Decompressor.validateDictionary.eq_def, configured.dictionary]
    cases compressor.dictionary with
    | none => rfl
    | some dict => exact Result.failIf_eq_ok.mpr (not_not.mpr rfl)
  key := configured.deriveDecryptKey_eq keyed flagged
  baseline := configured.decodeBaselineFor_eq coded

end Compressor

/-! ## Blocks -/

/-- What a compressed chunk decompresses to. -/
def CompressedChunk.content (codecs : Codecs) (dictBaseline : Option Bytes)
    (compressed : CompressedChunk) : Bytes :=
  (decompressChunkWithBaseline codecs compressed.data compressed.method compressed.originalSize
    dictBaseline).toOption.getD []

/-- A compressed chunk that decompresses to what its size and its digest are of. -/
structure CompressedChunk.Faithful (ext : Externals) (dictBaseline : Option Bytes)
    (compressed : CompressedChunk) : Prop where
  decodes : decompressChunkWithBaseline ext.toCodecs compressed.data compressed.method
    compressed.originalSize dictBaseline = .ok (compressed.content ext.toCodecs dictBaseline)
  digest : ext.blake3 (compressed.content ext.toCodecs dictBaseline) = compressed.blake3Hash
  size : (compressed.content ext.toCodecs dictBaseline).length = compressed.originalSize
  shorter : compressed.data.length ≤ compressed.originalSize
  bounded : compressed.originalSize ≤ Chunker.MAX_CHUNK_SIZE

namespace Compressor

variable {σ : Type} {ext : WriterExternals} {compressor : Compressor σ}
  {encryption : EncryptionState} {baseline : Option Bytes}

/-- **A chunk of a file is compressed faithfully**, to the content it has. -/
theorem faithful_compressed (reliable : ext.Reliable) {chunk : ChunkRef ext.arith.double}
    (bounded : chunk.data.length ≤ Chunker.MAX_CHUNK_SIZE)
    (digest : chunk.blake3Hash = ext.blake3 chunk.data) {contentType : ContentType}
    {compressed : CompressedChunk}
    (success : compressChunkWithBaseline ext.toCodecs chunk baseline contentType
      compressor.profile = .ok compressed) :
    compressed.Faithful ext.toExternals baseline ∧
      compressed.content ext.toCodecs baseline = chunk.data := by
  obtain ⟨size, hash⟩ := compressChunkWithBaseline_keeps success
  rw [chunk.length_eq] at size
  obtain ⟨decodes, shorter, -⟩ := (Router.accepted_compressChunk (reliable.sound baseline) bounded
    success).decodes (Router.block_of_chunk bounded)
  rw [← size] at decodes shorter bounded
  have content : compressed.content ext.toCodecs baseline = chunk.data := by
    rw [CompressedChunk.content, decodes]
    rfl
  refine ⟨⟨?_, ?_, ?_, shorter, bounded⟩, content⟩
  · rw [content]
    exact decodes
  · rw [content, hash, digest]
  · rw [content, size]

/-- **The blocks of a file are compressed faithfully**, and their contents are the file's. -/
theorem Compresses.faithful (reliable : ext.Reliable) {contentType : ContentType}
    {fileData : Bytes} {blocks : List CompressedChunk}
    (compresses : Compresses ext compressor baseline contentType fileData blocks) :
    (∀ compressed ∈ blocks, compressed.Faithful ext.toExternals baseline) ∧
      (blocks.map (CompressedChunk.content ext.toCodecs baseline)).flatten = fileData := by
  have each : ∀ chunk ∈ Chunker.fileChunks ext.toHashing ext.arith.double ext.fastCdc fileData,
      chunk.data.length ≤ Chunker.MAX_CHUNK_SIZE ∧
        chunk.blake3Hash = ext.blake3 chunk.data :=
    fun chunk among => Chunker.mem_fileChunks reliable.bounded among
  have whole := @Chunker.fileChunks_flatMap ext.toHashing ext.arith.double _ reliable.partitions
    fileData
  rw [Compresses] at compresses
  generalize Chunker.fileChunks ext.toHashing ext.arith.double ext.fastCdc fileData = chunks
    at compresses each whole
  constructor
  · intro compressed member
    obtain ⟨chunk, among, success⟩ := compresses.exists_left member
    obtain ⟨bounded, digest⟩ := each chunk among
    exact (faithful_compressed reliable bounded digest success).1
  · have contents : chunks.map ChunkRef.data =
        blocks.map (CompressedChunk.content ext.toCodecs baseline) := by
      clear whole
      induction compresses with
      | nil => rfl
      | @cons chunk compressed chunks blocks success _ recurse =>
          obtain ⟨bounded, digest⟩ := each chunk List.mem_cons_self
          rw [List.map_cons, List.map_cons,
            (faithful_compressed reliable bounded digest success).2,
            recurse fun other member => each other (List.mem_cons_of_mem _ member)]
    rw [← contents, ← List.flatMap_def]
    exact whole

/-- **A written block holds the content of its chunk.** -/
theorem holds_stored (reliable : ext.Reliable) {written : WrittenBlock} {blockId : Nat}
    (fits : written.Fits ext encryption blockId)
    (faithful : written.compressed.Faithful ext.toExternals baseline) :
    (written.stored blockId).Holds ext.toExternals baseline (decryptKey encryption)
      (written.compressed.content ext.toCodecs baseline) where
  compressedSize := fits.compressedSize
  bounded := by
    have added : Chunker.MAX_CHUNK_SIZE + (Crypto.NONCE_SIZE + Crypto.TAG_SIZE) ≤
        MAX_DECOMPRESSED_BLOCK_SIZE := by decide
    refine ((maybeDecryptPayload_blockData reliable fits.payload).2.2.trans ?_).trans added
    exact Nat.add_le_add_right (faithful.shorter.trans faithful.bounded) _
  decodes := by
    refine ⟨_, (maybeDecryptPayload_blockData reliable fits.payload).1, ?_⟩
    rw [fits.uncompressedSize]
    exact faithful.decodes
  digest := faithful.digest

end Compressor

end AetherArch
