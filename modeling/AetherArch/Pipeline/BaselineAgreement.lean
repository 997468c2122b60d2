import AetherArch.Pipeline.ExtractedSize
import AetherArch.Pipeline.StreamVerification

/-! # Payloads that use the baseline

A reader hands the dictionary baseline to the decoder of each block and uses it for nothing else,
and only the symbols that the neural predictor codes depend on it. An archive whose payloads hold no
such symbols is read alike from every baseline, failures included.
-/

namespace AetherArch

/-- Sequences agree when they agree on what the first step gives. -/
theorem Result.bind_congr {ε α β : Type} {first : Except ε α} {left right : α → Except ε β}
    (same : ∀ value, first = .ok value → left value = right value) :
    first >>= left = first >>= right := by
  cases first with
  | ok value => exact same value rfl
  | error error => rfl

/-- A payload as it is handed to the decoder: read, decrypted, and with what its header says. -/
structure CodedPayload where
  method : CompressionMethod
  payload : Bytes
  size : Nat

namespace CodedPayload

/-- The bytes that are range-coded by the neural predictor, and the number of their symbols. -/
def neuralPart (coded : CodedPayload) : Option (Bytes × Nat) :=
  match coded.method with
  | .predictorRans => some (coded.payload, coded.size)
  | .bwtPredictorRans =>
      let length := Numeral.littleEndian ((coded.payload.drop 5).take 4)
      if coded.payload.length < 9 ∨ coded.payload.headD 0 > 2 ∨
        length > MAX_DECOMPRESSED_BLOCK_SIZE then none
      else some (coded.payload.drop 9, length)
  | .lz77PredictorRans | .lzPredictorRans =>
      let length := Numeral.littleEndian (coded.payload.take 4)
      if coded.payload.length < 4 ∨ length > MAX_DECOMPRESSED_BLOCK_SIZE then none
      else some (coded.payload.drop 4, length)
  | _ => none

/-- The neural predictor decodes a symbol of the payload, starting from the baseline. -/
def usesBaseline (coded : CodedPayload) : Bool :=
  match coded.neuralPart with
  | some (bytes, length) =>
      coded.size ≤ MAX_DECOMPRESSED_BLOCK_SIZE ∧ length ≠ 0 ∧ bytes ≠ []
  | none => false

end CodedPayload

/-- No payload of a list uses the baseline. -/
def WithoutBaseline (payloads : List CodedPayload) : Prop :=
  ∀ coded ∈ payloads, coded.usesBaseline = false

/-- Nothing is decoded where there are no symbols or no bytes. -/
theorem Rans.decodeBlock_congr {σ : Type} [ProbabilityPredictor σ] {bytes : Bytes} {length : Nat}
    (nothing : length = 0 ∨ bytes = []) (first second : σ) :
    (Rans.decodeBlock bytes length first).1 = (Rans.decodeBlock bytes length second).1 := by
  unfold Rans.decodeBlock Rans.decodeBlockInner
  split
  · rfl
  · rename_i some
    rw [nothing.resolve_left some]
    rfl

namespace Router

/-- A block-sorted payload without symbols decodes alike. -/
theorem decompressBwt_congr {payload : Bytes} {size : Nat} (codecs : Codecs)
    (nothing : ∀ bytes length,
      (⟨.bwtPredictorRans, payload, size⟩ : CodedPayload).neuralPart = some (bytes, length) →
        length = 0 ∨ bytes = []) (first second : Option Bytes) :
    decompressBwt codecs payload size first = decompressBwt codecs payload size second := by
  unfold decompressBwt
  cases payload with
  | nil => rfl
  | cons flags rest =>
      dsimp only
      split
      · rfl
      rename_i long
      split
      · rfl
      rename_i known
      split
      · rfl
      rename_i bounded
      have part : (⟨.bwtPredictorRans, flags :: rest, size⟩ : CodedPayload).neuralPart =
          some (rest.drop 8, Numeral.littleEndian ((rest.drop 4).take 4)) :=
        if_neg (not_or.mpr ⟨long, not_or.mpr ⟨known, bounded⟩⟩)
      rw [Rans.decodeBlock_congr (nothing _ _ part) (codingPredictor codecs first)
        (codingPredictor codecs second)]

/-- So does an intermediate stream without symbols. -/
theorem decompressIntermediate_congr {payload : Bytes} (codecs : Codecs)
    (label limitLabel : String) (decode : Bytes → Nat → Result Bytes) (size : Nat)
    (nothing : ¬(payload.length < 4 ∨
        Numeral.littleEndian (payload.take 4) > MAX_DECOMPRESSED_BLOCK_SIZE) →
      Numeral.littleEndian (payload.take 4) = 0 ∨ payload.drop 4 = [])
    (first second : Option Bytes) :
    decompressIntermediate codecs label limitLabel decode payload size first =
      decompressIntermediate codecs label limitLabel decode payload size second := by
  unfold decompressIntermediate
  split
  · rfl
  rename_i long
  dsimp only
  split
  · rfl
  rename_i bounded
  rw [Rans.decodeBlock_congr (nothing (not_or.mpr ⟨long, bounded⟩))
    (codingPredictor codecs first) (codingPredictor codecs second)]

end Router

/-- Payloads that do not use it decode alike from every baseline. -/
theorem decompressChunkWithBaseline_congr {method : CompressionMethod} {payload : Bytes}
    {size : Nat} (unused : (⟨method, payload, size⟩ : CodedPayload).usesBaseline = false)
    (codecs : Codecs) (first second : Option Bytes) :
    decompressChunkWithBaseline codecs payload method size first =
      decompressChunkWithBaseline codecs payload method size second := by
  unfold decompressChunkWithBaseline
  split
  · rfl
  rename_i small
  have nothing (bytes : Bytes) (length : Nat)
      (part : (⟨method, payload, size⟩ : CodedPayload).neuralPart = some (bytes, length)) :
      length = 0 ∨ bytes = [] := by
    rw [CodedPayload.usesBaseline, part] at unused
    have refused := of_decide_eq_false unused
    by_contra coded
    rw [not_or] at coded
    exact refused ⟨not_lt.mp small, coded⟩
  cases method with
  | predictorRans => exact Rans.decodeBlock_congr (nothing _ _ rfl) _ _
  | bwtPredictorRans => exact Router.decompressBwt_congr codecs nothing first second
  | lz77PredictorRans =>
      exact Router.decompressIntermediate_congr codecs _ _ _ size
        (fun coded => nothing _ _ (if_neg coded)) first second
  | lzPredictorRans =>
      exact Router.decompressIntermediate_congr codecs _ _ _ size
        (fun coded => nothing _ _ (if_neg coded)) first second
  | bcjZstd => rfl
  | bytePlanePredictorRans => rfl
  | zstd => rfl
  | store => rfl

/-- The payloads of the blocks that can be read where index entries point. -/
def seekedPayloads (ext : Externals) (archive : Bytes) (key : Option DecryptKey)
    (entries : List BlockIndexEntry) : List CodedPayload :=
  entries.filterMap fun entry =>
    match readRawBlock ext archive 0 entry key with
    | .ok block => some ⟨block.compressionMethod, block.payload, block.uncompressedSize⟩
    | .error _ => none

/-- The payloads of the blocks that can be read along a stream, up to where it cannot be
followed. -/
def streamedPayloads (ext : Externals) (key : Option DecryptKey) : (count : Nat) →
    (archive : Bytes) → List CodedPayload
  | 0, _ => []
  | count + 1, archive =>
      match BlockHeader.readFrom ext.toHashing archive with
      | .error _ => []
      | .ok (header, rest) =>
          if checkStreamedSizes header ≠ .ok () then []
          else
            match Reader.readExact header.compressedSize.toNat rest with
            | .error _ => []
            | .ok (payload, rest) =>
                match BlockTrailer.readFromWithId ext.toHashing header.blockId rest with
                | .error _ => []
                | .ok (_, rest) =>
                    match maybeDecryptPayload ext payload.1 key header.blockId with
                    | .error _ => streamedPayloads ext key count rest
                    | .ok plain =>
                        ⟨header.compressionMethod, plain, header.uncompressedSize.toNat⟩ ::
                          streamedPayloads ext key count rest

variable {ext : Externals} {archive : Bytes} {key : Option DecryptKey}

theorem checkStreamedSizes_eq_ok {header : BlockHeader} :
    checkStreamedSizes header = .ok () ↔
      header.compressedSize.toNat ≤ MAX_DECOMPRESSED_BLOCK_SIZE ∧
        header.uncompressedSize.toNat ≤ MAX_DECOMPRESSED_BLOCK_SIZE := by
  simp only [checkStreamedSizes, Result.bind_eq_ok, Result.failIf_eq_ok, not_lt, exists_const]

/-- The payload of a block read at an index entry is among those of the index. -/
theorem mem_seekedPayloads {entries : List BlockIndexEntry} {entry : BlockIndexEntry}
    {globalIdx : Nat} {block : RawBlock} (member : entry ∈ entries)
    (read : readRawBlock ext archive globalIdx entry key = .ok block) :
    ⟨block.compressionMethod, block.payload, block.uncompressedSize⟩ ∈
      seekedPayloads ext archive key entries := by
  obtain ⟨first, same, rfl⟩ := readRawBlock_eq_ok.mp read
  refine List.mem_filterMap.mpr ⟨entry, member, ?_⟩
  rw [same]

section

variable {count : Nat} {header : BlockHeader} {payload : FixedBytes header.compressedSize.toNat}
  {trailer : BlockTrailer} {afterHeader afterPayload rest : Bytes}

/-- A stream that can be followed past a block goes on with the payloads behind it. -/
theorem streamedPayloads_succ
    (headerRead : BlockHeader.readFrom ext.toHashing archive = .ok (header, afterHeader))
    (bounded : checkStreamedSizes header = .ok ())
    (payloadRead : Reader.readExact header.compressedSize.toNat afterHeader =
      .ok (payload, afterPayload))
    (trailerRead : BlockTrailer.readFromWithId ext.toHashing header.blockId afterPayload =
      .ok (trailer, rest)) :
    streamedPayloads ext key (count + 1) archive =
      match maybeDecryptPayload ext payload.1 key header.blockId with
      | .error _ => streamedPayloads ext key count rest
      | .ok plain => ⟨header.compressionMethod, plain, header.uncompressedSize.toNat⟩ ::
          streamedPayloads ext key count rest := by
  rw [streamedPayloads, headerRead]
  dsimp only
  rw [if_neg (not_not.mpr bounded), payloadRead]
  dsimp only
  rw [trailerRead]

/-- Where no payload of a stream uses the baseline, none behind its first block does. -/
theorem WithoutBaseline.behind
    (plain : WithoutBaseline (streamedPayloads ext key (count + 1) archive))
    (headerRead : BlockHeader.readFrom ext.toHashing archive = .ok (header, afterHeader))
    (bounded : checkStreamedSizes header = .ok ())
    (payloadRead : Reader.readExact header.compressedSize.toNat afterHeader =
      .ok (payload, afterPayload))
    (trailerRead : BlockTrailer.readFromWithId ext.toHashing header.blockId afterPayload =
      .ok (trailer, rest)) :
    WithoutBaseline (streamedPayloads ext key count rest) := by
  rw [streamedPayloads_succ headerRead bounded payloadRead trailerRead] at plain
  cases decrypted : maybeDecryptPayload ext payload.1 key header.blockId with
  | error error =>
      rw [decrypted] at plain
      exact plain
  | ok payload =>
      rw [decrypted] at plain
      exact fun coded member => plain coded (List.mem_cons_of_mem _ member)

/-- Nor does the first block. -/
theorem WithoutBaseline.head {decrypted : Bytes}
    (plain : WithoutBaseline (streamedPayloads ext key (count + 1) archive))
    (headerRead : BlockHeader.readFrom ext.toHashing archive = .ok (header, afterHeader))
    (bounded : checkStreamedSizes header = .ok ())
    (payloadRead : Reader.readExact header.compressedSize.toNat afterHeader =
      .ok (payload, afterPayload))
    (trailerRead : BlockTrailer.readFromWithId ext.toHashing header.blockId afterPayload =
      .ok (trailer, rest))
    (opened : maybeDecryptPayload ext payload.1 key header.blockId = .ok decrypted) :
    (⟨header.compressionMethod, decrypted, header.uncompressedSize.toNat⟩ :
      CodedPayload).usesBaseline = false := by
  rw [streamedPayloads_succ headerRead bounded payloadRead trailerRead, opened] at plain
  exact plain _ List.mem_cons_self

end

/-! ## Seeking -/

section

variable {entries : List BlockIndexEntry}
  (plain : WithoutBaseline (seekedPayloads ext archive key entries))

include plain

/-- A block that does not use the baseline is decoded alike from every one. -/
theorem decompressBlock_congr {entry : BlockIndexEntry} (member : entry ∈ entries)
    (first second : Option Bytes) :
    decompressBlock ext archive entry first key = decompressBlock ext archive entry second key := by
  unfold decompressBlock
  apply Result.bind_congr
  rintro ⟨header, afterHeader⟩ headerRead
  refine Result.bind_congr fun _ valid => ?_
  apply Result.bind_congr
  rintro ⟨payload, afterPayload⟩ payloadRead
  apply Result.bind_congr
  rintro ⟨trailer, rest⟩ trailerRead
  refine Result.bind_congr fun opened decrypted => ?_
  have read : readRawBlock ext archive 0 entry key = .ok
      { globalIdx := 0, payload := opened, compressionMethod := header.compressionMethod
        uncompressedSize := header.uncompressedSize.toNat
        contentBlake3 := trailer.contentBlake3, blockId := header.blockId
        archiveOffset := entry.archiveOffset, solidGroupId := header.solidGroupId } := by
    simp only [readRawBlock, headerRead, valid, payloadRead, trailerRead, decrypted,
      Result.ok_bind]
    rfl
  rw [decompressChunkWithBaseline_congr (plain _ (mem_seekedPayloads member read)) _ first second]

/-- Blocks read in order are all read at index entries. -/
theorem readRawBlocks_unused {wanted : List BlockIndexEntry} {globalIdx compressed : Nat}
    {blocks : List RawBlock} (among : wanted ⊆ entries)
    (success : Decompressor.readRawBlocks ext archive key wanted globalIdx compressed =
      .ok blocks) : ∀ block ∈ blocks,
        (⟨block.compressionMethod, block.payload, block.uncompressedSize⟩ :
          CodedPayload).usesBaseline = false := by
  induction wanted generalizing globalIdx compressed blocks with
  | nil =>
      cases success
      exact fun _ member => absurd member List.not_mem_nil
  | cons entry wanted recurse =>
      obtain ⟨inside, others⟩ := List.cons_subset.mp among
      simp only [Decompressor.readRawBlocks, Result.bind_eq_ok, Result.pure_eq_ok] at success
      obtain ⟨block, read, _, -, rest, later, rfl⟩ := success
      intro other member
      rcases List.mem_cons.mp member with rfl | member
      · exact plain _ (mem_seekedPayloads inside read)
      · exact recurse others later other member

omit plain in
/-- A block read ahead that does not use the baseline is decoded alike from every one. -/
theorem decompressRawBlock_congr {block : RawBlock}
    (unused : (⟨block.compressionMethod, block.payload, block.uncompressedSize⟩ :
      CodedPayload).usesBaseline = false) (first second : Option Bytes) :
    decompressRawBlock ext block first = decompressRawBlock ext block second := by
  unfold decompressRawBlock
  rw [decompressChunkWithBaseline_congr unused _ first second]

namespace Decompressor

/-- All blocks of the index are decoded alike. -/
theorem decompressSequentially_congr {wanted : List BlockIndexEntry} (among : wanted ⊆ entries)
    (first second : Option Bytes) (compressed decompressed : Nat) :
    decompressSequentially ext archive first key wanted compressed decompressed =
      decompressSequentially ext archive second key wanted compressed decompressed := by
  induction wanted generalizing compressed decompressed with
  | nil => rfl
  | cons entry wanted recurse =>
      obtain ⟨inside, others⟩ := List.cons_subset.mp among
      simp only [decompressSequentially, decompressBlock_congr plain inside first second,
        recurse others]

/-- So are the blocks of one file. -/
theorem decompressFileBlocks_congr {wanted : List BlockIndexEntry} (among : wanted ⊆ entries)
    (first second : Option Bytes) (decompressed : Nat) :
    decompressFileBlocks ext archive first key wanted decompressed =
      decompressFileBlocks ext archive second key wanted decompressed := by
  induction wanted generalizing decompressed with
  | nil => rfl
  | cons entry wanted recurse =>
      obtain ⟨inside, others⟩ := List.cons_subset.mp among
      simp only [decompressFileBlocks, decompressBlock_congr plain inside first second,
        recurse others]

end Decompressor

end

namespace Decompressor

variable {σ : Type} {self : Decompressor σ} {metadata : ArchiveMetadata}

/-- Verification decodes every block alike. -/
theorem verifyBlocks_congr
    (plain : WithoutBaseline (seekedPayloads ext archive key metadata.blockIndex))
    (first second : Option Bytes) :
    self.verifyBlocks ext archive metadata first key =
      self.verifyBlocks ext archive metadata second key := by
  unfold verifyBlocks
  split
  · refine Result.bind_congr fun _ _ => congrArg pure (List.map_congr_left fun block member => ?_)
    obtain ⟨i, inside, rfl⟩ := List.mem_mapIdx.mp member
    cases read : readRawBlock ext archive i metadata.blockIndex[i] key with
    | error error => rfl
    | ok block =>
        exact decompressRawBlock_congr
          (plain _ (mem_seekedPayloads (List.getElem_mem inside) read)) first second
  · refine congrArg pure (List.map_congr_left fun entry member => ?_)
    exact decompressBlock_congr plain member first second

end Decompressor

/-! ## Streaming -/

/-- A block of a stream that does not use the baseline is decoded alike from every one. -/
theorem decompressBlockStreaming_congr {count : Nat}
    (plain : WithoutBaseline (streamedPayloads ext key (count + 1) archive))
    (first second : Option Bytes) :
    decompressBlockStreaming ext first key archive =
      decompressBlockStreaming ext second key archive := by
  unfold decompressBlockStreaming
  refine ByteReader.bind_congr fun header afterHeader headerRead => ?_
  refine ByteReader.bind_congr fun _ afterCheck checked => ?_
  refine ByteReader.bind_congr fun payload afterPayload payloadRead => ?_
  refine ByteReader.bind_congr fun trailer rest trailerRead => ?_
  refine ByteReader.bind_congr fun opened _ decrypted => ?_
  obtain ⟨bounded, rfl⟩ := ByteReader.lift_eq_ok.mp checked
  obtain ⟨opens, -⟩ := ByteReader.lift_eq_ok.mp decrypted
  rw [decompressChunkWithBaseline_congr
    (plain.head headerRead bounded payloadRead trailerRead opens) _ first second]

/-- The blocks of a stream are decoded alike. -/
theorem Decompressor.decompressStreamed_congr {count : Nat}
    (plain : WithoutBaseline (streamedPayloads ext key count archive))
    (first second : Option Bytes) (compressed decompressed : Nat) :
    decompressStreamed ext first key count compressed decompressed archive =
      decompressStreamed ext second key count compressed decompressed archive := by
  induction count generalizing archive compressed decompressed with
  | zero => rfl
  | succ count recurse =>
      rw [decompressStreamed, decompressStreamed, ByteReader.bind_apply, ByteReader.bind_apply,
        decompressBlockStreaming_congr plain first second]
      apply Result.bind_congr
      rintro ⟨block, rest⟩ read
      obtain ⟨header, afterHeader, payload, afterPayload, trailer, data, headerRead, stored, size,
        payloadRead, trailerRead, -⟩ := decompressBlockStreaming_eq_ok.mp read
      have behind := plain.behind headerRead (checkStreamedSizes_eq_ok.mpr ⟨stored, size⟩)
        payloadRead trailerRead
      refine ByteReader.bind_congr fun _ afterCap capped => ?_
      refine ByteReader.bind_congr fun _ afterTotal bounded => ?_
      obtain ⟨-, rfl⟩ := Reader.failIf_eq_ok.mp capped
      obtain ⟨-, rfl⟩ := Reader.failIf_eq_ok.mp bounded
      rw [ByteReader.bind_apply, ByteReader.bind_apply, recurse behind]

/-- A block of a stream is reported alike. -/
theorem reportStreamedBlock_congr {header : BlockHeader} {payload : Bytes}
    (unused : ∀ plain, maybeDecryptPayload ext payload key header.blockId = .ok plain →
      (⟨header.compressionMethod, plain, header.uncompressedSize.toNat⟩ :
        CodedPayload).usesBaseline = false)
    (first second : Option Bytes) (trailer : BlockTrailer) (result : VerificationResult) :
    reportStreamedBlock ext first key header payload trailer result =
      reportStreamedBlock ext second key header payload trailer result := by
  unfold reportStreamedBlock
  cases opened : maybeDecryptPayload ext payload key header.blockId with
  | error error => rfl
  | ok plain =>
      dsimp only
      rw [decompressChunkWithBaseline_congr (unused plain opened) _ first second]

/-- Verification of a stream reports alike. -/
theorem verifyStreamed_congr {count : Nat}
    (plain : WithoutBaseline (streamedPayloads ext key count archive))
    (first second : Option Bytes) (blockIdx : Nat) (result : VerificationResult) :
    verifyStreamed ext first key count blockIdx archive result =
      verifyStreamed ext second key count blockIdx archive result := by
  induction count generalizing blockIdx archive result with
  | zero => rfl
  | succ count recurse =>
      rw [verifyStreamed, verifyStreamed]
      cases headerRead : BlockHeader.readFrom ext.toHashing archive with
      | error error => rfl
      | ok pair =>
          obtain ⟨header, afterHeader⟩ := pair
          dsimp only
          split
          · rfl
          rename_i stored
          split
          · rfl
          rename_i size
          have bounded := checkStreamedSizes_eq_ok.mpr ⟨not_lt.mp stored, not_lt.mp size⟩
          cases payloadRead : Reader.readExact header.compressedSize.toNat afterHeader with
          | error error => rfl
          | ok pair =>
              obtain ⟨payload, afterPayload⟩ := pair
              dsimp only
              cases trailerRead : BlockTrailer.readFromWithId ext.toHashing header.blockId
                  afterPayload with
              | error error => rfl
              | ok pair =>
                  obtain ⟨trailer, rest⟩ := pair
                  dsimp only
                  rw [recurse (plain.behind headerRead bounded payloadRead trailerRead),
                    reportStreamedBlock_congr (fun _ opened =>
                      plain.head headerRead bounded payloadRead trailerRead opened) first second]

end AetherArch
