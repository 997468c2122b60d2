import AetherArch.Coding.BwtRoundTrip
import AetherArch.Coding.BytePlaneRoundTrip
import AetherArch.Coding.Lz77RoundTrip
import AetherArch.Entropy.NeuralSsmContract
import AetherArch.Pipeline.Router

/-! # Router round trip

Every candidate the cascade can keep is shorter than the chunk and decodes to it, so the
choice among them, which depends on entropies and sizes, does not matter.
-/

namespace AetherArch

namespace Router

open ProbabilityPredictor

/-- What the router relies on: Zstandard inverts itself, the suffix arrays are sorted, and
the seeded predictor keeps the contract. -/
structure Sound (codecs : Codecs) (dictBaseline : Option Bytes) : Prop where
  inverts : codecs.zstd.Inverts
  sorts : SortsSuffixes codecs.libsais
  contract : Contract (codingPredictor codecs dictBaseline)

variable {codecs : Codecs} {dictBaseline : Option Bytes}

/-- A candidate that is shorter than the data and decodes to it. -/
structure Decodes (codecs : Codecs) (dictBaseline : Option Bytes) (data : Bytes)
    (candidate : Candidate) : Prop where
  shorter : candidate.2.length < data.length
  decodes : decompressChunkWithBaseline codecs candidate.2 candidate.1 data.length dictBaseline =
    .ok data

/-- Everything kept so far decodes. -/
def Sustained (codecs : Codecs) (dictBaseline : Option Bytes) (data : Bytes) (best : Best) : Prop :=
  ∀ candidate ∈ best, Decodes codecs dictBaseline data candidate

theorem sustained_none (data : Bytes) : Sustained codecs dictBaseline data none := by
  intro candidate member
  cases member

/-- A candidate that decodes is sustained. -/
theorem sustained_some {data : Bytes} {candidate : Candidate}
    (decodes : Decodes codecs dictBaseline data candidate) :
    Sustained codecs dictBaseline data (some candidate) := by
  intro other member
  cases member
  exact decodes

/-- Keeping the shorter of two decoding candidates keeps one that decodes. -/
theorem sustained_keep {data payload : Bytes} {best : Best} {method : CompressionMethod}
    (sustained : Sustained codecs dictBaseline data best)
    (decodes : payload.length < data.length →
      Decodes codecs dictBaseline data (method, payload)) :
    Sustained codecs dictBaseline data (keep data best method payload) := by
  rw [keep]
  split
  · rename_i kept
    exact sustained_some (decodes kept.1)
  · exact sustained

theorem block_of_chunk {data : Bytes} (bounded : data.length ≤ Chunker.MAX_CHUNK_SIZE) :
    data.length ≤ MAX_DECOMPRESSED_BLOCK_SIZE :=
  bounded.trans (by decide)

/-- **A stream coded by a scratch predictor decodes with a fresh one**, whatever the
scratch predictor coded before. -/
theorem decodeBlock_scratch (contract : Contract (codingPredictor codecs dictBaseline))
    {scratch : NeuralSsmPredictor codecs.arith}
    (reached : Reachable (codingPredictor codecs dictBaseline) scratch) {stream bytes : Bytes}
    (bounded : stream.length ≤ MAX_DECOMPRESSED_BLOCK_SIZE)
    (encoded : (Rans.encodeBlock stream scratch).1 = .ok bytes) :
    (Rans.decodeBlock bytes stream.length (codingPredictor codecs dictBaseline)).1 =
      .ok stream := by
  have same := (NeuralSsmPredictor.sameSetup_of_reachable reached).reset_indistinguishable
  rw [← Rans.encodeBlock_congr same] at encoded
  exact congrArg Prod.fst
    (Rans.decodeBlockInner_encodeBlockInner stream _ true contract bounded bytes encoded).1

/-! ## Candidates -/

/-- Split planes decode to the data. -/
theorem decodes_byteplane {data payload : Bytes} {width : BytePlaneWidth} {format : FloatFormat}
    (bounded : data.length ≤ MAX_DECOMPRESSED_BLOCK_SIZE)
    (encoded : byteplaneEncode format data width = some payload) :
    Decodes codecs dictBaseline data (.bytePlanePredictorRans, payload) := by
  obtain ⟨decoded, shorter⟩ := byteplaneDecode_byteplaneEncodeWith encoded
  refine ⟨shorter, ?_⟩
  rw [decompressChunkWithBaseline, if_neg (not_lt.mpr bounded)]
  exact decoded

/-- A shorter zstd frame decodes to the data. -/
theorem decodes_zstd (inverts : codecs.zstd.Inverts) {data payload : Bytes}
    (bounded : data.length ≤ MAX_DECOMPRESSED_BLOCK_SIZE) (shorter : payload.length < data.length)
    (encoded : codecs.zstd.compress data = .ok payload) :
    Decodes codecs dictBaseline data (.zstd, payload) := by
  refine ⟨shorter, ?_⟩
  rw [decompressChunkWithBaseline, if_neg (not_lt.mpr bounded)]
  exact inverts.decompress_compress bounded encoded

/-- The zstd frame of a converted executable decodes to the data. -/
theorem decodes_bcj (inverts : codecs.zstd.Inverts) {data transformed payload : Bytes}
    (bounded : data.length ≤ MAX_DECOMPRESSED_BLOCK_SIZE) (shorter : payload.length < data.length)
    (executable : Bcj.encodeX86 data = some transformed)
    (encoded : codecs.zstd.compress transformed = .ok payload) :
    Decodes codecs dictBaseline data (.bcjZstd, payload) := by
  have length := Bcj.length_encodeX86 executable
  refine ⟨shorter, ?_⟩
  rw [decompressChunkWithBaseline, if_neg (not_lt.mpr bounded)]
  have decompressed := inverts.decompress_compress (length.trans_le bounded) encoded
  rw [length] at decompressed
  simp only [decompressed, Result.ok_bind, Bcj.decodeX86_encodeX86 executable]

/-- The zero-run stage of the block-sorting route. -/
theorem rle_roundTrip {mtfData encodeData : Bytes} {flags : UInt8}
    (short : mtfData.length < 2 ^ 32)
    (coded : codeRuns mtfData = (encodeData, flags)) :
    ((flags = 1 ∧ rleDecode encodeData mtfData.length = .ok mtfData) ∨
      (flags = 2 ∧ rleDecodeEscaped encodeData mtfData.length = .ok mtfData)) ∧
      encodeData.length ≤ 2 * mtfData.length := by
  rw [codeRuns, rleEncode] at coded
  split at coded
  · rename_i rle standard
    split at standard
    · cases standard
    · rename_i absent
      obtain rfl := Option.some.inj standard
      obtain ⟨rfl, rfl⟩ := Prod.mk.inj coded
      refine ⟨.inl ⟨rfl, decodeRunsExact_encodeRuns .standard ?_ short⟩, ?_⟩
      · intro value member _ rank
        apply absent
        rw [← rank]
        exact List.contains_iff_mem.mpr member
      · exact (length_encodeRuns_le .standard 0 mtfData).trans_eq (Nat.zero_add _)
  · obtain ⟨rfl, rfl⟩ := Prod.mk.inj coded
    refine ⟨.inr ⟨rfl, decodeRunsExact_encodeRuns .escaped ?_ short⟩, ?_⟩
    · intro value _ standard
      cases standard
    · exact (length_encodeRuns_le .escaped 0 mtfData).trans_eq (Nat.zero_add _)

/-- A written 32-bit field reads back. -/
theorem littleEndian_field {value : Nat} (fits : value < 2 ^ 32) (rest : Bytes) :
    Numeral.littleEndian ((Numeral.toLittleEndian 4 value ++ rest).take 4) = value := by
  rw [List.take_left' (Numeral.length_toLittleEndian 4 value),
    Numeral.littleEndian_toLittleEndian]
  exact Nat.mod_eq_of_lt (lt_of_lt_of_eq fits (by norm_num))

/-- Decoding a payload of the block-sorting route undoes its stages in turn. -/
theorem decompressBwt_payload {flags : UInt8} {primaryIndex : Nat}
    {encodeData rcBytes mtfData data : Bytes} (indexFits : primaryIndex < 2 ^ 32)
    (streamFits : encodeData.length ≤ MAX_DECOMPRESSED_BLOCK_SIZE)
    (decoded : (Rans.decodeBlock rcBytes encodeData.length
      (codingPredictor codecs dictBaseline)).1 = .ok encodeData)
    (runs : (flags = 1 ∧ rleDecode encodeData data.length = .ok mtfData) ∨
      (flags = 2 ∧ rleDecodeEscaped encodeData data.length = .ok mtfData))
    (sorted : bwtMtfDecodeParts primaryIndex mtfData data.length = .ok data) :
    decompressBwt codecs (flags :: (Numeral.toLittleEndian 4 primaryIndex ++
      Numeral.toLittleEndian 4 encodeData.length ++ rcBytes)) data.length dictBaseline =
        .ok data := by
  have lengthFits : encodeData.length < 2 ^ 32 := lt_of_le_of_lt streamFits (by decide)
  have indexWidth : (Numeral.toLittleEndian 4 primaryIndex).length = 4 :=
    Numeral.length_toLittleEndian 4 primaryIndex
  have lengthWidth : (Numeral.toLittleEndian 4 encodeData.length).length = 4 :=
    Numeral.length_toLittleEndian 4 encodeData.length
  have long : ¬(flags :: (Numeral.toLittleEndian 4 primaryIndex ++
      (Numeral.toLittleEndian 4 encodeData.length ++ rcBytes))).length < 9 := by
    simp only [List.length_cons, List.length_append, indexWidth, lengthWidth]
    omega
  have valid : ¬flags > 2 := by
    rcases runs with ⟨rfl, -⟩ | ⟨rfl, -⟩ <;> decide
  have body : (Numeral.toLittleEndian 4 primaryIndex ++
      (Numeral.toLittleEndian 4 encodeData.length ++ rcBytes)).drop 8 = rcBytes := by
    rw [show 8 = 4 + 4 by rfl, ← List.drop_drop, List.drop_left' indexWidth,
      List.drop_left' lengthWidth]
  rw [decompressBwt, List.append_assoc]
  simp only [long, valid, ↓reduceIte, littleEndian_field indexFits, List.drop_left' indexWidth,
    littleEndian_field lengthFits, not_lt.mpr streamFits, body, decoded, Result.ok_bind]
  rcases runs with ⟨rfl, runs⟩ | ⟨rfl, runs⟩
  · rw [if_neg (by decide), if_pos rfl, runs, Result.ok_bind, sorted]
  · rw [if_pos rfl, runs, Result.ok_bind, sorted]

/-- Decoding a payload with an intermediate stream undoes both stages. -/
theorem decompressIntermediate_payload {label limitLabel : String}
    {decode : Bytes → Nat → Result Bytes} {stream rcBytes data : Bytes}
    (streamFits : stream.length ≤ MAX_DECOMPRESSED_BLOCK_SIZE)
    (decoded : (Rans.decodeBlock rcBytes stream.length
      (codingPredictor codecs dictBaseline)).1 = .ok stream)
    (inner : decode stream data.length = .ok data) :
    decompressIntermediate codecs label limitLabel decode
      (Numeral.toLittleEndian 4 stream.length ++ rcBytes) data.length dictBaseline =
        .ok data := by
  have lengthFits : stream.length < 2 ^ 32 := lt_of_le_of_lt streamFits (by decide)
  have width : (Numeral.toLittleEndian 4 stream.length).length = 4 :=
    Numeral.length_toLittleEndian 4 stream.length
  have long : ¬(Numeral.toLittleEndian 4 stream.length ++ rcBytes).length < 4 := by
    rw [List.length_append]
    omega
  simp only [decompressIntermediate, long, ↓reduceIte, littleEndian_field lengthFits, gt_iff_lt,
    not_lt.mpr streamFits, List.drop_left' width, decoded, Result.ok_bind, inner]

/-! ## Trials -/

/-- The numeric trials keep what decodes. -/
theorem sustained_numericTrials {data : Bytes}
    (bounded : data.length ≤ MAX_DECOMPRESSED_BLOCK_SIZE) :
    Sustained codecs dictBaseline data (numericTrials codecs data) := by
  rw [numericTrials]
  split
  · split
    · rename_i payload encoded
      split
      · exact sustained_some (decodes_byteplane bounded encoded)
      · exact sustained_none data
    · exact sustained_none data
  · refine List.foldlRecOn _ _ (sustained_none data) fun best sustained width _ => ?_
    split
    · split
      · rename_i payload encoded
        exact sustained_keep sustained fun _ => decodes_byteplane bounded encoded
      · exact sustained
    · exact sustained

/-- The sorting trial keeps what decodes. -/
theorem sustained_bwtTrial (sound : Sound codecs dictBaseline) {data : Bytes}
    (bounded : data.length ≤ Chunker.MAX_CHUNK_SIZE) (nonempty : data ≠ [])
    {scratch : NeuralSsmPredictor codecs.arith}
    (reached : Reachable (codingPredictor codecs dictBaseline) scratch) :
    Sustained codecs dictBaseline data (bwtTrial codecs data scratch).1 ∧
      Reachable (codingPredictor codecs dictBaseline) (bwtTrial codecs data scratch).2 := by
  have limit : Chunker.MAX_CHUNK_SIZE = 8388608 := rfl
  rw [bwtTrial]
  split
  · exact ⟨sustained_none data, reached⟩
  rename_i primaryIndex mtfData transformed
  obtain ⟨length, index, sorted⟩ := bwtMtfDecodeParts_encodeParts sound.sorts
    (block_of_chunk bounded) transformed
  obtain ⟨⟨encodeData, flags⟩, coded⟩ : ∃ stage, codeRuns mtfData = stage := ⟨_, rfl⟩
  obtain ⟨runs, short⟩ := rle_roundTrip (by omega) coded
  rw [length] at runs short
  have streamFits : encodeData.length ≤ MAX_DECOMPRESSED_BLOCK_SIZE :=
    short.trans ((Nat.mul_le_mul_left 2 bounded).trans (by decide))
  have next := Rans.encodeBlock_reachable encodeData reached
  simp only [coded]
  split
  · rename_i error after failed
    rw [failed] at next
    exact ⟨sustained_none data, next⟩
  · rename_i rcBytes after encoded
    rw [encoded] at next
    refine ⟨?_, next⟩
    dsimp only
    split
    · rename_i shorter
      refine sustained_some ⟨shorter, ?_⟩
      rw [decompressChunkWithBaseline, if_neg (not_lt.mpr (block_of_chunk bounded))]
      exact decompressBwt_payload ((index nonempty).trans (by omega)) streamFits
        (decodeBlock_scratch sound.contract reached streamFits (congrArg Prod.fst encoded)) runs
        sorted
    · exact sustained_none data

/-- The dictionary trial keeps what decodes. -/
theorem sustained_lz77Trial (sound : Sound codecs dictBaseline) {data : Bytes}
    (bounded : data.length ≤ MAX_DECOMPRESSED_BLOCK_SIZE) {best : Best}
    (sustained : Sustained codecs dictBaseline data best)
    {scratch : NeuralSsmPredictor codecs.arith}
    (reached : Reachable (codingPredictor codecs dictBaseline) scratch) :
    Sustained codecs dictBaseline data (lz77Trial codecs data best scratch).1 ∧
      Reachable (codingPredictor codecs dictBaseline) (lz77Trial codecs data best scratch).2 := by
  rw [lz77Trial]
  split
  · exact ⟨sustained, reached⟩
  rename_i lzBytes found
  obtain ⟨inner, shrinks⟩ := lz77Decode_lz77Encode found
  have streamFits : lzBytes.length ≤ MAX_DECOMPRESSED_BLOCK_SIZE := shrinks.le.trans bounded
  have next := Rans.encodeBlock_reachable lzBytes reached
  split
  · rename_i error after failed
    rw [failed] at next
    exact ⟨sustained, next⟩
  · rename_i rcBytes after encoded
    rw [encoded] at next
    refine ⟨sustained_keep sustained fun shorter => ⟨shorter, ?_⟩, next⟩
    rw [decompressChunkWithBaseline, if_neg (not_lt.mpr bounded)]
    exact decompressIntermediate_payload streamFits
      (decodeBlock_scratch sound.contract reached streamFits (congrArg Prod.fst encoded)) inner

/-- The plane trial keeps what decodes. -/
theorem sustained_byteplaneTrial {data : Bytes}
    (bounded : data.length ≤ MAX_DECOMPRESSED_BLOCK_SIZE) {best : Best}
    (sustained : Sustained codecs dictBaseline data best) :
    Sustained codecs dictBaseline data (byteplaneTrial codecs data best) := by
  rw [byteplaneTrial]
  split
  · exact sustained
  · split
    · exact sustained
    · rename_i payload encoded
      exact sustained_keep sustained fun _ => decodes_byteplane bounded encoded

/-- The plain predictor trial keeps what decodes. -/
theorem sustained_plainTrial (sound : Sound codecs dictBaseline) {data : Bytes}
    (bounded : data.length ≤ MAX_DECOMPRESSED_BLOCK_SIZE)
    {scratch : NeuralSsmPredictor codecs.arith}
    (reached : Reachable (codingPredictor codecs dictBaseline) scratch) :
    Sustained codecs dictBaseline data (plainTrial codecs data scratch) := by
  rw [plainTrial]
  split
  · exact sustained_none data
  · rename_i rcBytes encoded
    split
    · rename_i shorter
      refine sustained_some ⟨shorter, ?_⟩
      rw [decompressChunkWithBaseline, if_neg (not_lt.mpr bounded)]
      exact decodeBlock_scratch sound.contract reached bounded encoded
    · exact sustained_none data

/-- The sorting stage keeps what decodes. -/
theorem sustained_bwtStage (sound : Sound codecs dictBaseline)
    {chunk : ChunkRef codecs.arith.double}
    (bounded : chunk.data.length ≤ Chunker.MAX_CHUNK_SIZE)
    {scratch : NeuralSsmPredictor codecs.arith}
    (reached : Reachable (codingPredictor codecs dictBaseline) scratch) :
    Sustained codecs dictBaseline chunk.data (bwtStage codecs chunk scratch).1 ∧
      Reachable (codingPredictor codecs dictBaseline) (bwtStage codecs chunk scratch).2 := by
  rw [bwtStage]
  split
  · rename_i tried
    have nonempty : chunk.data ≠ [] := by
      intro empty
      rw [empty] at tried
      exact absurd tried.1 (by decide)
    exact sustained_bwtTrial sound bounded nonempty reached
  · exact ⟨sustained_none _, reached⟩

/-- The dictionary stage keeps what decodes. -/
theorem sustained_lz77Stage (sound : Sound codecs dictBaseline) {data : Bytes}
    (bounded : data.length ≤ MAX_DECOMPRESSED_BLOCK_SIZE)
    {sorted : Best × NeuralSsmPredictor codecs.arith}
    (sustained : Sustained codecs dictBaseline data sorted.1)
    (reached : Reachable (codingPredictor codecs dictBaseline) sorted.2) :
    Sustained codecs dictBaseline data (lz77Stage codecs data sorted).1 ∧
      Reachable (codingPredictor codecs dictBaseline) (lz77Stage codecs data sorted).2 := by
  rw [lz77Stage]
  split
  · exact ⟨sustained, reached⟩
  · exact sustained_lz77Trial sound bounded sustained reached

/-- Every trial leaves a candidate that decodes and a scratch predictor that can go on. -/
theorem sustained_neuralTrials (sound : Sound codecs dictBaseline)
    {chunk : ChunkRef codecs.arith.double}
    (bounded : chunk.data.length ≤ Chunker.MAX_CHUNK_SIZE) (contentType : ContentType) :
    Sustained codecs dictBaseline chunk.data
      (neuralTrials codecs chunk dictBaseline contentType) := by
  have blockBound := block_of_chunk bounded
  obtain ⟨sorted, sortedNext⟩ := sustained_bwtStage sound bounded
    (.start : Reachable (codingPredictor codecs dictBaseline) _)
  obtain ⟨matched, matchedNext⟩ := sustained_lz77Stage sound blockBound sorted sortedNext
  have split' : Sustained codecs dictBaseline chunk.data
      (byteplaneStage codecs chunk.data contentType (lz77Stage codecs chunk.data
        (bwtStage codecs chunk (codingPredictor codecs dictBaseline))).1) := by
    rw [byteplaneStage]
    split
    · exact sustained_byteplaneTrial blockBound matched
    · exact matched
  rw [neuralTrials]
  split
  · rename_i candidate kept
    rw [kept] at split'
    exact split'
  · exact sustained_plainTrial sound blockBound matchedNext

/-! ## Routes -/

/-- A candidate that decodes to the data and shrinks it, or the data as it is. -/
def Accepted (codecs : Codecs) (dictBaseline : Option Bytes) (data : Bytes)
    (candidate : Candidate) : Prop :=
  Decodes codecs dictBaseline data candidate ∨ candidate = (.store, data)

/-- What zstd or storing yields is accepted. -/
theorem accepted_tryZstdOrStore (inverts : codecs.zstd.Inverts) {data : Bytes}
    (bounded : data.length ≤ MAX_DECOMPRESSED_BLOCK_SIZE) :
    Accepted codecs dictBaseline data (tryZstdOrStore codecs data) := by
  rw [tryZstdOrStore]
  split
  · rename_i zstdBytes encoded
    split
    · rename_i shorter
      exact .inl (decodes_zstd inverts bounded shorter encoded)
    · exact .inr rfl
  · exact .inr rfl

/-- What the predictor route yields is accepted. -/
theorem accepted_predictorRoute (sound : Sound codecs dictBaseline)
    {chunk : ChunkRef codecs.arith.double}
    (bounded : chunk.data.length ≤ Chunker.MAX_CHUNK_SIZE) (contentType : ContentType) :
    Accepted codecs dictBaseline chunk.data
      (predictorRoute codecs chunk dictBaseline contentType).1 := by
  have blockBound := block_of_chunk bounded
  have numeric : Sustained codecs dictBaseline chunk.data
      (if decide (contentType = .numericData) = true then numericTrials codecs chunk.data
        else none) := by
    split
    · exact sustained_numericTrials blockBound
    · exact sustained_none _
  have neural := sustained_neuralTrials sound bounded contentType
  rw [predictorRoute]
  generalize (decide (contentType = .numericData) && Option.isSome _ || _) = skipped
  split
  · rename_i method payload kept
    refine .inl ?_
    split at kept
    · exact numeric _ kept
    · exact neural _ kept
  · exact accepted_tryZstdOrStore sound.inverts blockBound

/-- The executable candidate is sustained. -/
theorem sustained_bcjCandidate (inverts : codecs.zstd.Inverts) {data : Bytes}
    (bounded : data.length ≤ MAX_DECOMPRESSED_BLOCK_SIZE) (contentType : ContentType) :
    Sustained codecs dictBaseline data (bcjCandidate codecs data contentType) := by
  rw [bcjCandidate]
  split
  · split
    · exact sustained_none data
    · rename_i transformed executable
      split
      · exact sustained_none data
      · rename_i compressed encoded
        split
        · rename_i shorter
          exact sustained_some (decodes_bcj inverts bounded shorter executable encoded)
        · exact sustained_none data
  · exact sustained_none data

/-- What the fast route yields is accepted. -/
theorem accepted_fastRoute (inverts : codecs.zstd.Inverts) {data : Bytes}
    (bounded : data.length ≤ MAX_DECOMPRESSED_BLOCK_SIZE) {contentType : ContentType}
    {candidate : Candidate} (success : fastRoute codecs data contentType = .ok candidate) :
    Accepted codecs dictBaseline data candidate := by
  rw [fastRoute] at success
  obtain ⟨zstd, encoded, success⟩ := Result.bind_eq_ok.mp success
  have first : Accepted codecs dictBaseline data
      (if zstd.length < data.length then (.zstd, zstd) else (.store, data)) := by
    split
    · rename_i shorter
      exact .inl (decodes_zstd inverts bounded shorter encoded)
    · exact .inr rfl
  generalize (if zstd.length < data.length then (CompressionMethod.zstd, zstd)
    else (.store, data)) = best at first success
  have longest : best.2.length ≤ data.length := by
    rcases first with decodes | rfl
    · exact decodes.shorter.le
    · exact le_rfl
  dsimp only at success
  split at success
  · split at success
    · cases success
      exact first
    · rename_i transformed executable
      obtain ⟨compressed, transformedEncoded, success⟩ := Result.bind_eq_ok.mp success
      cases success
      split
      · rename_i shorter
        exact .inl (decodes_bcj inverts bounded (shorter.trans_le longest) executable
          transformedEncoded)
      · exact first
  · cases success
    exact first

/-- **Whatever route is taken, its candidate is accepted.** -/
theorem accepted_methodRoute (sound : Sound codecs dictBaseline)
    {chunk : ChunkRef codecs.arith.double}
    (bounded : chunk.data.length ≤ Chunker.MAX_CHUNK_SIZE) {contentType : ContentType}
    {candidate : Candidate × Bool}
    (success : methodRoute codecs chunk dictBaseline contentType = .ok candidate) :
    Accepted codecs dictBaseline chunk.data candidate.1 := by
  rw [methodRoute] at success
  split at success
  · cases success
    exact accepted_predictorRoute sound bounded contentType
  · obtain ⟨compressed, encoded, success⟩ := Result.bind_eq_ok.mp success
    cases success
    dsimp only
    split
    · exact .inr rfl
    · rename_i shorter
      exact .inl (decodes_zstd sound.inverts (block_of_chunk bounded) (not_le.mp shorter) encoded)
  · cases success
    exact .inr rfl

/-- Whatever the chunk compresses to is accepted. -/
theorem accepted_compressChunk (sound : Sound codecs dictBaseline)
    {chunk : ChunkRef codecs.arith.double}
    (bounded : chunk.data.length ≤ Chunker.MAX_CHUNK_SIZE) {contentType : ContentType}
    {profile : CompressionProfile} {compressed : CompressedChunk}
    (success : compressChunkWithBaseline codecs chunk dictBaseline contentType profile =
      .ok compressed) :
    Accepted codecs dictBaseline chunk.data (compressed.method, compressed.data) := by
  rw [compressChunkWithBaseline] at success
  split at success
  · obtain ⟨best, routed, success⟩ := Result.bind_eq_ok.mp success
    cases success
    exact accepted_fastRoute sound.inverts (block_of_chunk bounded) routed
  · obtain ⟨⟨best, synced⟩, routed, success⟩ := Result.bind_eq_ok.mp success
    have first := accepted_methodRoute sound bounded routed
    have executable : Sustained codecs dictBaseline chunk.data
        (bcjCandidate codecs chunk.data contentType) :=
      sustained_bcjCandidate sound.inverts (block_of_chunk bounded) contentType
    dsimp only at success
    split at success
    · rename_i candidate found
      cases success
      split
      · exact .inl (executable candidate found)
      · exact first
    · cases success
      exact first

/-- What is accepted decodes to the data, and only stored data is not shortened. -/
theorem Accepted.decodes {data : Bytes} (bounded : data.length ≤ MAX_DECOMPRESSED_BLOCK_SIZE)
    {candidate : Candidate} (accepted : Accepted codecs dictBaseline data candidate) :
    decompressChunkWithBaseline codecs candidate.2 candidate.1 data.length dictBaseline =
        .ok data ∧
      candidate.2.length ≤ data.length ∧
      (candidate.2.length = data.length → candidate.1 = .store) := by
  rcases accepted with decodes | rfl
  · exact ⟨decodes.decodes, decodes.shorter.le, fun same => absurd same decodes.shorter.ne⟩
  · refine ⟨?_, le_rfl, fun _ => rfl⟩
    rw [decompressChunkWithBaseline, if_neg (not_lt.mpr bounded)]
    simp only [ne_eq, not_true_eq_false, ↓reduceIte]

/-- **Router round trip.** A chunk compressed by any outcome of the routing tests
decompresses to itself, and only a stored one is not shorter than the chunk. -/
theorem router_roundTrip (codecs : Codecs) (dictBaseline : Option Bytes)
    (sound : Sound codecs dictBaseline) (chunk : ChunkRef codecs.arith.double)
    (bounded : chunk.length ≤ Chunker.MAX_CHUNK_SIZE) (contentType : ContentType)
    (profile : CompressionProfile) (compressed : CompressedChunk)
    (success : compressChunkWithBaseline codecs chunk dictBaseline contentType profile =
      .ok compressed) :
    decompressChunkWithBaseline codecs compressed.data compressed.method chunk.length
        dictBaseline = .ok chunk.data ∧
      compressed.data.length ≤ chunk.length ∧
      (compressed.data.length = chunk.length → compressed.method = .store) := by
  rw [chunk.length_eq] at bounded ⊢
  exact (accepted_compressChunk sound bounded success).decodes (block_of_chunk bounded)

/-- Codecs that meet the assumptions: exact arithmetic, raw frames, and suffixes sorted by
comparing them. -/
def referenceCodecs : Codecs where
  arith := .exact
    { exp := fun _ => 1, ln := fun _ => 0, log2 := fun _ => 0, ofBits := fun bits => bits
      toBits := fun _ => 0, sigmoid := fun _ => 1 / 2 }
  zstd := Zstd.rawFrames
  libsais := fun text => some (sortSuffixes text)
  decompressSizePrepended := fun _ => .error "not an LZ4 block"

/-- The reference codecs are sound. -/
theorem referenceCodecs_sound : Sound referenceCodecs none where
  inverts := Zstd.rawFrames_inverts
  sorts := sortSuffixes_sorts
  contract := NeuralSsmPredictor.contract NeuralSsmPredictor.new_wellFormed

/-- A short text, too short for block sorting. -/
def shortChunk : ChunkRef referenceCodecs.arith.double where
  data := [0, 1, 0, 1, 0, 0, 0]
  length := 7
  length_eq := rfl
  blake3Hash := ⟨List.replicate 32 0, FixedBytes.length_zeros⟩
  entropy := (0 : ℚ)

/-- What is left of it after every trial: six bytes of the range coder. -/
def shortCompressed : CompressedChunk where
  method := .predictorRans
  data := [0, 16, 247, 47, 55, 0]
  originalSize := 7
  blake3Hash := ⟨List.replicate 32 0, FixedBytes.length_zeros⟩
  predictorSynced := true

/-- A chunk that the predictor shrinks comes back. -/
theorem router_roundTrip_short :
    compressChunkWithBaseline referenceCodecs shortChunk none .text .archival =
        .ok shortCompressed ∧
      decompressChunkWithBaseline referenceCodecs [0, 16, 247, 47, 55, 0] .predictorRans 7 none =
        .ok [0, 1, 0, 1, 0, 0, 0] ∧
      6 ≤ 7 ∧ (6 = 7 → CompressionMethod.predictorRans = .store) := by
  have compresses : compressChunkWithBaseline referenceCodecs shortChunk none .text .archival =
      .ok shortCompressed := by decide +kernel
  exact ⟨compresses, router_roundTrip referenceCodecs none referenceCodecs_sound shortChunk
    (by decide) .text .archival shortCompressed compresses⟩

end Router

end AetherArch
