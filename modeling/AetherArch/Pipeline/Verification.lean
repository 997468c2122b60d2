import AetherArch.Pipeline.DecompressSeekable

/-! # Verification, block by block

Reading a block and decoding it later accepts exactly what decompressing it in place
accepts, so verification gives every block the same verdict on any number of threads.
-/

namespace AetherArch

/-! ## One block -/

theorem checkBlockHash_eq_ok {hashing : Hashing} {blockId : UInt32} {contentBlake3 : Digest}
    {data : Bytes} {done : Unit} :
    checkBlockHash hashing blockId contentBlake3 data = .ok done ↔
      hashing.blake3 data = contentBlake3 := by
  rw [checkBlockHash, Result.failIf_eq_ok, not_not]

variable {ext : Externals} {archive : Bytes} {entry : BlockIndexEntry} {baseline : Option Bytes}
  {key : Option DecryptKey}

theorem decompressRawBlock_eq_ok {block : RawBlock} {data : Bytes} :
    decompressRawBlock ext block baseline = .ok data ↔
      decompressChunkWithBaseline ext.toCodecs block.payload block.compressionMethod
          block.uncompressedSize baseline = .ok data ∧
        data.length = block.uncompressedSize ∧ ext.blake3 data = block.contentBlake3 := by
  simp only [decompressRawBlock, Result.bind_eq_ok, Result.mapError_eq_ok, Result.failIf_eq_ok,
    checkBlockHash_eq_ok, Result.pure_eq_ok, not_not]
  constructor
  · rintro ⟨_, decoded, _, length, _, hash, rfl⟩
    exact ⟨decoded, length, hash⟩
  · rintro ⟨decoded, length, hash⟩
    exact ⟨data, decoded, (), length, (), hash, rfl⟩

/-- **Decompressing in place is reading first and decoding later.** -/
theorem decompressBlock_eq_ok {data : Bytes} (globalIdx : Nat) :
    decompressBlock ext archive entry baseline key = .ok data ↔
      ∃ block, readRawBlock ext archive globalIdx entry key = .ok block ∧
        decompressRawBlock ext block baseline = .ok data := by
  simp only [decompressRawBlock_eq_ok, decompressBlock, readRawBlock, Result.bind_eq_ok,
    Result.mapError_eq_ok, Result.failIf_eq_ok, checkBlockHash_eq_ok, Result.pure_eq_ok, not_not]
  constructor
  · rintro ⟨header, headerRead, _, valid, payload, payloadRead, trailer, trailerRead, plain,
      decrypted, _, decoded, _, length, _, hash, rfl⟩
    exact ⟨_, ⟨header, headerRead, (), valid, payload, payloadRead, trailer, trailerRead, plain,
      decrypted, rfl⟩, decoded, length, hash⟩
  · rintro ⟨_, ⟨header, headerRead, _, valid, payload, payloadRead, trailer, trailerRead, plain,
      decrypted, rfl⟩, decoded, length, hash⟩
    exact ⟨header, headerRead, (), valid, payload, payloadRead, trailer, trailerRead, plain,
      decrypted, data, decoded, (), length, (), hash, rfl⟩

/-! ## All blocks -/

theorem isOk_eq_isSome {α : Type} (result : Result α) : result.isOk = result.toOption.isSome := by
  cases result <;> rfl

theorem toOption_eq_some {α : Type} {result : Result α} {value : α} :
    result.toOption = some value ↔ result = .ok value := by
  cases result with
  | error error =>
      constructor
      · intro success
        cases success
      · intro success
        cases success
  | ok found =>
      constructor
      · intro success
        cases success
        rfl
      · intro success
        cases success
        rfl

/-- The verdict on one index entry alone, up to the text of the error. -/
def verdict (ext : Externals) (archive : Bytes) (baseline : Option Bytes) (key : Option DecryptKey)
    (entry : BlockIndexEntry) : Option Bytes :=
  (decompressBlock ext archive entry baseline key).toOption

/-- The verdict of the leniently read block. -/
theorem toOption_lenient (globalIdx : Nat) :
    ((match (readRawBlock ext archive globalIdx entry key).mapError AetherError.display with
      | .ok block => decompressRawBlock ext block baseline
      | .error e => .error (.decompression e) : Result Bytes)).toOption =
      verdict ext archive baseline key entry := by
  apply Option.ext
  intro data
  rw [verdict, toOption_eq_some, toOption_eq_some, decompressBlock_eq_ok globalIdx]
  cases readRawBlock ext archive globalIdx entry key with
  | error error =>
      constructor
      · intro success
        cases success
      · rintro ⟨_, success, -⟩
        cases success
  | ok block =>
      constructor
      · intro success
        exact ⟨block, rfl, success⟩
      · rintro ⟨_, same, success⟩
        cases same
        exact success

namespace Decompressor

variable {σ : Type} [ProbabilityPredictor σ] {self : Decompressor σ}

omit [ProbabilityPredictor σ] in
/-- **Every thread count gives every block its own verdict.** -/
theorem verifyBlocks_verdicts {metadata : ArchiveMetadata} {decoded : List (Result Bytes)}
    (success : self.verifyBlocks ext archive metadata baseline key = .ok decoded) :
    decoded.map Except.toOption = metadata.blockIndex.map (verdict ext archive baseline key) := by
  rw [verifyBlocks] at success
  split at success
  · obtain ⟨_, -, same⟩ := Result.bind_eq_ok.mp success
    cases same
    apply List.ext_getElem?
    intro i
    rw [readRawBlocksLenient, List.map_map, List.getElem?_map, List.getElem?_mapIdx,
      List.getElem?_map]
    cases metadata.blockIndex[i]? with
    | none => rfl
    | some entry => exact congrArg some (toOption_lenient i)
  · cases success
    rw [List.map_map]
    rfl

omit [ProbabilityPredictor σ] in
theorem verifyBlocks_isOk (pools : ∀ threads, ext.threadPool threads = .ok ())
    (metadata : ArchiveMetadata) :
    ∃ decoded, self.verifyBlocks ext archive metadata baseline key = .ok decoded := by
  rw [verifyBlocks]
  split
  · have pooled : self.onPool ext "verification" = .ok () := by
      rw [onPool]
      split
      · rfl
      · rw [pools]
    rw [pooled]
    exact ⟨_, rfl⟩
  · exact ⟨_, rfl⟩

/-- The block phase reads only the verdicts. -/
theorem blockPhase_congr {metadata : ArchiveMetadata} {first second : List (Result Bytes)}
    (same : first.map Except.toOption = second.map Except.toOption) :
    blockPhase metadata first = blockPhase metadata second := by
  have verified (decoded : List (Result Bytes)) :
      decoded.countP Except.isOk = (decoded.map Except.toOption).countP Option.isSome := by
    rw [List.countP_map]
    congr 1
    funext result
    exact isOk_eq_isSome result
  have corrupted (decoded : List (Result Bytes)) :
      corruptedBlockIds metadata.blockIndex decoded =
        (metadata.blockIndex.zip (decoded.map Except.toOption)).filterMap fun (entry, outcome) =>
          if outcome.isSome then none else some entry.blockId := by
    rw [corruptedBlockIds, List.zip_map_right, List.filterMap_map]
    congr 1
    funext pair
    simp only [isOk_eq_isSome, Function.comp_apply, Prod.map_fst, Prod.map_snd, id_eq]
  rw [blockPhase, blockPhase, verified, verified, corrupted, corrupted, same]

/-- The ids the block phase reports, in the order of the index. -/
theorem corruptedBlockIds_map (blockIndex : List BlockIndexEntry)
    (decode : BlockIndexEntry → Result Bytes) :
    corruptedBlockIds blockIndex (blockIndex.map decode) =
      (blockIndex.filter fun entry => !(decode entry).isOk).map BlockIndexEntry.blockId := by
  induction blockIndex with
  | nil => rfl
  | cons entry entries recurse =>
      unfold corruptedBlockIds at recurse ⊢
      rw [List.map_cons, List.zip_cons_cons, List.filterMap_cons, recurse]
      cases outcome : (decode entry).isOk with
      | true => simp [outcome]
      | false => simp [outcome]

end Decompressor

end AetherArch
