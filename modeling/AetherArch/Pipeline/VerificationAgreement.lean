import AetherArch.Pipeline.StreamVerification
import AetherArch.Pipeline.ThreadAgreement

/-! # Verification and extraction

Verification by seeking finds an archive in order when its metadata reads, the key and the
dictionary resolve, every block decodes and every file has its digest. An extraction asks in
addition for the right dictionary, for totals within the limits and for paths that are safe.
-/

namespace AetherArch

namespace Decompressor

variable {σ : Type} [ProbabilityPredictor σ] {self : Decompressor σ} {ext : Externals}
  {archive : Bytes} {metadata : ArchiveMetadata} {key : Option DecryptKey}
  {baseline : Option Bytes} {decoded : List Bytes}

/-- An archive that verification finds in order. -/
structure Verified (ext : Externals) (decompressor : Decompressor σ) (archive : Bytes)
    (metadata : ArchiveMetadata) (key : Option DecryptKey) (baseline : Option Bytes)
    (decoded : List Bytes) : Prop where
  read : SeekableRead ext archive metadata
  derived : decompressor.decryptKeyOf ext metadata = .ok key
  resolved : decompressor.decodeBaselineFor ext metadata.dictionaryHash = .ok baseline
  decodes : decodeAll ext archive baseline key metadata.blockIndex = some decoded
  intact : ∀ entry ∈ metadata.fileEntries, ∃ data,
    intactContent ext.toHashing decoded entry = some data

/-- What an extraction asks of an archive that is in order. -/
structure Admitted (ext : Externals) (decompressor : Decompressor σ) (archive : Bytes)
    (metadata : ArchiveMetadata) (key : Option DecryptKey) (decoded : List Bytes) : Prop where
  dictionary : decompressor.validateDictionary ext metadata.dictionaryHash = .ok ()
  compressed : decompressor.compressedTotal ext archive metadata key ≤
    MAX_TOTAL_COMPRESSED_READ_SIZE
  decompressed : totalSize decoded ≤ MAX_TOTAL_DECOMPRESSED_SIZE
  paths : ∀ entry ∈ metadata.fileEntries, validateExtractionPath entry.path = .ok ()

omit [ProbabilityPredictor σ] in
/-- The block phase reports nothing when all blocks decode. -/
theorem corruptedBlockIds_eq_nil {blockIndex : List BlockIndexEntry} :
    corruptedBlockIds blockIndex (blockIndex.map fun entry =>
        decompressBlock ext archive entry baseline key) = [] ↔
      ∃ decoded, decodeAll ext archive baseline key blockIndex = some decoded := by
  rw [corruptedBlockIds_map, List.map_eq_nil_iff, List.filter_eq_nil_iff, decodeAll_isSome]
  refine forall₂_congr fun entry _ => ?_
  cases decompressBlock ext archive entry baseline key with
  | error error =>
      constructor
      · intro reported
        exact absurd rfl reported
      · rintro ⟨_, success⟩
        cases success
  | ok data =>
      constructor
      · intro _
        exact ⟨data, rfl⟩
      · intro _ reported
        cases reported

/-- The file phase reports nothing when all files are intact. -/
theorem corruptedFiles_eq_nil {hashing : Hashing} {entries : List FileEntry} :
    corruptedFiles hashing entries (decoded.map some) = [] ↔
      ∀ entry ∈ entries, ∃ data, intactContent hashing decoded entry = some data := by
  rw [corruptedFiles, List.filterMap_eq_nil_iff]
  refine forall₂_congr fun entry _ => ?_
  simp only [intactContent_eq_some, ← reassembleFileFromBlocks_eq_ok]
  cases reassembleFileFromBlocks entry (decoded.map some) with
  | error error => simp
  | ok data => simp

theorem map_verdict_of_decodeAll {entries : List BlockIndexEntry}
    (decodes : decodeAll ext archive baseline key entries = some decoded) :
    entries.map (verdict ext archive baseline key) = decoded.map some := by
  induction entries generalizing decoded with
  | nil =>
      cases decodes
      rfl
  | cons entry entries recurse =>
      obtain ⟨data, here, rest, later, rfl⟩ := decodeAll_cons_eq_some.mp decodes
      rw [List.map_cons, List.map_cons, recurse later, verdict_eq_some.mpr here]

/-- **What verification finds in order.** -/
theorem verify_isOk_iff (pools : ∀ threads, ext.threadPool threads = .ok ()) :
    (∃ report, self.verify ext archive = .ok report ∧ report.isOk = true) ↔
      ∃ metadata key baseline decoded,
        Verified ext self archive metadata key baseline decoded := by
  simp only [verify_eq pools, Result.bind_eq_ok, Result.pure_eq_ok, VerificationResult.isOk,
    List.isEmpty_iff, filePhase, blockPhase]
  constructor
  · rintro ⟨_, ⟨metadata, read, key, derived, baseline, resolved, rfl⟩, isOk⟩
    split at isOk
    · rename_i intactBlocks
      obtain ⟨decoded, decodes⟩ := corruptedBlockIds_eq_nil.mp intactBlocks
      rw [map_verdict_of_decodeAll decodes] at isOk
      exact ⟨metadata, key, baseline, decoded, readMetadata_eq_ok.mp read, derived, resolved,
        decodes, corruptedFiles_eq_nil.mp isOk⟩
    · rename_i reported
      exact absurd isOk reported
  · rintro ⟨metadata, key, baseline, decoded, read, derived, resolved, decodes, intact⟩
    refine ⟨_, ⟨metadata, readMetadata_eq_ok.mpr read, key, derived, baseline, resolved, rfl⟩, ?_⟩
    rw [if_pos (corruptedBlockIds_eq_nil.mpr ⟨decoded, decodes⟩),
      map_verdict_of_decodeAll decodes]
    exact corruptedFiles_eq_nil.mpr intact

/-- **An archive in order is extracted exactly when it is admitted.** -/
theorem Verified.extracts_iff (verified : Verified ext self archive metadata key baseline decoded)
    (pools : ∀ threads, ext.threadPool threads = .ok ()) :
    (∃ files, self.extractAll ext archive = .ok files) ↔
      Admitted ext self archive metadata key decoded := by
  obtain ⟨read, derived, resolved, decodes, intact⟩ := verified
  simp only [extractAll_eq_ok]
  constructor
  · rintro ⟨files, _, key', baseline', decoded', extraction, written⟩
    obtain rfl := Except.ok.inj
      ((readMetadata_eq_ok.mpr read).symm.trans (readMetadata_eq_ok.mpr extraction.read))
    obtain rfl := Except.ok.inj (derived.symm.trans extraction.unlocked.key)
    obtain rfl := Except.ok.inj (resolved.symm.trans extraction.unlocked.baseline)
    obtain rfl := Option.some.inj (decodes.symm.trans extraction.decodes)
    have accepted := mapM_isSome.mp ⟨files, written⟩
    refine ⟨extraction.unlocked.dictionary, extraction.compressed, extraction.decompressed, ?_⟩
    intro entry member
    obtain ⟨file, success⟩ := accepted entry member
    exact (extracted_eq_some.mp success).1
  · rintro ⟨dictionary, compressed, decompressed, paths⟩
    obtain ⟨files, written⟩ := mapM_isSome.mpr fun entry member => by
      obtain ⟨data, here⟩ := intact entry member
      exact ⟨_, extracted_eq_some.mpr ⟨paths entry member, data, here, rfl⟩⟩
    exact ⟨files, metadata, key, baseline, decoded, ⟨read, ⟨dictionary, derived, resolved⟩,
      fun _ => onPool_eq_ok pools _ _, decodes, compressed, decompressed⟩, written⟩

/-- What is extracted is in order. -/
theorem verified_of_extractAll {files : List ExtractedFile}
    (success : self.extractAll ext archive = .ok files) :
    ∃ metadata key baseline decoded, Verified ext self archive metadata key baseline decoded := by
  obtain ⟨metadata, key, baseline, decoded, extraction, written⟩ := extractAll_eq_ok.mp success
  refine ⟨metadata, key, baseline, decoded, extraction.read, extraction.unlocked.key,
    extraction.unlocked.baseline, extraction.decodes, fun entry member => ?_⟩
  obtain ⟨file, accepted⟩ := mapM_isSome.mp ⟨files, written⟩ entry member
  obtain ⟨-, data, intact, -⟩ := extracted_eq_some.mp accepted
  exact ⟨data, intact⟩

/-- **Verification predicts extraction exactly when archives in order are admitted.** -/
theorem verify_predicts_iff (pools : ∀ threads, ext.threadPool threads = .ok ())
    (self : Decompressor σ) (archive : Bytes) :
    ((∃ report, self.verify ext archive = .ok report ∧ report.isOk = true) ↔
        ∃ files, self.extractAll ext archive = .ok files) ↔
      ∀ metadata key baseline decoded,
        Verified ext self archive metadata key baseline decoded →
          Admitted ext self archive metadata key decoded := by
  rw [verify_isOk_iff pools]
  constructor
  · intro predicts metadata key baseline decoded verified
    exact (verified.extracts_iff pools).mp
      (predicts.mp ⟨metadata, key, baseline, decoded, verified⟩)
  · intro admitted
    constructor
    · rintro ⟨metadata, key, baseline, decoded, verified⟩
      exact (verified.extracts_iff pools).mpr (admitted metadata key baseline decoded verified)
    · rintro ⟨files, success⟩
      exact verified_of_extractAll success

end Decompressor

namespace PlainArchive

open Decompressor

theorem acceptedPath_con : AcceptedPath "CON" := ⟨by decide, by decide⟩

/-- An archive of one empty file under a reserved name. -/
def reservedArchive : PlainArchive where
  fileEntries := [plainEntry referenceExternals.toHashing "CON" 0 [] 0 0]
  contents := []
  record := BlockIndexEntry.compressedSize

theorem reservedArchive_wellFormed : reservedArchive.WellFormed where
  files := by decide
  contents := by decide
  readable entry member := by
    rw [List.mem_singleton.mp member]
    exact acceptedPath_con.readable _ _ _ _ _
  bounded data member := by cases member

/-- A file under a reserved name is verified and not extracted. -/
theorem verify_reservedName :
    (∃ report, (singleThreaded Order0Model.new).verify referenceExternals
        (reservedArchive.bytes referenceExternals.toHashing) = .ok report ∧
      report.isOk = true) ∧
      ∀ files, (singleThreaded Order0Model.new).extractAll referenceExternals
        (reservedArchive.bytes referenceExternals.toHashing) ≠ .ok files := by
  have verified : Verified referenceExternals (singleThreaded Order0Model.new)
      (reservedArchive.bytes referenceExternals.toHashing)
      (reservedArchive.layout referenceExternals.toHashing).metadata none none [] := by
    refine ⟨@WellFormed.seekableRead _ referenceExternals reservedArchive_wellFormed, rfl, rfl,
      rfl, fun entry member => ?_⟩
    rw [List.mem_singleton.mp member]
    exact ⟨[], intactContent_eq_some.mpr ⟨rfl, rfl⟩⟩
  refine ⟨(verify_isOk_iff fun _ => rfl).mpr ⟨_, _, _, _, verified⟩, fun files success => ?_⟩
  have admitted := (verified.extracts_iff fun _ => rfl).mp ⟨files, success⟩
  have refused : validateExtractionPath "CON" ≠ .ok () := by decide
  exact refused (admitted.paths _ (List.mem_singleton.mpr rfl))

/-- A small file under a safe name is verified and extracted. -/
theorem verify_predicts_one :
    (∃ report, (singleThreaded Order0Model.new).verify referenceExternals
        ((oneFile referenceExternals.toHashing 1 [7]).bytes referenceExternals.toHashing) =
          .ok report ∧ report.isOk = true) ↔
      ∃ files, (singleThreaded Order0Model.new).extractAll referenceExternals
        ((oneFile referenceExternals.toHashing 1 [7]).bytes referenceExternals.toHashing) =
          .ok files := by
  apply (verify_predicts_iff (fun _ => rfl) _ _).mpr
  intro metadata key baseline decoded verified
  obtain ⟨extracts, -⟩ := @oneFile_extracts 1 [7] _ _ referenceExternals Order0Model.new
    (by decide) (by decide)
  exact (verified.extracts_iff fun _ => rfl).mp ⟨_, extracts⟩

end PlainArchive

end AetherArch
