import AetherArch.Library.Pointwise
import AetherArch.Pipeline.ExtractionTree
import AetherArch.Pipeline.PlainArchive

/-! # One file and all files

Extracting one file looks its path up from the front of the file table, while extracting all files
leaves what the last entry for the same place holds.
-/

namespace AetherArch

open FileTrees

/-- The entry that the extraction of one file looks up. -/
def firstEntry (entries : List FileEntry) (path : String) : Option FileEntry :=
  entries.find? fun entry => entry.path = path

/-- The entry whose file is written last at the place of a path. -/
def lastEntry (entries : List FileEntry) (path : String) : Option FileEntry :=
  entries.reverse.find? fun entry => location entry.path = location path

/-- Whether files that differ have digests that differ. -/
def CollisionFree (hashing : Hashing) (files : List ExtractedFile) : Prop :=
  ∀ first ∈ files, ∀ second ∈ files,
    hashing.blake3 first.data = hashing.blake3 second.data → first.data = second.data

/-- The first of related values that satisfies related conditions. -/
theorem find?_related {α β : Type} {relation : α → β → Prop} {firsts : List α} {seconds : List β}
    {p : α → Bool} {q : β → Bool} (related : List.Forall₂ relation firsts seconds)
    (same : ∀ first second, relation first second → p first = q second) :
    Option.Rel relation (firsts.find? p) (seconds.find? q) := by
  induction related with
  | nil => exact .none
  | cons here later recurse =>
      rename_i first second firsts seconds
      rw [List.find?_cons, List.find?_cons, same first second here]
      split
      · exact .some here
      · exact recurse

section

variable {hashing : Hashing} {decoded : List Bytes} {entries : List FileEntry}
variable {files : List ExtractedFile}

theorem extracted_path {entry : FileEntry} {file : ExtractedFile}
    (accepted : extracted hashing decoded entry = some file) : file.path = entry.path := by
  obtain ⟨-, data, -, rfl⟩ := extracted_eq_some.mp accepted
  rfl

theorem extracted_digest {entry : FileEntry} {file : ExtractedFile}
    (accepted : extracted hashing decoded entry = some file) :
    hashing.blake3 file.data = entry.blake3Hash := by
  obtain ⟨-, data, intact, rfl⟩ := extracted_eq_some.mp accepted
  exact (intactContent_eq_some.mp intact).2

theorem find?_of_mem {α : Type} {values : List α} {p : α → Bool} {value : α}
    (member : value ∈ values) (holds : p value = true) :
    ∃ first, values.find? p = some first :=
  Option.isSome_iff_exists.mp (List.find?_isSome.mpr ⟨value, member, holds⟩)

/-- Every path of the table has a first entry and a last one. -/
theorem firstEntry_of_mem {entry : FileEntry} (member : entry ∈ entries) :
    ∃ first, firstEntry entries entry.path = some first :=
  find?_of_mem member (decide_eq_true rfl)

theorem lastEntry_of_mem {entry : FileEntry} (member : entry ∈ entries) :
    ∃ last, lastEntry entries entry.path = some last :=
  find?_of_mem (List.mem_reverse.mpr member) (decide_eq_true rfl)

/-- **What is left at a place is the file of the last entry for it.** -/
theorem find?_of_lastEntry {tree : Extracted} {path : String} {last : FileEntry}
    (written : entries.mapM (extracted hashing decoded) = some files)
    (stored : FileTree.empty.storeAll (files.map placed) = some tree)
    (latest : lastEntry entries path = some last) :
    ∃ file ∈ files, extracted hashing decoded last = some file ∧
      tree.find? (location path) = some file := by
  have related := List.rel_reverse (mapM_eq_some.mp written)
  have found := find?_related (p := fun entry => location entry.path = location path)
    (q := fun file => location file.path = location path) related fun entry file accepted => by
      rw [extracted_path accepted]
  rw [lastEntry] at latest
  rw [latest] at found
  generalize same : files.reverse.find? _ = search at found
  cases found with
  | some accepted =>
      rename_i file
      refine ⟨file, List.mem_reverse.mp (List.mem_of_find?_eq_some same), accepted, ?_⟩
      rw [FileTree.find?_storeAll stored, ← List.map_reverse, List.find?_map]
      have placedFind : files.reverse.find?
          ((fun entry => decide (entry.1 = location path)) ∘ placed) = some file := same
      rw [placedFind]
      rfl

end

namespace Decompressor

variable {σ : Type} [ProbabilityPredictor σ] {ext : Externals} {self : Decompressor σ}
variable {disk : Disk} {archive : Bytes} {metadata : ArchiveMetadata}

/-- The blocks of one file alone decode when all blocks do. -/
theorem Extraction.file {key : Option DecryptKey} {baseline : Option Bytes} {decoded : List Bytes}
    (extraction : self.Extraction ext archive metadata key baseline decoded) {filePath : String}
    {entry : FileEntry} (found : firstEntry metadata.fileEntries filePath = some entry)
    {blocks : List Bytes} (range : chunkRange entry decoded = some blocks) :
    self.FileExtraction ext archive filePath metadata entry key baseline blocks := by
  have slice : blocks = (decoded.drop entry.chunkStartIdx.toNat).take entry.chunkCount.toNat ∧
      blocks.length = entry.chunkCount.toNat := by
    rw [chunkRange] at range
    split at range
    · rename_i empty
      cases range
      rw [empty]
      exact ⟨List.take_zero.symm, rfl⟩
    · split at range
      · rename_i inside
        cases range
        rw [List.length_take, List.length_drop]
        exact ⟨rfl, min_eq_left (Nat.le_sub_of_add_le' inside)⟩
      · cases range
  obtain ⟨rfl, complete⟩ := slice
  exact
    { read := extraction.read
      unlocked := extraction.unlocked
      found := found
      decodes := decodeAll_take (decodeAll_drop extraction.decodes _) _
      decompressed := (totalSize_slice_le ..).trans extraction.decompressed
      complete := complete }

/-- **After a whole extraction, the extraction of one file gives the file of its first entry.** -/
theorem extractFile_of_firstEntry {key : Option DecryptKey} {baseline : Option Bytes}
    {decoded : List Bytes}
    (extraction : self.Extraction ext archive metadata key baseline decoded) {filePath : String}
    {entry : FileEntry} (found : firstEntry metadata.fileEntries filePath = some entry)
    {file : ExtractedFile} (accepted : extracted ext.toHashing decoded entry = some file) :
    self.extractFile ext archive filePath = .ok file.data := by
  obtain ⟨-, data, intact, rfl⟩ := extracted_eq_some.mp accepted
  obtain ⟨content, hash⟩ := intactContent_eq_some.mp intact
  obtain ⟨blocks, range, rfl⟩ := Option.map_eq_some_iff.mp content
  exact extractFile_eq_ok.mpr
    ⟨metadata, entry, key, baseline, blocks, extraction.file found range, rfl, hash⟩

/-- **Extracting one file agrees with extracting all** exactly when, for every path of the table,
the first entry with the path and the last entry for the same place record the same digest. -/
theorem extractFile_agrees_iff (read : readMetadata ext archive = .ok metadata) {tree : Extracted}
    (extracts : self.extractAllTo ext disk archive = .ok tree)
    (collisionFree : ∀ files, self.extractAll ext archive = .ok files →
      CollisionFree ext.toHashing files) :
    (∀ entry ∈ metadata.fileEntries, ∃ data, self.extractFile ext archive entry.path = .ok data ∧
      (tree.find? (location entry.path)).map ExtractedFile.data = some data) ↔
      ∀ entry ∈ metadata.fileEntries,
        (firstEntry metadata.fileEntries entry.path).map FileEntry.blake3Hash =
          (lastEntry metadata.fileEntries entry.path).map FileEntry.blake3Hash := by
  obtain ⟨files, all, -, stored⟩ := extractAllTo_eq_ok.mp extracts
  have distinguishes := collisionFree files all
  obtain ⟨readAgain, key, baseline, decoded, extraction, written⟩ := extractAll_eq_ok.mp all
  have sameMetadata : readAgain = metadata :=
    Except.ok.inj ((readMetadata_eq_ok.mpr extraction.read).symm.trans read)
  subst sameMetadata
  refine forall₂_congr fun entry member => ?_
  obtain ⟨first, earliest⟩ := firstEntry_of_mem member
  obtain ⟨last, latest⟩ := lastEntry_of_mem member
  obtain ⟨left, leftMember, leftAccepted, leftFound⟩ := find?_of_lastEntry written stored latest
  obtain ⟨taken, takenMember, takenAccepted⟩ :=
    (mapM_eq_some.mp written).exists_right (List.mem_of_find?_eq_some earliest)
  have single := extractFile_of_firstEntry extraction earliest takenAccepted
  rw [single, leftFound, earliest, latest, Option.map_some, Option.map_some, Option.map_some,
    Option.some.injEq, ← extracted_digest takenAccepted, ← extracted_digest leftAccepted]
  constructor
  · rintro ⟨data, same, leftSame⟩
    rw [Except.ok.inj same, Option.some.inj leftSame]
  · intro sameDigest
    have same := distinguishes taken takenMember left leftMember sameDigest
    exact ⟨taken.data, rfl, congrArg some same.symm⟩

end Decompressor

/-! ## Repeated paths -/

section

open Decompressor PlainArchive

/-- A disk with room everywhere. -/
def roomyDisk : Disk where
  outputDir := "/out"
  create _ := .ok ()

/-- Extracting an archive of separate files leaves every last one. -/
theorem separate_extractAllTo {files : List (String × Bytes)} (separable : Separable files)
    {tree : Extracted}
    (stored : FileTree.empty.storeAll ((files.map plainFile).map placed) = some tree)
    (inside : ∀ file ∈ files.map plainFile, location file.path ≠ []) :
    (singleThreaded Order0Model.new).extractAllTo referenceExternals roomyDisk
      (separateArchive files) = .ok tree :=
  extractAllTo_eq_ok.mpr ⟨_, separable.extractAll_eq referenceExternals Order0Model.new,
    fun file member => ⟨inside file member, rfl⟩, stored⟩

theorem validateExtractionPath_b : validateExtractionPath "b" = .ok () := by decide

/-- Two files with different paths. -/
theorem separable_two : Separable [("a", [1]), ("b", [2])] where
  few := by decide
  valid file member := by
    rcases List.mem_pair.mp member with rfl | rfl
    · exact validateExtractionPath_a
    · exact validateExtractionPath_b
  small := by decide

/-- Two files with one path. -/
theorem separable_repeated : Separable [("a", [1]), ("a", [2])] where
  few := by decide
  valid file member := by
    rcases List.mem_pair.mp member with rfl | rfl
    · exact validateExtractionPath_a
    · exact validateExtractionPath_a
  small := by decide

/-- Files at different places are extracted alone as they are together. -/
theorem extractFile_agrees_iff_distinct : ∃ metadata tree,
    readMetadata referenceExternals (separateArchive [("a", [1]), ("b", [2])]) = .ok metadata ∧
    (singleThreaded Order0Model.new).extractAllTo referenceExternals roomyDisk
      (separateArchive [("a", [1]), ("b", [2])]) = .ok tree ∧
    ((∀ entry ∈ metadata.fileEntries, ∃ data,
      (singleThreaded Order0Model.new).extractFile referenceExternals
        (separateArchive [("a", [1]), ("b", [2])]) entry.path = .ok data ∧
      (tree.find? (location entry.path)).map ExtractedFile.data = some data) ↔
      ∀ entry ∈ metadata.fileEntries,
        (firstEntry metadata.fileEntries entry.path).map FileEntry.blake3Hash =
          (lastEntry metadata.fileEntries entry.path).map FileEntry.blake3Hash) := by
  have stored : (FileTree.empty.storeAll (([("a", [1]), ("b", [2])].map plainFile).map
      placed)).isSome = true := by decide
  obtain ⟨tree, stored⟩ := Option.isSome_iff_exists.mp stored
  have extracts := separate_extractAllTo separable_two stored (by decide)
  have read := separable_two.readMetadata_eq
  refine ⟨_, tree, read, extracts, extractFile_agrees_iff read extracts ?_⟩
  intro files all
  rw [separateArchive, separable_two.extractAll_eq referenceExternals] at all
  cases all
  have different : paddedDigest [1] ≠ paddedDigest [2] := by decide
  intro first firstMember second secondMember
  rcases List.mem_pair.mp firstMember with rfl | rfl
  · rcases List.mem_pair.mp secondMember with rfl | rfl
    · exact fun _ => rfl
    · exact fun same => absurd same different
  · rcases List.mem_pair.mp secondMember with rfl | rfl
    · exact fun same => absurd same.symm different
    · exact fun _ => rfl

/-- Of two files with one path, one is left and the other is extracted alone. -/
theorem extractFile_repeated : ∃ metadata tree,
    readMetadata referenceExternals (separateArchive [("a", [1]), ("a", [2])]) = .ok metadata ∧
    (singleThreaded Order0Model.new).extractAllTo referenceExternals roomyDisk
      (separateArchive [("a", [1]), ("a", [2])]) = .ok tree ∧
    (∃ entry ∈ metadata.fileEntries, entry.path = "a") ∧
    (tree.find? (location "a")).map ExtractedFile.data = some [2] ∧
    (singleThreaded Order0Model.new).extractFile referenceExternals
      (separateArchive [("a", [1]), ("a", [2])]) "a" = .ok [1] := by
  have stored : (FileTree.empty.storeAll (([("a", [1]), ("a", [2])].map plainFile).map
      placed)).isSome = true := by decide
  obtain ⟨tree, stored⟩ := Option.isSome_iff_exists.mp stored
  have extraction := separable_repeated.extraction Order0Model.new
  have written := @Separable.extracted referenceExternals.toHashing _ separable_repeated
  refine ⟨_, tree, separable_repeated.readMetadata_eq,
    separate_extractAllTo separable_repeated stored (by decide), ?_, ?_, ?_⟩
  · exact ⟨_, List.mem_cons_self .., rfl⟩
  · rw [FileTree.find?_storeAll stored]
    rfl
  · have first : extracted referenceExternals.toHashing
        (separate referenceExternals.toHashing [("a", [1]), ("a", [2])]).contents
        (plainEntry referenceExternals.toHashing "a" 1 [1] 0 1) = some (plainFile ("a", [1])) := by
      obtain _ | ⟨here, -⟩ := mapM_eq_some.mp written
      exact here
    exact extractFile_of_firstEntry extraction rfl first

end

end AetherArch
