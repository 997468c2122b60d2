import AetherArch.Pipeline.CollectedPaths
import AetherArch.Pipeline.RefusedTables
import AetherArch.Pipeline.ArchiveRoundTrip

/-! # What migration preserves

A migration that succeeds has written an archive of the same files, unless there were none, or the
place of one has no path that can be stored for it.
-/

namespace AetherArch

open FileTrees

/-- The places of files and their contents. -/
def treeContents (tree : Extracted) : List (List (List Char) × Bytes) :=
  tree.files.map fun entry => (entry.1, entry.2.data)

/-- The same files, but for times and permissions. -/
def SameContents (first second : Extracted) : Prop :=
  ∀ file, file ∈ treeContents first ↔ file ∈ treeContents second

/-- A place whose names make a path that leads there. -/
structure Portable (place : List (List Char)) : Prop where
  unescaped : ∀ name ∈ place, '\\' ∉ name
  valid : validateExtractionPath (joinedPath place) = .ok ()

/-! ## Extracted files -/

/-- What an extraction leaves in a temporary directory. -/
structure TempDir.Holds (tmp : TempDir) (tree : Extracted) : Prop where
  parts : ∀ entry ∈ tree.files, ∀ name ∈ entry.1, NamedPart name
  inside : ∀ entry ∈ tree.files, entry.1 ≠ []
  short : ∀ entry ∈ tree.files,
    (UnixPath.join (entry.1.map Utf8.encode)).length ≤ MAX_PATH_LENGTH
  created : ∀ entry ∈ tree.files, tmp.create entry.1 = .ok ()

/-- A location is no longer than the path it comes from. -/
theorem length_join_location (path : String) :
    (UnixPath.join ((location path).map Utf8.encode)).length ≤ (asBytes path).length := by
  have whole : asBytes path = UnixPath.join ((path.toList.splitOn '/').map Utf8.encode) := by
    rw [← encode_intercalate, List.intercalate_splitOn, asBytes_eq_encode]
  rw [whole]
  exact UnixPath.length_join_le (List.filter_sublist.map _)

section

variable {tmp : TempDir} {files : List ExtractedFile} {tree : Extracted}
  (valid : ∀ file ∈ files, validateExtractionPath file.path = .ok ())
  (takes : ∀ file ∈ files, tmp.toDisk.Takes file)
  (stored : FileTree.empty.storeAll (files.map placed) = some tree)

include stored in
/-- Whatever is in the directory was extracted there. -/
theorem exists_of_mem_extracted {entry : List (List Char) × ExtractedFile}
    (member : entry ∈ tree.files) : ∃ file ∈ files, placed file = entry := by
  rcases FileTree.mem_of_storeAll stored member with put | before
  · exact List.mem_map.mp put
  · cases before

include valid takes stored

/-- What was extracted is in the directory. -/
theorem TempDir.holds_of_extracted : tmp.Holds tree where
  parts := by
    intro entry member name part
    obtain ⟨file, among, rfl⟩ := exists_of_mem_extracted stored member
    exact namedPart_of_valid (valid file among) part
  inside := by
    intro entry member
    obtain ⟨file, among, rfl⟩ := exists_of_mem_extracted stored member
    exact (takes file among).inside
  short := by
    intro entry member
    obtain ⟨file, among, rfl⟩ := exists_of_mem_extracted stored member
    exact (length_join_location file.path).trans
      (PlainArchive.acceptedPath_of_valid (valid file among)).short
  created := by
    intro entry member
    obtain ⟨file, among, rfl⟩ := exists_of_mem_extracted stored member
    exact (takes file among).created

end

/-! ## Collected files -/

section

variable {tmp : TempDir} {tree : Extracted} {collected : List CollectedFile}

/-- No file stands for the directory itself. -/
theorem rooted_of_inside (inside : ∀ entry ∈ tree.files, entry.1 ≠ []) : tree.Rooted := by
  cases top : tree.find? [] with
  | none => exact top
  | some file => exact absurd rfl (inside _ (FileTree.find?_eq_some.mp top))

/-- Walking the directory visits every file once. -/
theorem walk_perm_files (inside : ∀ entry ∈ tree.files, entry.1 ≠ []) :
    (FileTree.walk tmp.listing tree.height [] tree).Perm tree.files := by
  have all := @FileTree.walk_perm _ _ _ _ tmp.listing _ [] (rooted_of_inside inside)
    (le_refl tree.height)
  have names : (fun entry : List (List Char) × ExtractedFile => ([] ++ entry.1, entry.2)) = id := by
    funext entry
    rw [List.nil_append]
    rfl
  rwa [names, List.map_id] at all

/-- **Every file is collected once.** -/
theorem collectFilesRecursive_perm (inside : ∀ entry ∈ tree.files, entry.1 ≠ [])
    (success : collectFilesRecursive tmp tree = .ok collected) :
    collected.Perm tree.files ∧ collected.length ≤ MAX_FILE_COUNT.toNat := by
  simp only [collectFilesRecursive, Result.bind_eq_ok, Result.pure_eq_ok] at success
  obtain ⟨walked, walks, rfl⟩ := success
  obtain ⟨rfl, few⟩ := (collectDirRecursive_eq_ok (Nat.zero_le _)).mp walks
  rw [List.nil_append] at few ⊢
  refine ⟨(List.mergeSort_perm _ _).trans (walk_perm_files inside), ?_⟩
  rwa [List.length_mergeSort]

/-- Collecting fails for too many files only. -/
theorem exists_collectFilesRecursive (inside : ∀ entry ∈ tree.files, entry.1 ≠ [])
    (few : tree.files.length ≤ MAX_FILE_COUNT.toNat) :
    ∃ collected, collectFilesRecursive tmp tree = .ok collected := by
  rw [← (@walk_perm_files tmp tree inside).length_eq] at few
  have walks := (@collectDirRecursive_eq_ok tmp tree tree.height [] [] _ (Nat.zero_le _)).mpr
    ⟨rfl, few⟩
  rw [collectFilesRecursive, walks]
  exact ⟨_, rfl⟩

/-- What a collected file is scanned to. -/
structure ScannedAs {format : FloatFormat} (file : CollectedFile) (scanned : ScannedFile format) :
    Prop where
  path : scanned.entry.path = storedPath file.1
  data : scanned.data = file.2.data

/-- Scanning the collected files records them. -/
theorem scannedAs_of_scanFiles {hashing : Hashing} {format : FloatFormat}
    {files : List (ScannedFile format)} (holds : tmp.Holds tree)
    (all : ∀ file ∈ collected, file ∈ tree.files)
    (scans : Compressor.scanFiles hashing format tmp.path (collected.map tmp.inputFile) 0 =
      .ok files) :
    List.Forall₂ ScannedAs collected files := by
  have each := List.forall₂_map_left_iff.mp (Compressor.scanFiles_spec scans).1
  have both := (List.forall₂_and_left collected files).mpr ⟨all, each⟩
  refine both.imp ?_
  rintro file scanned ⟨member, data, relPath, content, relative, rfl⟩
  rw [TempDir.inputFile, tmp.relativePath_pathOf (holds.parts file member)
    (holds.inside file member)] at relative
  refine ⟨(Except.ok.inj relative).symm, ?_⟩
  dsimp only [TempDir.inputFile] at content
  cases opened : tmp.opens file.2 with
  | error error =>
      rw [opened] at content
      cases content
  | ok _ =>
      rw [opened] at content
      exact (Except.ok.inj content).symm

end

/-! ## Archives of collected files -/

/-- A stored path is as long as its joined components. -/
theorem length_storedPath (place : List (List Char)) :
    (asBytes (storedPath place)).length = (UnixPath.join (place.map Utf8.encode)).length := by
  have letter (c : Char) : (String.utf8EncodeChar (storedLetter c)).length =
      (String.utf8EncodeChar c).length := by
    rw [storedLetter]
    split
    · rename_i backslash
      rw [backslash]
      rfl
    · rfl
  rw [← asBytes_joinedPath, asBytes_eq_encode, asBytes_eq_encode, storedPath, String.toList_ofList,
    Utf8.encode, Utf8.encode, List.flatMap_map, List.length_flatMap, List.length_flatMap]
  simp only [letter]

/-- Digests tell the contents of files apart. -/
def ToldApart (hashing : Hashing) (tree : Extracted) : Prop :=
  ∀ first ∈ tree.files, ∀ second ∈ tree.files,
    hashing.blake3 first.2.data = hashing.blake3 second.2.data → first.2.data = second.2.data

section

variable {σ : Type} [ProbabilityPredictor σ] {ext : WriterExternals} {compressor : Compressor σ}
  {decompressor : Decompressor σ} {tmp : TempDir} {tree : Extracted}
  {collected : List CollectedFile} {stats : CompressionStats} {output : Output}
  (reliable : ext.Reliable) (configured : Compressor.ConfiguredFor compressor decompressor)
  (holds : tmp.Holds tree) (perm : collected.Perm tree.files)
  (few : collected.length ≤ MAX_FILE_COUNT.toNat)
  (success : compressor.compressToArchive ext tmp.path (collected.map tmp.inputFile) =
    .ok (stats, output))

include reliable holds perm few success

include configured in
/-- **Portable files are extracted from their archive.** -/
theorem extractAll_collected (toldApart : ToldApart ext.toHashing tree)
    (portable : ∀ entry ∈ tree.files, Portable entry.1) :
    ∃ restored, decompressor.extractAll ext.toExternals output.bytes = .ok restored ∧
      List.Forall₂ (fun file found => found.path = joinedPath file.1 ∧ found.data = file.2.data)
        collected restored := by
  obtain ⟨files, scans, writes⟩ := Result.bind_eq_ok.mp success
  obtain ⟨encryption, baseline, usePathPrefixes, layout, written, owned, wrote, bytes⟩ :=
    Compressor.compressScanned_from writes
  have same := scannedAs_of_scanFiles holds (fun file member => perm.mem_iff.mp member) scans
  have valid : ∀ file ∈ files, validateExtractionPath file.entry.path = .ok () := by
    intro file member
    obtain ⟨found, among, scannedAs⟩ := same.exists_left member
    have place := portable found (perm.mem_iff.mp among)
    rw [scannedAs.path, storedPath_eq place.unescaped]
    exact place.valid
  have readable : Readable ext.toHashing files := by
    refine ⟨fun file member => PlainArchive.acceptedPath_of_valid (valid file member),
      same.length_eq ▸ few, ?_⟩
    intro first firstMember second secondMember digest
    obtain ⟨firstFound, firstAmong, firstAs⟩ := same.exists_left firstMember
    obtain ⟨secondFound, secondAmong, secondAs⟩ := same.exists_left secondMember
    rw [firstAs.data, secondAs.data] at digest ⊢
    exact toldApart _ (perm.mem_iff.mp firstAmong) _ (perm.mem_iff.mp secondAmong) digest
  refine ⟨files.map restoredFile, ?_, ?_⟩
  · rw [bytes]
    exact wrote.extractAll_eq reliable (Compressor.scanned_of_scanFiles scans) readable configured
      (bytes ▸ output.addressable) valid
  · rw [List.forall₂_map_right_iff]
    have both := (List.forall₂_and_left collected files).mpr
      ⟨fun file member => portable file (perm.mem_iff.mp member), same⟩
    refine both.imp ?_
    rintro file scanned ⟨place, scannedAs⟩
    exact ⟨scannedAs.path.trans (storedPath_eq place.unescaped), scannedAs.data⟩

/-- **Files that are extracted from their archive have its paths**, and the paths are valid. -/
theorem extracted_collected {restored : List ExtractedFile}
    (extracts : decompressor.extractAll ext.toExternals output.bytes = .ok restored) :
    List.Forall₂ (fun file found => found.path = storedPath file.1 ∧
      validateExtractionPath found.path = .ok ()) collected restored := by
  obtain ⟨files, scans, writes⟩ := Result.bind_eq_ok.mp success
  obtain ⟨encryption, baseline, usePathPrefixes, layout, written, owned, wrote, bytes⟩ :=
    Compressor.compressScanned_from writes
  have scanned := Compressor.scanned_of_scanFiles scans
  have same := scannedAs_of_scanFiles holds (fun file member => perm.mem_iff.mp member) scans
  have fewFiles : files.length ≤ MAX_FILE_COUNT.toNat := same.length_eq ▸ few
  have short : ∀ file ∈ files, (asBytes file.entry.path).length ≤ MAX_PATH_LENGTH := by
    intro file member
    obtain ⟨found, among, scannedAs⟩ := same.exists_left member
    rw [scannedAs.path, length_storedPath]
    exact holds.short found (perm.mem_iff.mp among)
  obtain ⟨metadata, key, coded, blocks, extraction, mapped⟩ :=
    Decompressor.extractAll_eq_ok.mp extracts
  -- Since the archive is read, it is read as it was written.
  have read := extraction.read
  rw [bytes] at read
  have accepted := wrote.accepted_of_read reliable.partitions reliable.bounded scanned fewFiles
    short read
  have tiled := wrote.tiled reliable.partitions reliable.bounded scanned accepted fewFiles
    (bytes ▸ output.addressable)
  have again := (readMetadata_eq_ok.mpr read).symm.trans
    (readMetadata_eq_ok.mpr tiled.seekableRead)
  obtain rfl := Except.ok.inj again
  rw [mapM_eq_some] at mapped
  rw [List.forall₂_iff_get]
  refine ⟨same.length_eq.trans (wrote.entryCount.symm.trans mapped.length_eq),
    fun i inside found => ?_⟩
  have fileInside : i < files.length := same.length_eq ▸ inside
  have entryInside : i < layout.fileEntries.length := wrote.entryCount ▸ fileInside
  have stored := (same.get inside fileInside).path
  have listed := (wrote.describes.get fileInside entryInside).same.1
  obtain ⟨valid, data, -, restores⟩ := extracted_eq_some.mp (mapped.get entryInside found)
  rw [List.get_eq_getElem] at stored valid restores
  rw [← restores]
  exact ⟨listed.trans stored, valid⟩

end

/-! ## Trees of extracted files -/

section

variable {tmp : TempDir} {tree target : Extracted} {collected : List CollectedFile}
  {restored : List ExtractedFile} (holds : tmp.Holds tree) (perm : collected.Perm tree.files)

include perm

/-- **Only portable files can make the same tree** under stored paths. -/
theorem portable_of_sameContents
    (same : List.Forall₂ (fun file found => found.path = storedPath file.1 ∧
      validateExtractionPath found.path = .ok ()) collected restored)
    (stored : FileTree.empty.storeAll (restored.map placed) = some target)
    (sameContents : SameContents tree target) : ∀ entry ∈ tree.files, Portable entry.1 := by
  intro entry member
  have unescaped : ∀ name ∈ entry.1, '\\' ∉ name := by
    have listed : (entry.1, entry.2.data) ∈ treeContents tree := List.mem_map_of_mem member
    obtain ⟨other, otherMember, same'⟩ := List.mem_map.mp ((sameContents _).mp listed)
    obtain ⟨found, among, rfl⟩ := exists_of_mem_extracted stored otherMember
    obtain ⟨file, -, path, -⟩ := same.exists_left among
    have place : location found.path = entry.1 := congrArg Prod.fst same'
    rw [← place, path]
    exact fun name => unescaped_location_storedPath
  obtain ⟨found, -, path, valid⟩ := same.exists_right (perm.mem_iff.mpr member)
  rw [path, storedPath_eq unescaped] at valid
  exact ⟨unescaped, valid⟩

include holds

/-- **Files under the paths of their places make the same tree.** -/
theorem exists_sameContents
    (same : List.Forall₂ (fun file found => found.path = joinedPath file.1 ∧
      found.data = file.2.data) collected restored) :
    (∀ file ∈ restored, tmp.toDisk.Takes file) ∧
      ∃ target, FileTree.empty.storeAll (restored.map placed) = some target ∧
        SameContents tree target := by
  have located : ∀ file ∈ collected, location (joinedPath file.1) = file.1 := by
    intro file member
    have among := perm.mem_iff.mp member
    exact location_joinedPath (holds.parts file among) (holds.inside file among)
  have both := (List.forall₂_and_left collected restored).mpr ⟨located, same⟩
  have entries : (restored.map placed).map (fun entry => (entry.1, entry.2.data)) =
      collected.map fun file => (file.1, file.2.data) := by
    rw [List.map_map]
    refine (both.map_eq_map ?_).symm
    rintro file found ⟨place, path, data⟩
    rw [Function.comp_apply, placed, path, place, data]
  have places : (restored.map placed).map Prod.fst = collected.map Prod.fst := by
    have firsts := congrArg (List.map Prod.fst) entries
    simpa only [List.map_map, Function.comp_def] using firsts
  have distinct : ((restored.map placed).map Prod.fst).Nodup :=
    places ▸ (perm.map Prod.fst).nodup_iff.mpr tree.distinct
  constructor
  · intro found member
    obtain ⟨file, among, place, path, -⟩ := both.exists_left member
    have inside := perm.mem_iff.mp among
    constructor
    · rw [path, place]
      exact holds.inside file inside
    · rw [path, place]
      exact holds.created file inside
  · have known : ∀ entry ∈ restored.map placed, ∃ file ∈ tree.files, file.1 = entry.1 := by
      intro entry member
      have first : entry.1 ∈ (restored.map placed).map Prod.fst := List.mem_map_of_mem member
      rw [places] at first
      obtain ⟨file, among, place⟩ := List.mem_map.mp first
      exact ⟨file, perm.mem_iff.mp among, place⟩
    have apart : ∀ upper ∈ restored.map placed, ∀ lower ∈ restored.map placed,
        upper.1 <+: lower.1 → upper.1 = lower.1 := by
      intro upper upperMember lower lowerMember onTheWay
      obtain ⟨upperFile, upperAmong, upperPlace⟩ := known upper upperMember
      obtain ⟨lowerFile, lowerAmong, lowerPlace⟩ := known lower lowerMember
      rw [← upperPlace, ← lowerPlace] at onTheWay ⊢
      exact tree.apart _ upperAmong _ lowerAmong onTheWay
    obtain ⟨target, stored⟩ := @FileTree.exists_storeAll _ _ _ FileTree.empty _ apart
    refine ⟨target, stored, fun file => ?_⟩
    have files : target.files = restored.map placed := FileTree.files_storeAll distinct stored
    rw [treeContents, treeContents, files, entries]
    exact ((perm.map _).mem_iff).symm

end

/-! ## Migration -/

namespace Migrator

variable {σ τ : Type} [ProbabilityPredictor σ] [ProbabilityPredictor τ] {ext : WriterExternals}
  {self : Migrator σ τ} {tmp : TempDir} {tree : Extracted} {count : Nat} {output : Output}

omit [ProbabilityPredictor σ] in
/-- **What recompressing writes**: nothing, or an archive of all files. -/
theorem recompress_spec (inside : ∀ entry ∈ tree.files, entry.1 ≠ [])
    (success : self.recompress ext tmp tree = .ok (count, output)) :
    ∃ collected : List CollectedFile, collected.Perm tree.files ∧
      collected.length ≤ MAX_FILE_COUNT.toNat ∧
      (tree.files = [] ∧ output = .empty ∨ tree.files ≠ [] ∧ ∃ stats,
        self.targetCompressor.compressToArchive ext tmp.path (collected.map tmp.inputFile) =
          .ok (stats, output)) := by
  rw [recompress, Result.bind_eq_ok] at success
  obtain ⟨collected, collects, success⟩ := success
  obtain ⟨perm, few⟩ := collectFilesRecursive_perm inside collects
  refine ⟨collected, perm, few, ?_⟩
  split at success
  · rename_i none
    cases List.isEmpty_iff.mp none
    cases success
    exact .inl ⟨perm.symm.eq_nil, rfl⟩
  · rename_i some
    simp only [Result.bind_eq_ok, Result.pure_eq_ok] at success
    obtain ⟨⟨stats, written⟩, compresses, done⟩ := success
    cases done
    refine .inr ⟨?_, stats, compresses⟩
    intro none
    rw [none] at perm
    exact some (List.isEmpty_iff.mpr perm.eq_nil)

/-- Nothing is no archive. -/
theorem extractAllTo_nil (decompressor : Decompressor τ) (disk : Disk) (target : Extracted) :
    decompressor.extractAllTo ext.toExternals disk [] ≠ .ok target := by
  intro success
  obtain ⟨_, extracts, -⟩ := Decompressor.extractAllTo_eq_ok.mp success
  obtain ⟨_, _, _, _, extraction, -⟩ := Decompressor.extractAll_eq_ok.mp extracts
  exact absurd extraction.read.footer_fits (by decide)

omit [ProbabilityPredictor σ] in
/-- **When recompressing preserves the files**: when there are any, and all are portable. -/
theorem recompress_preserves (reliable : ext.Reliable) {decompressor : Decompressor τ}
    (configured : Compressor.ConfiguredFor self.targetCompressor decompressor)
    (holds : tmp.Holds tree) (toldApart : ToldApart ext.toHashing tree)
    (success : self.recompress ext tmp tree = .ok (count, output)) :
    (∃ target, decompressor.extractAllTo ext.toExternals tmp.toDisk output.bytes = .ok target ∧
        SameContents tree target) ↔
      tree.files ≠ [] ∧ ∀ entry ∈ tree.files, Portable entry.1 := by
  obtain ⟨collected, perm, few, ⟨none, rfl⟩ | ⟨some, stats, compresses⟩⟩ :=
    recompress_spec holds.inside success
  · constructor
    · rintro ⟨target, extracts, -⟩
      exact absurd extracts (extractAllTo_nil decompressor _ target)
    · rintro ⟨some, -⟩
      exact absurd none some
  · constructor
    · rintro ⟨target, extracts, same⟩
      obtain ⟨restored, restores, -, stored⟩ := Decompressor.extractAllTo_eq_ok.mp extracts
      exact ⟨some, portable_of_sameContents perm
        (extracted_collected reliable holds perm few compresses restores) stored same⟩
    · rintro ⟨-, portable⟩
      obtain ⟨restored, restores, same⟩ :=
        extractAll_collected reliable configured holds perm few compresses toldApart portable
      obtain ⟨takes, target, stored, sameContents⟩ := exists_sameContents holds perm same
      exact ⟨target, Decompressor.extractAllTo_eq_ok.mpr ⟨restored, restores, takes, stored⟩,
        sameContents⟩

end Migrator

section

variable {hashing : Hashing} {blocks : List Bytes} {entries : List FileEntry}
  {files : List ExtractedFile} {tmp : TempDir} {tree : Extracted}
  (mapped : entries.mapM (extracted hashing blocks) = some files)

include mapped

/-- Every stored path is valid. -/
theorem valid_of_mapM : ∀ file ∈ files, validateExtractionPath file.path = .ok () := by
  intro file member
  obtain ⟨entry, -, restores⟩ := (mapM_eq_some.mp mapped).exists_left member
  obtain ⟨valid, data, -, rfl⟩ := extracted_eq_some.mp restores
  exact valid

variable (stored : FileTree.empty.storeAll (files.map placed) = some tree)

include stored

/-- The files of a directory stand where the paths of the entries lead. -/
theorem exists_mem_extracted_iff {place : List (List Char)} :
    (∃ file, (place, file) ∈ tree.files) ↔ ∃ entry ∈ entries, location entry.path = place := by
  have each := mapM_eq_some.mp mapped
  have path {entry : FileEntry} {file : ExtractedFile}
      (restores : extracted hashing blocks entry = some file) : file.path = entry.path := by
    obtain ⟨-, data, -, rfl⟩ := extracted_eq_some.mp restores
    rfl
  constructor
  · rintro ⟨file, member⟩
    obtain ⟨found, among, same⟩ := exists_of_mem_extracted stored member
    obtain ⟨entry, listed, restores⟩ := each.exists_left among
    exact ⟨entry, listed, path restores ▸ congrArg Prod.fst same⟩
  · rintro ⟨entry, listed, rfl⟩
    obtain ⟨found, among, restores⟩ := each.exists_right listed
    rw [← path restores]
    exact FileTree.exists_mem_of_storeAll stored (List.mem_map_of_mem among)

/-- Files can be stored again exactly when the entries they come from name portable places. -/
theorem portable_extracted_iff :
    (tree.files ≠ [] ∧ ∀ entry ∈ tree.files, Portable entry.1) ↔
      entries ≠ [] ∧ ∀ entry ∈ entries, Portable (location entry.path) := by
  refine and_congr (not_congr ?_) ⟨?_, ?_⟩
  · rw [List.eq_nil_iff_forall_not_mem, List.eq_nil_iff_forall_not_mem]
    constructor
    · intro none entry member
      obtain ⟨file, there⟩ := (exists_mem_extracted_iff mapped stored).mpr ⟨entry, member, rfl⟩
      exact none _ there
    · rintro none ⟨place, file⟩ member
      obtain ⟨entry, there, -⟩ := (exists_mem_extracted_iff mapped stored).mp ⟨file, member⟩
      exact none _ there
  · intro portable entry member
    obtain ⟨file, there⟩ := (exists_mem_extracted_iff mapped stored).mpr ⟨entry, member, rfl⟩
    exact portable _ there
  · rintro portable ⟨place, file⟩ member
    obtain ⟨entry, there, rfl⟩ := (exists_mem_extracted_iff mapped stored).mp ⟨file, member⟩
    exact portable entry there

end

namespace Migrator

variable {σ τ : Type} [ProbabilityPredictor σ] [ProbabilityPredictor τ]

/-- **When migration preserves the files**: when the source lists any, and all places its paths
lead to have paths that can be stored for them. -/
theorem migrate_preserves (ext : WriterExternals) (reliable : ext.Reliable)
    (migrator : Migrator σ τ) (decompressor : Decompressor τ)
    (configured : Compressor.ConfiguredFor migrator.targetCompressor decompressor) (tmp : TempDir)
    (source : Bytes) (metadata : ArchiveMetadata)
    (read : Decompressor.readMetadata ext.toExternals source = .ok metadata) (tree : Extracted)
    (extracts : migrator.sourceDecompressor.extractAllTo ext.toExternals tmp.toDisk source =
      .ok tree)
    (toldApart : ToldApart ext.toHashing tree) (count : Nat) (output : Output)
    (success : migrator.migrate ext (.ok tmp) source = .ok (count, output)) :
    (∃ target, decompressor.extractAllTo ext.toExternals tmp.toDisk output.bytes = .ok target ∧
        SameContents tree target) ↔
      metadata.fileEntries ≠ [] ∧
        ∀ entry ∈ metadata.fileEntries, Portable (location entry.path) := by
  obtain ⟨files, extracted, takes, stored⟩ := Decompressor.extractAllTo_eq_ok.mp extracts
  obtain ⟨found, key, coded, blocks, extraction, mapped⟩ :=
    Decompressor.extractAll_eq_ok.mp extracted
  obtain rfl := Except.ok.inj (read.symm.trans (readMetadata_eq_ok.mpr extraction.read))
  have recompressed : migrator.recompress ext tmp tree = .ok (count, output) := by
    rw [migrate, tempdir, Except.mapError, Result.ok_bind, extracts] at success
    exact success
  rw [recompress_preserves reliable configured
    (TempDir.holds_of_extracted (valid_of_mapM mapped) takes stored) toldApart recompressed,
    portable_extracted_iff mapped stored]

/-- A directory for temporary files on a disk that takes everything. -/
def openTempDir : TempDir where
  outputDir := "/t"
  create _ := .ok ()
  path := asBytes "/t"
  base := ⟨by decide, by decide⟩
  listing := ⟨fun _ names => names, fun _ _ => .refl _⟩
  opens _ := .ok ()
  modified _ := none
  mode _ := none

def plainMigrator : Migrator Order0Model Order0Model where
  sourceDecompressor := Decompressor.singleThreaded .new
  targetCompressor := Compressor.plain .new

/-- An archive with every file in a block of its own. -/
def sourceArchive (files : List (String × Bytes)) : Bytes :=
  (PlainArchive.separate sealingWriter.toHashing files).bytes sealingWriter.toHashing

/-- Extracting a source archive creates its files. -/
theorem extractAllTo_sourceArchive {files : List (String × Bytes)}
    (separable : PlainArchive.Separable files) {tree : Extracted}
    (takes : ∀ file ∈ files, location file.1 ≠ [])
    (stored : FileTree.empty.storeAll
      (files.map fun file => placed (PlainArchive.plainFile file)) = some tree) :
    plainMigrator.sourceDecompressor.extractAllTo sealingWriter.toExternals openTempDir.toDisk
      (sourceArchive files) = .ok tree := by
  refine Decompressor.extractAllTo_eq_ok.mpr
    ⟨_, separable.extractAll_eq sealingWriter.toExternals Order0Model.new, ?_, ?_⟩
  · intro file member
    obtain ⟨source, among, rfl⟩ := List.mem_map.mp member
    exact ⟨takes source among, rfl⟩
  · rw [List.map_map]
    exact stored

/-- **Nothing is written for an archive of no files**, and nothing is no archive. -/
theorem emptyArchive_migrated :
    plainMigrator.sourceDecompressor.extractAllTo sealingWriter.toExternals openTempDir.toDisk
        (sourceArchive []) = .ok .empty ∧
      plainMigrator.migrate sealingWriter (.ok openTempDir) (sourceArchive []) =
        .ok (0, .empty) ∧
      ∀ (decompressor : Decompressor Order0Model) (target : Extracted),
        decompressor.extractAllTo sealingWriter.toExternals openTempDir.toDisk
          Output.empty.bytes ≠ .ok target := by
  have separable : PlainArchive.Separable [] :=
    ⟨by decide, fun _ member => absurd member List.not_mem_nil, by decide⟩
  have extracts := @extractAllTo_sourceArchive [] separable .empty
    (fun _ member => absurd member List.not_mem_nil) rfl
  refine ⟨extracts, ?_, fun decompressor target => extractAllTo_nil decompressor _ target⟩
  obtain ⟨collected, collects⟩ := @exists_collectFilesRecursive openTempDir .empty
    (fun _ member => absurd member List.not_mem_nil) (Nat.zero_le _)
  obtain ⟨perm, -⟩ := collectFilesRecursive_perm
    (fun _ member => absurd member List.not_mem_nil) collects
  obtain rfl := perm.eq_nil
  rw [migrate, tempdir, Except.mapError, Result.ok_bind, extracts, Result.ok_bind, recompress,
    collects]
  rfl

/-- Two files with content, one of them in a directory. -/
def nestedFiles : List (String × Bytes) := [("a.txt", asBytes "abc"), ("d/b.txt", asBytes "ba")]

/-- The places and contents of the two files. -/
def nestedPlaced : List CollectedFile :=
  nestedFiles.map fun file => placed (PlainArchive.plainFile file)

theorem nestedFiles_separable : PlainArchive.Separable nestedFiles :=
  ⟨by decide, by decide, by decide⟩

/-- What the two files extract to. -/
theorem exists_nestedTree :
    ∃ tree : Extracted, tree.files = nestedPlaced ∧
      plainMigrator.sourceDecompressor.extractAllTo sealingWriter.toExternals openTempDir.toDisk
        (sourceArchive nestedFiles) = .ok tree ∧ openTempDir.Holds tree := by
  obtain ⟨tree, stored⟩ := @FileTree.exists_storeAll _ _ _ FileTree.empty nestedPlaced (by decide)
  have takes : ∀ file ∈ nestedFiles, location file.1 ≠ [] := by decide
  have storedAll : FileTree.empty.storeAll ((nestedFiles.map PlainArchive.plainFile).map placed) =
      some tree := by
    rw [List.map_map]
    exact stored
  refine ⟨tree, FileTree.files_storeAll (by decide) stored,
    extractAllTo_sourceArchive nestedFiles_separable takes stored,
    TempDir.holds_of_extracted (by decide) ?_ storedAll⟩
  intro file member
  obtain ⟨source, among, rfl⟩ := List.mem_map.mp member
  exact ⟨takes source among, rfl⟩

/-- **Two files in nested directories survive their migration.** -/
theorem migrate_preserves_nested :
    ∃ (tree target : Extracted) (output : Output),
      plainMigrator.sourceDecompressor.extractAllTo sealingWriter.toExternals openTempDir.toDisk
        (sourceArchive nestedFiles) = .ok tree ∧
      treeContents tree = [([['a', '.', 't', 'x', 't']], asBytes "abc"),
        ([['d'], ['b', '.', 't', 'x', 't']], asBytes "ba")] ∧
      plainMigrator.migrate sealingWriter (.ok openTempDir) (sourceArchive nestedFiles) =
        .ok (2, output) ∧
      (Decompressor.singleThreaded Order0Model.new).extractAllTo sealingWriter.toExternals
        openTempDir.toDisk output.bytes = .ok target ∧
      SameContents tree target := by
  obtain ⟨tree, files, extracts, holds⟩ := exists_nestedTree
  have contents : treeContents tree = [([['a', '.', 't', 'x', 't']], asBytes "abc"),
      ([['d'], ['b', '.', 't', 'x', 't']], asBytes "ba")] := by
    rw [treeContents, files]
    decide
  obtain ⟨collected, collects⟩ := @exists_collectFilesRecursive openTempDir tree holds.inside
    (by rw [files]; decide)
  obtain ⟨perm, -⟩ := collectFilesRecursive_perm holds.inside collects
  have count : collected.length = 2 := perm.length_eq.trans (congrArg List.length files)
  have short : List.Forall₂ (Compressor.ShortInput openTempDir.path)
      (collected.map openTempDir.inputFile) (collected.map fun file => storedPath file.1) := by
    rw [List.forall₂_map_left_iff, List.forall₂_map_right_iff, List.forall₂_same]
    intro file member
    have among := perm.mem_iff.mp member
    have allSmall : ∀ file ∈ nestedPlaced, file.2.data.length < Chunker.MIN_CHUNK_SIZE := by decide
    have small := allSmall file (files ▸ among)
    refine ⟨⟨file.2.data, rfl, small⟩,
      openTempDir.relativePath_pathOf (holds.parts file among) (holds.inside file among), ?_⟩
    rw [length_storedPath]
    exact holds.short file among
  obtain ⟨stats, output, compresses⟩ := Compressor.compressToArchive_short
    (Compressor.keyless Order0Model.new) rfl Compressor.sealingWriter_untroubled short
    (by rw [List.length_map, count]; decide)
  have migrates : plainMigrator.migrate sealingWriter (.ok openTempDir)
      (sourceArchive nestedFiles) = .ok (2, output) := by
    have some : ¬collected.isEmpty = true := by
      intro none
      rw [List.isEmpty_iff.mp none] at count
      cases count
    rw [migrate, tempdir, Except.mapError, Result.ok_bind, extracts, Result.ok_bind, recompress,
      collects, Result.ok_bind, if_neg some, ← count]
    rw [show plainMigrator.targetCompressor = Compressor.plain .new from rfl, compresses]
    rfl
  have read : Decompressor.readMetadata sealingWriter.toExternals (sourceArchive nestedFiles) =
      .ok _ := readMetadata_eq_ok.mpr (@PlainArchive.WellFormed.seekableRead _
        sealingWriter.toExternals nestedFiles_separable.wellFormed)
  have toldApart : ToldApart sealingWriter.toHashing tree := by
    rw [ToldApart, files]
    decide
  have portable : ∀ entry ∈ (PlainArchive.separate sealingWriter.toHashing nestedFiles).fileEntries,
      Portable (location entry.path) := by
    intro entry member
    obtain ⟨i, inside, rfl⟩ := List.mem_mapIdx.mp member
    have places : ∀ file ∈ nestedFiles, (∀ name ∈ location file.1, '\\' ∉ name) ∧
        validateExtractionPath (joinedPath (location file.1)) = .ok () := by decide
    obtain ⟨unescaped, valid⟩ := places _ (List.getElem_mem inside)
    exact ⟨unescaped, valid⟩
  obtain ⟨target, restores, same⟩ := (migrate_preserves sealingWriter sealingWriter_reliable
    plainMigrator (Decompressor.singleThreaded Order0Model.new) ⟨rfl, rfl, rfl⟩ openTempDir _ _ read
    tree extracts toldApart 2 output migrates).mpr ⟨by decide, portable⟩
  exact ⟨tree, target, output, extracts, contents, migrates, restores, same⟩

end Migrator

end AetherArch
