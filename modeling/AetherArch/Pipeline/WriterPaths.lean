import AetherArch.Pipeline.ArchiveRoundTrip
import AetherArch.Pipeline.ExtractionTree

/-! # Paths the writer stores

The writer stores the path of a file below the base directory and checks nothing about it. The
readers do, so whether the files come back from their archive is decided by their paths alone.
-/

namespace AetherArch

open FileTrees

namespace Compressor

/-- The path an input has in the archive. -/
def StoredAs (baseDir : UnixPath.Path) (input : InputFile) (relPath : String) : Prop :=
  relativePath baseDir input.path = .ok relPath

/-- Files that can be archived under the paths they are stored with. -/
structure Archivable (baseDir : UnixPath.Path) (inputs : List InputFile) : Prop where
  few : inputs.length ≤ MAX_FILE_COUNT.toNat
  /-- Every stored path passes the check and leads below the output directory. -/
  valid : ∀ input ∈ inputs, ∀ relPath, StoredAs baseDir input relPath →
    validateExtractionPath relPath = .ok () ∧ location relPath ≠ []
  /-- No file is stored on the way to another, and only one and the same file for one place. -/
  apart : ∀ upper ∈ inputs, ∀ lower ∈ inputs, ∀ upperPath lowerPath,
    StoredAs baseDir upper upperPath → StoredAs baseDir lower lowerPath →
      location upperPath <+: location lowerPath →
        location upperPath = location lowerPath ∧ upper.content = lower.content ∧
          UnixPath.location upper.path = UnixPath.location lower.path

/-- A file table that lists every input under its path, and different files under different
paths. -/
structure Lists (ext : Externals) (baseDir : UnixPath.Path) (inputs : List InputFile)
    (archive : Bytes) (metadata : ArchiveMetadata) : Prop where
  reads : Decompressor.readMetadata ext archive = .ok metadata
  named : List.Forall₂ (fun input entry => StoredAs baseDir input entry.path) inputs
    metadata.fileEntries
  valid : ∀ entry ∈ metadata.fileEntries, validateExtractionPath entry.path = .ok ()
  distinct : ∀ first ∈ inputs.zip metadata.fileEntries, ∀ second ∈ inputs.zip metadata.fileEntries,
    UnixPath.location first.1.path ≠ UnixPath.location second.1.path →
      location first.2.path ≠ location second.2.path

/-- An archive that lists its inputs, and from which every one of them is extracted to its place:
none is refused and none is overwritten. -/
structure Recovers (ext : Externals) {σ : Type} [ProbabilityPredictor σ]
    (compressor : Compressor σ) (baseDir : UnixPath.Path) (inputs : List InputFile)
    (archive : Bytes) (metadata : ArchiveMetadata) : Prop extends
    Lists ext baseDir inputs archive metadata where
  extracts : ∀ decompressor, ConfiguredFor compressor decompressor →
    ∀ disk : Disk, (∀ place, disk.create place = .ok ()) →
      ∃ tree, decompressor.extractAllTo ext disk archive = .ok tree ∧
        ∀ pair ∈ inputs.zip metadata.fileEntries, ∃ file,
          tree.find? (location pair.2.path) = some file ∧ pair.1.content = .ok file.data

variable {σ : Type} [ProbabilityPredictor σ]

omit [ProbabilityPredictor σ] in
/-- There is a reader set up like the writer. -/
theorem exists_configuredFor (compressor : Compressor σ) :
    ∃ decompressor, ConfiguredFor compressor decompressor :=
  ⟨⟨compressor.predictorFactory, compressor.encryptionConfig.map EncryptionConfig.password, 0,
    compressor.dictionary⟩, rfl, rfl, rfl⟩

/-- Every input stands next to the entry it is listed as. -/
theorem Lists.exists_entry {ext : Externals} {baseDir : UnixPath.Path} {inputs : List InputFile}
    {archive : Bytes} {metadata : ArchiveMetadata}
    (lists : Lists ext baseDir inputs archive metadata) {input : InputFile}
    (member : input ∈ inputs) {relPath : String} (stored : StoredAs baseDir input relPath) :
    ∃ entry, (input, entry) ∈ inputs.zip metadata.fileEntries ∧ entry.path = relPath := by
  obtain ⟨i, inside, rfl⟩ := List.getElem_of_mem member
  have entryInside : i < metadata.fileEntries.length := lists.named.length_eq ▸ inside
  refine ⟨metadata.fileEntries[i], ?_,
    Except.ok.inj ((lists.named.get inside entryInside).symm.trans stored)⟩
  rw [← List.getElem_zip (h := by rw [List.length_zip]; exact lt_min inside entryInside)]
  exact List.getElem_mem _

/-- **Files that come back from their archive are archivable**: the extracted tree has one file
for each place and none on the way to another. -/
theorem Recovers.archivable {ext : Externals} {compressor : Compressor σ}
    {baseDir : UnixPath.Path} {inputs : List InputFile} {archive : Bytes}
    {metadata : ArchiveMetadata}
    (recovers : Recovers ext compressor baseDir inputs archive metadata) :
    Archivable baseDir inputs := by
  obtain ⟨decompressor, configured⟩ := exists_configuredFor compressor
  obtain ⟨tree, extracts, found⟩ := recovers.extracts decompressor configured
    ⟨"", fun _ => .ok ()⟩ fun _ => rfl
  obtain ⟨files, restores, takes, stored⟩ := Decompressor.extractAllTo_eq_ok.mp extracts
  constructor
  · have read := readMetadata_eq_ok.mp recovers.reads
    have count := (ArchiveHeader.checkCounts_eq_ok.mp read.counts).1
    rw [recovers.named.length_eq, read.length_fileEntries]
    exact UInt32.le_iff_toNat_le.mp count
  · intro input member relPath storedAs
    obtain ⟨entry, among, rfl⟩ := recovers.exists_entry member storedAs
    refine ⟨recovers.valid entry (List.of_mem_zip among).2, ?_⟩
    obtain ⟨file, there, -⟩ := found _ among
    rcases FileTree.mem_of_storeAll stored (FileTree.find?_eq_some.mp there) with put | before
    · obtain ⟨restored, listed, same⟩ := List.mem_map.mp put
      have place : location restored.path = location entry.path := congrArg Prod.fst same
      rw [← place]
      exact (takes restored listed).inside
    · cases before
  · intro upper upperMember lower lowerMember upperPath lowerPath upperStored lowerStored onTheWay
    obtain ⟨upperEntry, upperAmong, rfl⟩ := recovers.exists_entry upperMember upperStored
    obtain ⟨lowerEntry, lowerAmong, rfl⟩ := recovers.exists_entry lowerMember lowerStored
    obtain ⟨upperFile, upperThere, upperContent⟩ := found _ upperAmong
    obtain ⟨lowerFile, lowerThere, lowerContent⟩ := found _ lowerAmong
    have place := tree.apart _ (FileTree.find?_eq_some.mp upperThere) _
      (FileTree.find?_eq_some.mp lowerThere) onTheWay
    refine ⟨place, ?_, ?_⟩
    · dsimp only at place upperThere lowerThere upperContent lowerContent
      rw [place, lowerThere] at upperThere
      rw [upperContent, lowerContent, Option.some.inj upperThere]
    · by_contra different
      exact recovers.distinct _ upperAmong _ lowerAmong different place

variable {ext : WriterExternals} {compressor : Compressor σ}
  {baseDir : UnixPath.Path} {inputs : List InputFile} {files : List (ScannedFile ext.arith.double)}
  {encryption : EncryptionState} {baseline : Option Bytes} {usePathPrefixes : Bool}
  {layout : Layout} {written : List WrittenBlock}
  {owned : List (Fin files.length × List CompressedChunk)}

/-- What an input is scanned to. -/
structure InputScanned {format : FloatFormat} (baseDir : UnixPath.Path) (input : InputFile)
    (file : ScannedFile format) : Prop where
  path : StoredAs baseDir input file.entry.path
  content : input.content = .ok file.data

omit [ProbabilityPredictor σ] in
theorem ScannedFrom.inputScanned {hashing : Hashing} {format : FloatFormat} {input : InputFile}
    {file : ScannedFile format} (scanned : ScannedFrom hashing format baseDir input file) :
    InputScanned baseDir input file := by
  obtain ⟨_, _, content, relative, rfl⟩ := scanned
  exact ⟨relative, content⟩

/-- Digests tell the contents of the inputs apart. -/
def DistinctDigests (hashing : Hashing) (inputs : List InputFile) : Prop :=
  ∀ first ∈ inputs, ∀ second ∈ inputs, ∀ firstData secondData,
    first.content = .ok firstData → second.content = .ok secondData →
      hashing.blake3 firstData = hashing.blake3 secondData → firstData = secondData

section

variable (archivable : Archivable baseDir inputs)
  (scans : List.Forall₂ (InputScanned baseDir) inputs files)

include archivable scans

omit [ProbabilityPredictor σ] in
/-- Archivable files pass the checks of the readers. -/
theorem Archivable.readable (distinctDigests : DistinctDigests ext.toHashing inputs) :
    Readable ext.toHashing files where
  accepted := by
    intro file member
    obtain ⟨input, among, scanned⟩ := scans.exists_left member
    exact PlainArchive.acceptedPath_of_valid (archivable.valid input among _ scanned.path).1
  few := scans.length_eq ▸ archivable.few
  collisionFree := by
    intro first firstMember second secondMember digest
    obtain ⟨firstInput, firstAmong, firstAs⟩ := scans.exists_left firstMember
    obtain ⟨secondInput, secondAmong, secondAs⟩ := scans.exists_left secondMember
    exact distinctDigests _ firstAmong _ secondAmong _ _ firstAs.content secondAs.content digest

omit [ProbabilityPredictor σ] in
/-- **Archivable files are all left in the directory they are extracted to.** -/
theorem Archivable.stores {disk : Disk} (creates : ∀ place, disk.create place = .ok ()) :
    (∀ file ∈ files.map restoredFile, disk.Takes file) ∧
      ∃ tree, FileTree.empty.storeAll ((files.map restoredFile).map placed) = some tree ∧
        ∀ input file, InputScanned baseDir input file → input ∈ inputs → file ∈ files →
          ∃ found, tree.find? (location file.entry.path) = some found ∧
            input.content = .ok found.data := by
  have entry {place : List (List Char) × ExtractedFile}
      (member : place ∈ (files.map restoredFile).map placed) :
      ∃ file ∈ files, place = (location file.entry.path, restoredFile file) := by
    rw [List.map_map] at member
    obtain ⟨file, among, rfl⟩ := List.mem_map.mp member
    exact ⟨file, among, rfl⟩
  constructor
  · intro restored member
    obtain ⟨file, among, rfl⟩ := List.mem_map.mp member
    obtain ⟨input, listed, scanned⟩ := scans.exists_left among
    exact ⟨(archivable.valid input listed _ scanned.path).2, creates _⟩
  · obtain ⟨tree, stored⟩ := @FileTree.exists_storeAll _ _ _ FileTree.empty
      ((files.map restoredFile).map placed) (by
        intro upper upperMember lower lowerMember onTheWay
        obtain ⟨upperFile, upperAmong, rfl⟩ := entry upperMember
        obtain ⟨lowerFile, lowerAmong, rfl⟩ := entry lowerMember
        obtain ⟨upperInput, upperListed, upperAs⟩ := scans.exists_left upperAmong
        obtain ⟨lowerInput, lowerListed, lowerAs⟩ := scans.exists_left lowerAmong
        exact (archivable.apart _ upperListed _ lowerListed _ _ upperAs.path lowerAs.path
          onTheWay).1)
    refine ⟨tree, stored, fun input file scanned listed among => ?_⟩
    have member : (location file.entry.path, restoredFile file) ∈
        (files.map restoredFile).map placed := by
      rw [List.map_map]
      exact List.mem_map_of_mem among
    obtain ⟨found, there⟩ := FileTree.exists_mem_of_storeAll stored member
    refine ⟨found, FileTree.find?_eq_some.mpr there, ?_⟩
    -- What is left there may be another input of the same place, and so of the same content.
    rcases FileTree.mem_of_storeAll stored there with put | before
    · obtain ⟨last, lastAmong, same⟩ := entry put
      obtain ⟨lastInput, lastListed, lastAs⟩ := scans.exists_left lastAmong
      obtain ⟨place, rfl⟩ := Prod.mk.inj same
      dsimp only at place
      have content := (archivable.apart _ listed _ lastListed _ _ scanned.path lastAs.path
        (by rw [place])).2.1
      exact content.trans lastAs.content
    · cases before

end

/-- **Archivable files come back from their archive.** -/
theorem WroteFrom.recovers
    (wrote : WroteFrom ext compressor files encryption baseline usePathPrefixes layout written
      owned)
    (reliable : ext.Reliable)
    (scans : scanFiles ext.toHashing ext.arith.double baseDir inputs 0 = .ok files)
    (archivable : Archivable baseDir inputs)
    (distinctDigests : DistinctDigests ext.toHashing inputs)
    (addressable : (layout.archive ext.toHashing).length < 2 ^ 63) :
    Recovers ext.toExternals compressor baseDir inputs (layout.archive ext.toHashing)
      layout.metadata := by
  have each := (scanFiles_spec scans).1.imp fun _ _ => ScannedFrom.inputScanned
  have scanned := scanned_of_scanFiles scans
  have readable := archivable.readable each distinctDigests
  have named : List.Forall₂ (fun input entry => StoredAs baseDir input entry.path) inputs
      layout.fileEntries := by
    refine (each.comp wrote.describes).imp ?_
    rintro input entry ⟨file, inputScanned, describes⟩
    rw [describes.same.1]
    exact inputScanned.path
  have stored : ∀ pair ∈ inputs.zip layout.fileEntries, pair.1 ∈ inputs ∧
      StoredAs baseDir pair.1 pair.2.path := by
    intro pair among
    exact ⟨(List.of_mem_zip among).1, (List.forall₂_iff_zip.mp named).2 among⟩
  have valid : ∀ file ∈ files, validateExtractionPath file.entry.path = .ok () := by
    intro file member
    obtain ⟨input, among, inputScanned⟩ := each.exists_left member
    exact (archivable.valid input among _ inputScanned.path).1
  constructor
  · constructor
    · exact readMetadata_eq_ok.mpr (wrote.tiled reliable.partitions reliable.bounded scanned
        readable.accepted readable.few addressable).seekableRead
    · exact named
    · intro entry member
      obtain ⟨input, among, storedAs⟩ := named.exists_left member
      exact (archivable.valid input among _ storedAs).1
    · intro first firstMember second secondMember different place
      obtain ⟨firstAmong, firstAs⟩ := stored first firstMember
      obtain ⟨secondAmong, secondAs⟩ := stored second secondMember
      exact different (archivable.apart _ firstAmong _ secondAmong _ _ firstAs secondAs
        (by rw [place])).2.2
  · intro decompressor configured disk creates
    obtain ⟨takes, tree, storedAll, found⟩ := archivable.stores each creates
    refine ⟨tree, Decompressor.extractAllTo_eq_ok.mpr ⟨_, wrote.extractAll_eq reliable scanned
      readable configured addressable valid, takes, storedAll⟩, fun pair among => ?_⟩
    obtain ⟨listed, storedAs⟩ := stored pair among
    obtain ⟨file, member, inputScanned⟩ := each.exists_right listed
    rw [Except.ok.inj (storedAs.symm.trans inputScanned.path)]
    exact found _ _ inputScanned listed member

/-- **Files come back from their archive exactly when they are archivable.** -/
theorem recovers_iff_archivable (ext : WriterExternals) (reliable : ext.Reliable)
    (compressor : Compressor σ) (baseDir : UnixPath.Path) (inputs : List InputFile)
    (distinctDigests : DistinctDigests ext.toHashing inputs) (stats : CompressionStats)
    (output : Output)
    (success : compressor.compressToArchive ext baseDir inputs = .ok (stats, output)) :
    (∃ metadata, Recovers ext.toExternals compressor baseDir inputs output.bytes metadata) ↔
      Archivable baseDir inputs := by
  constructor
  · rintro ⟨metadata, recovers⟩
    exact recovers.archivable
  · intro archivable
    obtain ⟨files, scans, writes⟩ := Result.bind_eq_ok.mp success
    obtain ⟨encryption, baseline, usePathPrefixes, layout, written, owned, wrote, bytes⟩ :=
      compressScanned_from writes
    have addressable := output.addressable
    rw [bytes] at addressable ⊢
    exact ⟨_, wrote.recovers reliable scans archivable distinctDigests addressable⟩

omit [ProbabilityPredictor σ] in
/-- Files with known stored paths are archivable if these pass the checks. -/
theorem archivable_of_stored {relPaths : List String}
    (few : inputs.length ≤ MAX_FILE_COUNT.toNat)
    (stored : List.Forall₂ (StoredAs baseDir) inputs relPaths)
    (valid : ∀ relPath ∈ relPaths, validateExtractionPath relPath = .ok () ∧ location relPath ≠ [])
    (apart : ∀ upper ∈ inputs.zip relPaths, ∀ lower ∈ inputs.zip relPaths,
      location upper.2 <+: location lower.2 → location upper.2 = location lower.2 ∧
        upper.1.content = lower.1.content ∧
        UnixPath.location upper.1.path = UnixPath.location lower.1.path) :
    Archivable baseDir inputs := by
  have listed {input : InputFile} (member : input ∈ inputs) {relPath : String}
      (storedAs : StoredAs baseDir input relPath) : (input, relPath) ∈ inputs.zip relPaths := by
    obtain ⟨i, inside, rfl⟩ := List.getElem_of_mem member
    have pathInside : i < relPaths.length := stored.length_eq ▸ inside
    obtain rfl := Except.ok.inj ((stored.get inside pathInside).symm.trans storedAs)
    rw [List.get_eq_getElem,
      ← List.getElem_zip (h := by rw [List.length_zip]; exact lt_min inside pathInside)]
    exact List.getElem_mem _
  refine ⟨few, fun input member relPath storedAs => ?_, ?_⟩
  · exact valid relPath (List.of_mem_zip (listed member storedAs)).2
  · intro upper upperMember lower lowerMember upperPath lowerPath upperStored lowerStored onTheWay
    exact apart _ (listed upperMember upperStored) _ (listed lowerMember lowerStored) onTheWay

/-- The three text files come back. -/
theorem recovers_texts :
    ∃ (stats : CompressionStats) (output : Output) (metadata : ArchiveMetadata),
      (plain Order0Model.new).compressToArchive sealingWriter [] threeTexts = .ok (stats, output) ∧
        Recovers sealingWriter.toExternals (plain Order0Model.new) [] threeTexts output.bytes
          metadata := by
  obtain ⟨stats, output, success⟩ := compressToArchive_short (keyless Order0Model.new) rfl
    sealingWriter_untroubled threeTexts_short (by decide)
  have stored : List.Forall₂ (StoredAs []) threeTexts ["a.txt", "b.txt", "c.txt"] :=
    threeTexts_short.imp fun _ _ expected => expected.relative
  have archivable := archivable_of_stored (by decide) stored (by decide) (by decide)
  have apart : ∀ first ∈ threeTexts, ∀ second ∈ threeTexts,
      sealingWriter.blake3 (first.content.toOption.getD []) =
        sealingWriter.blake3 (second.content.toOption.getD []) →
      first.content.toOption.getD [] = second.content.toOption.getD [] := by decide
  have distinctDigests : DistinctDigests sealingWriter.toHashing threeTexts := by
    intro first firstMember second secondMember firstData secondData firstContent secondContent
    have same := apart first firstMember second secondMember
    rw [firstContent, secondContent] at same
    exact same
  obtain ⟨metadata, recovers⟩ := (recovers_iff_archivable sealingWriter sealingWriter_reliable _ _
    _ distinctDigests stats output success).mpr archivable
  exact ⟨stats, output, metadata, success, recovers⟩

/-- **The writer takes a file whose path looks like a drive**, and the reader does not. -/
theorem drive_not_recovered :
    ∃ (stats : CompressionStats) (output : Output),
      (plain Order0Model.new).compressToArchive sealingWriter [] [textFile "a:" "abc"] =
          .ok (stats, output) ∧
        ¬∃ metadata, Recovers sealingWriter.toExternals (plain Order0Model.new) []
          [textFile "a:" "abc"] output.bytes metadata := by
  have short : List.Forall₂ (ShortInput []) [textFile "a:" "abc"] ["a:"] :=
    .cons ⟨⟨_, rfl, by decide⟩, by decide, by decide⟩ .nil
  obtain ⟨stats, output, success⟩ := compressToArchive_short (keyless Order0Model.new) rfl
    sealingWriter_untroubled short (by decide)
  refine ⟨stats, output, success, ?_⟩
  rintro ⟨metadata, recovers⟩
  have stored : relativePath [] (textFile "a:" "abc").path = .ok "a:" := by decide
  have refused : validateExtractionPath "a:" ≠ .ok () := by decide
  exact refused (recovers.archivable.valid _ (List.mem_singleton_self _) _ stored).1

end Compressor

end AetherArch
