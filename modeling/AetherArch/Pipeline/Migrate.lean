import AetherArch.Library.DirectoryWalk
import AetherArch.Library.PathBelow
import AetherArch.Library.Utf8
import AetherArch.Pipeline.Compress
import AetherArch.Pipeline.ExtractionTree

/-! # Archive migration: decompress, recompress with new settings

The files of the source go through a temporary directory, which nothing else writes to. What is
collected there is compressed under the paths the directory gives it.
-/

namespace AetherArch

open FileTrees

/-! ## Streaming into a directory -/

namespace Decompressor

variable {σ : Type} [ProbabilityPredictor σ] (ext : Externals) (self : Decompressor σ)

/-- Extract all files into an empty directory, given the metadata already read from the stream. -/
def extractWithStreamingMetadataTo (disk : Disk) (metadata : StreamingMetadata) :
    Reader Extracted := do
  ByteReader.lift (self.validateDictionary ext metadata.dictionaryHash)
  let decryptKey ← ByteReader.lift
    (deriveDecryptKey ext metadata.header.flags metadata.encryptionHeader self.password)
  let baseline ← ByteReader.lift (self.decodeBaselineFor ext metadata.dictionaryHash)
  let decompressedBlocks ← decompressStreamed ext baseline decryptKey
    metadata.header.blockCount.toNat 0 0
  ByteReader.lift (disk.writeFiles ext.toHashing metadata.fileEntries
    { blocks := decompressedBlocks
      refCounts := blockRefCounts metadata.fileEntries decompressedBlocks.length } .empty)

/-- Extract all files from a stream into an empty directory. -/
def extractAllStreamingTo (disk : Disk) (archive : Bytes) : Result Extracted :=
  Prod.fst <$> (do
    let metadata ← readMetadataStreaming ext
    self.extractWithStreamingMetadataTo ext disk metadata) archive

end Decompressor

/-! ## The temporary directory -/

deriving instance Ord for UnixPath.Component

/-- A directory for extracted files, with what the operating system says of them. -/
structure TempDir extends Disk where
  path : UnixPath.Path
  base : UnixPath.Base path
  /-- The order in which `read_dir` gives names. -/
  listing : FileTree.Listing (List Char)
  /-- Whether a file can be opened for reading. -/
  opens : ExtractedFile → Result Unit
  /-- Seconds since the epoch. -/
  modified : ExtractedFile → Option UInt64
  mode : ExtractedFile → Option UInt32

/-- A file below the directory, with the names that lead to it. -/
abbrev CollectedFile := List (List Char) × ExtractedFile

namespace TempDir

variable (tmp : TempDir)

/-- The path of a place below the directory: one name pushed after the other. -/
def pathOf (place : List (List Char)) : UnixPath.Path :=
  place.foldl (fun dir name => UnixPath.push dir (Utf8.encode name)) tmp.path

/-- The file as it is read back. -/
def inputFile (file : CollectedFile) : InputFile where
  path := tmp.pathOf file.1
  content := (tmp.opens file.2).map fun _ => file.2.data
  modified := tmp.modified file.2
  mode := tmp.mode file.2

end TempDir

/-! ## Collecting files -/

/-- Refuse more files than an archive may have. -/
def checkCollected (files : List CollectedFile) : Result (List CollectedFile) := do
  Result.failIf (files.length > MAX_FILE_COUNT.toNat) (.resourceLimitExceeded
    s!"Extracted file count exceeds limit of {MAX_FILE_COUNT}")
  return files

/-- Collect the files below a directory of at most some depth. -/
def collectDirRecursive (tmp : TempDir) :
    (depth : Nat) → (dir : List (List Char)) → Extracted → List CollectedFile →
      Result (List CollectedFile)
  | 0, _, _, files => .ok files
  | depth + 1, dir, tree, files =>
      (tmp.listing.order dir tree.names).foldlM (fun files name =>
        (match (tree.below name).find? [] with
          | some file => .ok (files ++ [(dir ++ [name], file)])
          | none => collectDirRecursive tmp depth (dir ++ [name]) (tree.below name) files) >>=
            checkCollected) files

/-- The order of path buffers: by their components. -/
def pathLe (first second : UnixPath.Path) : Bool :=
  (compare (UnixPath.components first) (UnixPath.components second)).isLE

/-- Collect all files below the directory, in the order of their paths. -/
def collectFilesRecursive (tmp : TempDir) (tree : Extracted) : Result (List CollectedFile) := do
  let files ← collectDirRecursive tmp tree.height [] tree []
  return files.mergeSort fun first second => pathLe (tmp.pathOf first.1) (tmp.pathOf second.1)

/-! ## Migration -/

/-- Migrates archives, with predictors of type `σ` in the source and `τ` in the target. -/
structure Migrator (σ τ : Type) where
  sourceDecompressor : Decompressor σ
  targetCompressor : Compressor τ

namespace Migrator

variable {σ τ : Type} [ProbabilityPredictor σ] [ProbabilityPredictor τ] (ext : WriterExternals)
  (self : Migrator σ τ)

/-- Create the temporary directory. -/
def tempdir (created : Except String TempDir) : Result TempDir :=
  created.mapError fun e => .compression s!"Failed to create temp dir: {e}"

/-- Compress what was extracted. Nothing is written when that is nothing. -/
def recompress (tmp : TempDir) (tree : Extracted) : Result (Nat × Output) := do
  let files ← collectFilesRecursive tmp tree
  if files.isEmpty then
    return (0, .empty)
  let (_, output) ← self.targetCompressor.compressToArchive ext tmp.path
    (files.map tmp.inputFile)
  return (files.length, output)

/-- Migrate a seekable archive to an empty output: the number of files, and what is written. -/
def migrate (created : Except String TempDir) (source : Bytes) : Result (Nat × Output) := do
  let tmp ← tempdir created
  let tree ← self.sourceDecompressor.extractAllTo ext.toExternals tmp.toDisk source
  self.recompress ext tmp tree

/-- Migrate an archive from a stream. -/
def migrateStreaming (created : Except String TempDir) (source : Bytes) :
    Result (Nat × Output) := do
  let tmp ← tempdir created
  let tree ← self.sourceDecompressor.extractAllStreamingTo ext.toExternals tmp.toDisk source
  self.recompress ext tmp tree

end Migrator

/-! ## What is collected -/

section

variable {tmp : TempDir} {tree : Extracted}

theorem checkCollected_eq_ok {files next : List CollectedFile} :
    checkCollected files = .ok next ↔ next = files ∧ next.length ≤ MAX_FILE_COUNT.toNat := by
  simp only [checkCollected, Result.bind_eq_ok, Result.failIf_eq_ok, not_lt, Result.pure_eq_ok,
    gt_iff_lt]
  constructor
  · rintro ⟨-, few, rfl⟩
    exact ⟨rfl, few⟩
  · rintro ⟨rfl, few⟩
    exact ⟨(), few, rfl⟩

/-- **Collecting is walking**, as long as the files are not too many. -/
theorem collectDirRecursive_eq_ok {depth : Nat} {dir : List (List Char)}
    {files collected : List CollectedFile} (few : files.length ≤ MAX_FILE_COUNT.toNat) :
    collectDirRecursive tmp depth dir tree files = .ok collected ↔
      collected = files ++ FileTree.walk tmp.listing depth dir tree ∧
        collected.length ≤ MAX_FILE_COUNT.toNat := by
  induction depth generalizing dir tree files collected with
  | zero =>
      rw [collectDirRecursive, FileTree.walk, List.append_nil]
      constructor
      · rintro ⟨⟩
        exact ⟨rfl, few⟩
      · rintro ⟨rfl, -⟩
        rfl
  | succ depth recurse =>
      rw [collectDirRecursive, FileTree.walk]
      generalize tmp.listing.order dir tree.names = names
      induction names generalizing files with
      | nil =>
          rw [List.foldlM_nil, List.flatMap_nil, List.append_nil]
          constructor
          · rintro ⟨⟩
            exact ⟨rfl, few⟩
          · rintro ⟨rfl, -⟩
            rfl
      | cons name names later =>
          rw [List.foldlM_cons, List.flatMap_cons, ← List.append_assoc]
          -- What an entry adds is added before the others are visited.
          have visit {entry : Result (List CollectedFile)} {added : List CollectedFile}
              (adds : ∀ next, entry >>= checkCollected = .ok next ↔
                next = files ++ added ∧ next.length ≤ MAX_FILE_COUNT.toNat)
              {rest : List CollectedFile → Result (List CollectedFile)}
              {others : List CollectedFile}
              (continues : ∀ {next}, next.length ≤ MAX_FILE_COUNT.toNat →
                (rest next = .ok collected ↔ collected = next ++ others ∧
                  collected.length ≤ MAX_FILE_COUNT.toNat)) :
              (entry >>= checkCollected) >>= rest = .ok collected ↔
                collected = files ++ added ++ others ∧
                  collected.length ≤ MAX_FILE_COUNT.toNat := by
            rw [Result.bind_eq_ok]
            constructor
            · rintro ⟨next, here, after⟩
              obtain ⟨rfl, short⟩ := (adds next).mp here
              exact (continues short).mp after
            · rintro ⟨rfl, short⟩
              have before : (files ++ added).length ≤ MAX_FILE_COUNT.toNat := by
                rw [List.length_append] at short
                exact (Nat.le_add_right _ _).trans short
              exact ⟨_, (adds _).mpr ⟨rfl, before⟩, (continues before).mpr ⟨rfl, short⟩⟩
          cases (tree.below name).find? [] with
          | some file => exact visit (fun next => checkCollected_eq_ok) later
          | none =>
              refine visit (fun next => ?_) later
              rw [Result.bind_eq_ok]
              constructor
              · rintro ⟨_, below, checked⟩
                obtain ⟨rfl, short⟩ := checkCollected_eq_ok.mp checked
                exact (recurse few).mp below
              · rintro ⟨rfl, short⟩
                exact ⟨_, (recurse few).mpr ⟨rfl, short⟩, checkCollected_eq_ok.mpr ⟨rfl, short⟩⟩

end

end AetherArch
