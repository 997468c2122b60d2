import AetherArch.Library.FileTree
import AetherArch.Pipeline.Operations

/-! # Extraction into a directory

Where the files of an archive end up below an output directory that starts out empty. Two paths
name the same place when they differ in empty and `.` components only, and a file written later
replaces the one that is there.
-/

namespace AetherArch

open FileTrees

/-- The names that lead from the output directory to the file of a path. -/
def location (path : String) : List (List Char) :=
  (path.toList.splitOn '/').filter fun name => name ≠ [] ∧ name ≠ ['.']

/-- A directory of extracted files. -/
abbrev Extracted := FileTree (List Char) ExtractedFile

/-- The disk the output directory is on. -/
structure Disk where
  /-- The output directory as messages show it. -/
  outputDir : String
  /-- Create the directories on the way to a place and a file in the last of them. -/
  create : List (List Char) → Result Unit

/-- A place below the output directory, as messages show it. -/
def Disk.display (disk : Disk) (place : List (List Char)) : String :=
  place.foldl (fun shown name => shown ++ "/" ++ String.ofList name) disk.outputDir

/-- Write a file whose path is validated: into a temporary file, which is renamed. -/
def Disk.write (disk : Disk) (tree : Extracted) (file : ExtractedFile) : Result Extracted :=
  let place := location file.path
  match above : tree.fileAbove place with
  | some upper => .error (.pathTraversal
      s!"Non-directory in extraction path: {disk.display upper}")
  | none =>
      -- The parent of the output directory itself is outside of it.
      if place = [] then .error (.pathTraversal
        s!"Resolved path escapes output directory: {file.path}")
      else do
        disk.create place
        if below : tree.isDirectory place = true then .error (.decompression
          (s!"Failed to persist temp file to {disk.display place}: "
            ++ "failed to persist temporary file: Is a directory (os error 21)"))
        else pure (tree.put place file ⟨above, Bool.eq_false_of_not_eq_true below⟩)

/-- Reassemble, verify and write every file into the directory. -/
def Disk.writeFiles (disk : Disk) (hashing : Hashing) :
    List FileEntry → SharedBlocks → Extracted → Result Extracted
  | [], _, tree => .ok tree
  | entry :: entries, shared, tree => do
      let (fileData, shared) ← reassembleFileShared entry shared
      checkFileHash hashing entry fileData
      let file ← writeValidatedFile entry fileData
      let tree ← disk.write tree file
      disk.writeFiles hashing entries shared tree

namespace Decompressor

variable {σ : Type} [ProbabilityPredictor σ] (ext : Externals) (self : Decompressor σ)

/-- Extract all files from an archive into an empty directory. -/
def extractAllTo (disk : Disk) (archive : Bytes) : Result Extracted := do
  let metadata ← readMetadata ext archive
  self.validateDictionary ext metadata.dictionaryHash
  let decryptKey ← self.decryptKeyOf ext metadata
  let decompressedBlocks ← self.decompressBlocks ext archive metadata decryptKey
  disk.writeFiles ext.toHashing metadata.fileEntries
    { blocks := decompressedBlocks
      refCounts := blockRefCounts metadata.fileEntries decompressedBlocks.length } .empty

end Decompressor

/-! ## What is left in the directory -/

/-- A file with its place. -/
def placed (file : ExtractedFile) : List (List Char) × ExtractedFile := (location file.path, file)

/-- Whether the disk takes a file at the place of its path. -/
structure Disk.Takes (disk : Disk) (file : ExtractedFile) : Prop where
  inside : location file.path ≠ []
  created : disk.create (location file.path) = .ok ()

theorem Disk.write_eq_ok {disk : Disk} {tree next : Extracted} {file : ExtractedFile} :
    disk.write tree file = .ok next ↔
      disk.Takes file ∧ tree.store? (placed file) = some next := by
  rw [FileTree.store?_eq_some, Disk.write]
  dsimp only [placed]
  split
  · rename_i upper above
    constructor
    · rintro ⟨⟩
    · rintro ⟨-, free, -⟩
      exact absurd free.above (above ▸ Option.some_ne_none upper)
  · rename_i above
    split
    · rename_i root
      constructor
      · rintro ⟨⟩
      · rintro ⟨takes, -⟩
        exact absurd root takes.inside
    · rename_i inside
      rw [Result.bind_eq_ok]
      constructor
      · rintro ⟨_, created, success⟩
        split at success
        · cases success
        · cases success
          exact ⟨⟨inside, created⟩, _, rfl⟩
      · rintro ⟨takes, free, rfl⟩
        refine ⟨(), takes.created, ?_⟩
        rw [dif_neg (Bool.eq_false_iff.mp free.below)]
        rfl

/-- **Writing while reassembling is reassembling all files and then writing them**, when it
succeeds. -/
theorem Disk.writeFiles_eq_ok {disk : Disk} {hashing : Hashing} {entries : List FileEntry}
    {shared : SharedBlocks} {tree final : Extracted} :
    disk.writeFiles hashing entries shared tree = .ok final ↔
      ∃ files, AetherArch.writeFiles hashing entries shared = .ok files ∧
        (∀ file ∈ files, disk.Takes file) ∧ tree.storeAll (files.map placed) = some final := by
  induction entries generalizing shared tree with
  | nil =>
      rw [Disk.writeFiles, AetherArch.writeFiles]
      constructor
      · rintro ⟨⟩
        exact ⟨[], rfl, fun _ member => absurd member List.not_mem_nil, rfl⟩
      · rintro ⟨_, ⟨⟩, -, ⟨⟩⟩
        rfl
  | cons entry entries recurse =>
      simp only [Disk.writeFiles, AetherArch.writeFiles, Result.bind_eq_ok, Disk.write_eq_ok,
        recurse, Result.pure_eq_ok]
      constructor
      · rintro ⟨taken, reassembled, _, hash, file, written, next, ⟨takes, stored⟩, files, others,
          takesAll, storedAll⟩
        refine ⟨file :: files, ⟨taken, reassembled, (), hash, file, written, files, others, rfl⟩,
          ?_, ?_⟩
        · exact List.forall_mem_cons.mpr ⟨takes, takesAll⟩
        · rw [List.map_cons, FileTree.storeAll_cons, stored]
          exact storedAll
      · rintro ⟨_, ⟨taken, reassembled, _, hash, file, written, files, others, rfl⟩, takesAll,
          storedAll⟩
        rw [List.map_cons, FileTree.storeAll_cons, Option.bind_eq_some_iff] at storedAll
        obtain ⟨next, stored, storedRest⟩ := storedAll
        obtain ⟨takes, takesRest⟩ := List.forall_mem_cons.mp takesAll
        exact ⟨taken, reassembled, (), hash, file, written, next, ⟨takes, stored⟩, files, others,
          takesRest, storedRest⟩

namespace Decompressor

variable {σ : Type} [ProbabilityPredictor σ] {ext : Externals} {self : Decompressor σ}
variable {disk : Disk} {archive : Bytes}

/-- **What a directory holds after an extraction.** -/
theorem extractAllTo_eq_ok {tree : Extracted} :
    self.extractAllTo ext disk archive = .ok tree ↔
      ∃ files, self.extractAll ext archive = .ok files ∧ (∀ file ∈ files, disk.Takes file) ∧
        FileTree.empty.storeAll (files.map placed) = some tree := by
  simp only [extractAllTo, extractAll, Result.bind_eq_ok, Disk.writeFiles_eq_ok]
  constructor
  · rintro ⟨metadata, read, _, valid, key, derived, blocks, decodes, files, written, rest⟩
    exact ⟨files, ⟨metadata, read, (), valid, key, derived, blocks, decodes, written⟩, rest⟩
  · rintro ⟨files, ⟨metadata, read, _, valid, key, derived, blocks, decodes, written⟩, rest⟩
    exact ⟨metadata, read, (), valid, key, derived, blocks, decodes, files, written, rest⟩

end Decompressor

end AetherArch
