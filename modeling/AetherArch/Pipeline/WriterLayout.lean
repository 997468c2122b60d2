import AetherArch.FileTable
import AetherArch.Library.Pointwise
import AetherArch.Pipeline.GroupCompression

/-! # The layout the writer produces

Header, optional records, tables, blocks, index and footer stand one after the other with nothing
between them, although header and tables are written twice.
-/

namespace AetherArch

/-! ## Scanned files -/

namespace Compressor

/-- What a scanned file was read from. -/
def ScannedFrom (hashing : Hashing) (format : FloatFormat) (baseDir : UnixPath.Path)
    (input : InputFile) (file : ScannedFile format) : Prop :=
  ∃ data relPath, input.content = .ok data ∧ relativePath baseDir input.path = .ok relPath ∧
    file = scanFile hashing format relPath input data

/-- What the scan records of each file. -/
theorem scanFiles_spec {hashing : Hashing} {format : FloatFormat} {baseDir : UnixPath.Path}
    {inputs : List InputFile} {cumulativeInputSize : Nat} {files : List (ScannedFile format)}
    (success : scanFiles hashing format baseDir inputs cumulativeInputSize = .ok files) :
    List.Forall₂ (ScannedFrom hashing format baseDir) inputs files ∧
      (cumulativeInputSize ≤ MAX_TOTAL_INPUT_SIZE →
        cumulativeInputSize + (files.map fun file => file.data.length).sum ≤
          MAX_TOTAL_INPUT_SIZE) := by
  induction inputs generalizing cumulativeInputSize files with
  | nil =>
      cases success
      exact ⟨.nil, id⟩
  | cons input inputs recurse =>
      simp only [scanFiles, Result.bind_eq_ok, Result.failIf_eq_ok, Result.pure_eq_ok,
        not_lt, gt_iff_lt] at success
      obtain ⟨data, content, -, within, relPath, relative, others, scanned, rfl⟩ := success
      obtain ⟨each, total⟩ := recurse scanned
      refine ⟨.cons ⟨data, relPath, content, relative, rfl⟩ each, fun _ => ?_⟩
      have small : cumulativeInputSize + data.length ≤ MAX_TOTAL_INPUT_SIZE := by
        rcases min_le_iff.mp within with here | large
        · exact here
        · exact absurd large (by decide)
      have unsaturated : min (cumulativeInputSize + data.length) (2 ^ 64 - 1) =
          cumulativeInputSize + data.length :=
        min_eq_left (small.trans (by decide))
      have bound := total within
      rw [unsaturated] at bound
      rw [List.map_cons, List.sum_cons, ← Nat.add_assoc]
      exact bound

/-- The size of a file fits its field. -/
theorem ScannedFrom.originalSize {hashing : Hashing} {format : FloatFormat}
    {baseDir : UnixPath.Path} {input : InputFile} {file : ScannedFile format}
    (scanned : ScannedFrom hashing format baseDir input file)
    (small : file.data.length ≤ MAX_TOTAL_INPUT_SIZE) :
    file.entry.originalSize.toNat = file.data.length := by
  obtain ⟨data, relPath, -, -, rfl⟩ := scanned
  exact UInt64.toNat_ofNat_of_lt' (lt_of_le_of_lt small (by decide))

end Compressor

namespace Compressor

variable {n : Nat}

/-! ## Group assignment -/

/-- Assigning one group marks its files. -/
theorem assignGroup_apply (group : SolidGroup n) (fileEntries : Fin n → FileEntry) (idx : Fin n) :
    assignGroups [group] fileEntries idx =
      if idx ∈ group.fileIndices then
        { fileEntries idx with solidGroupId := group.groupId }
      else fileEntries idx := by
  change group.fileIndices.foldl (fun entries idx =>
    Function.update entries idx { entries idx with solidGroupId := group.groupId })
      fileEntries idx = _
  induction group.fileIndices generalizing fileEntries with
  | nil => rfl
  | cons first rest recurse =>
      rw [List.foldl_cons, recurse, Function.update_apply]
      by_cases this : idx = first
      · subst this
        simp only [↓reduceIte, List.mem_cons, true_or, ite_self]
      · simp only [this, ↓reduceIte, List.mem_cons, false_or]

/-- Groups are assigned one after the other. -/
theorem assignGroups_cons (group : SolidGroup n) (groups : List (SolidGroup n))
    (fileEntries : Fin n → FileEntry) :
    assignGroups (group :: groups) fileEntries =
      assignGroups groups (assignGroups [group] fileEntries) := rfl

/-- Only the group of an entry changes. -/
theorem assignGroups_same (groups : List (SolidGroup n)) (fileEntries : Fin n → FileEntry)
    (idx : Fin n) : assignGroups groups fileEntries idx =
      { fileEntries idx with
        solidGroupId := (assignGroups groups fileEntries idx).solidGroupId } := by
  induction groups generalizing fileEntries with
  | nil => rfl
  | cons group groups recurse =>
      rw [assignGroups_cons, recurse, assignGroup_apply]
      split <;> rfl

/-- A file outside of every group keeps its entry. -/
theorem assignGroups_of_not_mem {groups : List (SolidGroup n)} {idx : Fin n}
    (absent : ∀ group ∈ groups, idx ∉ group.fileIndices) (fileEntries : Fin n → FileEntry) :
    assignGroups groups fileEntries idx = fileEntries idx := by
  induction groups generalizing fileEntries with
  | nil => rfl
  | cons group groups recurse =>
      rw [assignGroups_cons, recurse fun other member =>
        absent other (List.mem_cons_of_mem _ member),
        assignGroup_apply, if_neg (absent group List.mem_cons_self)]

/-- **Every file gets the number of its group.** -/
theorem solidGroupId_assignGroups {groups : List (SolidGroup n)}
    (distinct : groups.Pairwise fun first second =>
      List.Disjoint first.fileIndices second.fileIndices)
    (fileEntries : Fin n → FileEntry) {group : SolidGroup n} (among : group ∈ groups) {idx : Fin n}
    (member : idx ∈ group.fileIndices) :
    (assignGroups groups fileEntries idx).solidGroupId = group.groupId := by
  induction groups generalizing fileEntries with
  | nil => cases among
  | cons first groups recurse =>
      obtain ⟨apart, distinct⟩ := List.pairwise_cons.mp distinct
      rw [assignGroups_cons]
      rcases List.mem_cons.mp among with rfl | among
      · rw [assignGroups_of_not_mem (fun other later => apart other later member),
          assignGroup_apply, if_pos member]
      · exact recurse distinct _ among

/-! ## Tables of one size -/

/-- **Writing a file table again with other blocks takes the same room.** -/
theorem length_writeFileTable_congr {isPrefixed : Bool} {first second : List FileEntry}
    (same : List.Forall₂ SameFile first second) {previousPath : String}
    {firstBytes secondBytes : Bytes}
    (firstWritten : writeFileTable isPrefixed first previousPath = .ok firstBytes)
    (secondWritten : writeFileTable isPrefixed second previousPath = .ok secondBytes) :
    firstBytes.length = secondBytes.length := by
  have samePaths : first.map FileEntry.path = second.map FileEntry.path :=
    same.map_eq_map fun _ _ here => here.path.symm
  rw [length_writeFileTable firstWritten, length_writeFileTable secondWritten,
    entrySizes_congr samePaths]

end Compressor

@[simp] theorem SolidGroupEntry.length_writeTo (entry : SolidGroupEntry) :
    entry.writeTo.length = SOLID_GROUP_ENTRY_SIZE := by
  simp only [writeTo, List.length_append, length_writeU16, length_writeU32]
  rfl

/-- The length of the group table. -/
theorem length_groupTable (entries : List SolidGroupEntry) :
    (entries.flatMap SolidGroupEntry.writeTo).length =
      entries.length * SOLID_GROUP_ENTRY_SIZE := by
  rw [List.length_flatMap, List.map_congr_left fun entry _ => entry.length_writeTo,
    List.map_const', List.sum_replicate, smul_eq_mul]

@[simp] theorem ArchiveHeader.length_writeTo (hashing : Hashing) (header : ArchiveHeader) :
    (header.writeTo hashing).length = ARCHIVE_HEADER_SIZE := by
  simp only [writeTo, fields, List.length_append, length_writeU16, length_writeU32,
    length_writeU64, (header.computeBlake3Tag hashing).2]
  rfl

namespace Compressor

variable {σ : Type} {ext : WriterExternals} {compressor : Compressor σ} {n : Nat}

/-! ## Opening -/

/-- The records in front of the file table, given the header. -/
def frontMatter (compressor : Compressor σ) (encryptionState : EncryptionState)
    (header : ArchiveHeader) : FrontMatter where
  header := header
  encryptionHeader := encryptionState.map Prod.fst
  dictionaryHash := compressor.dictionary.map Dictionary.hash

/-- The front of an archive is its header, its key header, its dictionary hash and its tables. -/
theorem frontMatter_bytes (hashing : Hashing) (encryptionState : EncryptionState)
    (header : ArchiveHeader) :
    (frontMatter compressor encryptionState header).bytes hashing = header.writeTo hashing ++
      ((encryptionState.elim [] fun state => state.1.writeTo) ++
        (compressor.dictionary.elim [] fun dict => dict.hash.1)) := by
  rw [FrontMatter.bytes, frontMatter]
  cases encryptionState <;> cases compressor.dictionary <;> rfl

variable [ProbabilityPredictor σ]

/-- What an archive is opened with. -/
structure OpenedFor (ext : WriterExternals) (compressor : Compressor σ)
    (groups : List (SolidGroup n)) (fileEntries : Fin n → FileEntry) (opened : Opened n) :
    Prop where
  fileEntries : opened.fileEntries = assignGroups groups fileEntries
  solidGroupEntries : opened.solidGroupEntries = groups.map solidGroupEntry
  encryption : compressor.encryptionState ext = .ok opened.encryptionState
  fileCount : n < 2 ^ 32
  groupCount : groups.length < 2 ^ 32
  tables : ∃ header fileTable,
    writeFileTable opened.usePathPrefixes (List.ofFn opened.fileEntries) "" = .ok fileTable ∧
      opened.output.bytes =
        (frontMatter compressor opened.encryptionState header).bytes ext.toHashing ++
          fileTable ++ opened.solidGroupEntries.flatMap SolidGroupEntry.writeTo ∧
      opened.fileTableOffset.toNat =
        ((frontMatter compressor opened.encryptionState header).bytes ext.toHashing).length ∧
      opened.solidGroupTablePos.toNat =
        ((frontMatter compressor opened.encryptionState header).bytes ext.toHashing ++
          fileTable).length

/-- What opening an archive leaves. -/
theorem openArchive_spec {groups : List (SolidGroup n)} {fileEntries : Fin n → FileEntry}
    {opened : Opened n} (success : compressor.openArchive ext groups fileEntries = .ok opened) :
    OpenedFor ext compressor groups fileEntries opened := by
  simp only [openArchive, Result.bind_eq_ok, Result.failIf_eq_ok, writeAll_eq_ok, not_le,
    ge_iff_le, Result.pure_eq_ok] at success
  obtain ⟨encryption, encrypted, -, fileCount, -, groupCount, afterHeader, header, afterEncryption,
    encHeader, afterDictionary, dictionary, fileTable, table, afterFiles, files, output, groupTable,
    rfl⟩ := success
  generalize compressor.archiveHeader _ n groups.length 0 0 0 = placeholder at header
  have front : afterDictionary.bytes =
      (frontMatter compressor encryption placeholder).bytes ext.toHashing := by
    rw [dictionary, encHeader, header, frontMatter_bytes, List.append_assoc]
    rfl
  refine ⟨rfl, rfl, encrypted, fileCount, groupCount, placeholder, fileTable, table, ?_, ?_, ?_⟩
  · dsimp only
    rw [groupTable, files, front]
  · exact afterDictionary.toNat_position.trans (congrArg List.length front)
  · refine afterFiles.toNat_position.trans (congrArg List.length ?_)
    rw [files, front]

/-! ## Closing -/

/-- The parts of a finished archive. -/
def layoutOf (compressor : Compressor σ) (opened : Opened n) (writer : BlockWriter n)
    (solidGroupEntries : List SolidGroupEntry) (fileTable body : Bytes) : Layout where
  toFrontMatter := frontMatter compressor opened.encryptionState
    (compressor.archiveHeader opened.usePathPrefixes n opened.solidGroupEntries.length
      writer.blockIdCounter opened.fileTableOffset writer.output.position)
  fileEntries := List.ofFn writer.fileEntries
  solidGroups := solidGroupEntries
  tables := fileTable ++ solidGroupEntries.flatMap SolidGroupEntry.writeTo
  body := body
  blockIndex := writer.allBlockIndices

/-- **Patching the header and the tables leaves everything else in place.** -/
theorem closeArchive_spec {groups : List (SolidGroup n)} {fileEntries : Fin n → FileEntry}
    {opened : Opened n} (openedFor : OpenedFor ext compressor groups fileEntries opened)
    {writer : BlockWriter n} {body : Bytes}
    (blocks : writer.output.bytes = opened.output.bytes ++ body)
    (same : ∀ idx, SameFile (opened.fileEntries idx) (writer.fileEntries idx))
    {solidGroupEntries : List SolidGroupEntry}
    (groupCount : solidGroupEntries.length = opened.solidGroupEntries.length) {output : Output}
    (success : compressor.closeArchive ext opened writer solidGroupEntries = .ok output) :
    ∃ fileTable,
      writeFileTable opened.usePathPrefixes (List.ofFn writer.fileEntries) "" = .ok fileTable ∧
        output.bytes =
          (layoutOf compressor opened writer solidGroupEntries fileTable body).archive
            ext.toHashing ∧
        opened.output.bytes.length =
          ((layoutOf compressor opened writer solidGroupEntries fileTable body).toFrontMatter.bytes
            ext.toHashing).length +
          (layoutOf compressor opened writer solidGroupEntries fileTable body).tables.length ∧
        opened.fileTableOffset.toNat =
          ((layoutOf compressor opened writer solidGroupEntries fileTable body).toFrontMatter.bytes
            ext.toHashing).length := by
  simp only [closeArchive, Result.bind_eq_ok, writeAll_eq_ok, seekWriteAll_eq_ok] at success
  obtain ⟨indexed, index, footed, footer, headed, header, fileTable, table, filed, files,
    groupsPatch⟩ :=
    success
  obtain ⟨placeholder, firstTable, firstWritten, opening, tableOffset, groupOffset⟩ :=
    openedFor.tables
  have sameTable : fileTable.length = firstTable.length := by
    refine (length_writeFileTable_congr ?_ firstWritten table).symm
    rw [List.forall₂_iff_get]
    refine ⟨by simp only [List.length_ofFn], fun i _ _ => ?_⟩
    rw [List.get_ofFn, List.get_ofFn]
    exact same _
  have sameGroups : (solidGroupEntries.flatMap SolidGroupEntry.writeTo).length =
      (opened.solidGroupEntries.flatMap SolidGroupEntry.writeTo).length := by
    rw [length_groupTable, length_groupTable, groupCount]
  change footed.bytes = indexed.bytes ++ (layoutOf compressor opened writer solidGroupEntries
    fileTable body).footer.writeTo ext.toHashing at footer
  dsimp only [layoutOf, Layout.archive, Layout.afterTables, Layout.indexBytes] at footer ⊢
  generalize compressor.archiveHeader opened.usePathPrefixes n opened.solidGroupEntries.length
    writer.blockIdCounter opened.fileTableOffset writer.output.position = final
      at header footer ⊢
  have sameHeader : (final.writeTo ext.toHashing).length =
      (placeholder.writeTo ext.toHashing).length := by
    rw [ArchiveHeader.length_writeTo, ArchiveHeader.length_writeTo]
  rw [frontMatter_bytes] at opening tableOffset groupOffset ⊢
  generalize (opened.encryptionState.elim [] fun state => state.1.writeTo) ++
    (compressor.dictionary.elim [] fun dict => dict.hash.1) = between
      at opening tableOffset groupOffset ⊢
  refine ⟨fileTable, table, ?_, ?_, ?_⟩
  · rw [groupsPatch, groupOffset, files, tableOffset, header, footer, index, blocks, opening]
    simp only [List.append_assoc]
    exact overwrite_three between _ sameHeader sameTable sameGroups
  · rw [opening]
    simp only [List.length_append, sameHeader, sameTable, sameGroups, Nat.add_assoc]
  · rw [tableOffset]
    simp only [List.length_append, sameHeader]

/-! ## The whole archive -/

/-- An entry that differs from a scanned one in its group and its blocks at most. -/
def Describes (scanned entry : FileEntry) : Prop :=
  entry =
    { scanned with
      solidGroupId := entry.solidGroupId
      chunkStartIdx := entry.chunkStartIdx
      chunkCount := entry.chunkCount }

/-- An entry with its group assigned still describes its file. -/
theorem SameFile.describes {scanned assigned entry : FileEntry} (same : SameFile assigned entry)
    (grouped : assigned = { scanned with solidGroupId := assigned.solidGroupId }) :
    Describes scanned entry := by
  rw [SameFile] at same
  rw [Describes, same, grouped]

/-- Grouping does not change what files are told apart by. -/
theorem fileKey_assignGroups (groups : List (SolidGroup n)) (fileEntries : Fin n → FileEntry) :
    fileKey (assignGroups groups fileEntries) = fileKey fileEntries := by
  funext idx
  rw [fileKey, assignGroups_same]
  rfl

/-- What an archive was written from: the blocks with their chunks, and the layout they have. -/
structure Wrote (ext : WriterExternals) (compressor : Compressor σ)
    (files : List (ScannedFile ext.arith.double)) (encryption : EncryptionState)
    (baseline : Option Bytes) (usePathPrefixes : Bool) (layout : Layout)
    (written : List WrittenBlock) : Prop where
  keyed : compressor.encryptionState ext = .ok encryption
  coded : compressor.encodeBaseline = .ok baseline
  front : layout.toFrontMatter = frontMatter compressor encryption layout.header
  header : layout.header = compressor.archiveHeader usePathPrefixes files.length
    layout.solidGroups.length layout.header.blockCount layout.header.fileTableOffset
    layout.header.blockIndexOffset
  fileTable : ∃ fileTable, writeFileTable usePathPrefixes layout.fileEntries "" = .ok fileTable ∧
    layout.tables = fileTable ++ layout.solidGroups.flatMap SolidGroupEntry.writeTo
  body : layout.body = (storedBlocks written).flatMap (StoredBlock.bytes ext.toHashing)
  blockIndex : layout.blockIndex = (indexFrom ext.toHashing
    ((layout.toFrontMatter.bytes ext.toHashing).length + layout.tables.length)
    (storedBlocks written)).map wholeBlock
  fits : ∀ i (inside : i < written.length), written[i].Fits ext encryption i
  fileCount : layout.header.fileCount.toNat = files.length
  groupCount : layout.header.solidGroupCount.toNat = layout.solidGroups.length
  blockCount : layout.header.blockCount.toNat = written.length
  fileTableOffset :
    layout.header.fileTableOffset.toNat = (layout.toFrontMatter.bytes ext.toHashing).length
  blockIndexOffset : layout.header.blockIndexOffset.toNat =
    (layout.toFrontMatter.bytes ext.toHashing).length +
      (layout.tables.length + layout.body.length)
  groupIds : layout.solidGroups.map SolidGroupEntry.groupId =
    (List.range layout.solidGroups.length).map UInt32.ofNat
  consecutive : Consecutive 0 layout.solidGroups written.length
  groupBlocks : ∀ group ∈ layout.solidGroups, ∀ i (inside : i < written.length),
    group.firstBlockIdx.toNat ≤ i → i < group.firstBlockIdx.toNat + group.blockCount.toNat →
      written[i].groupId = group.groupId
  entryCount : layout.fileEntries.length = files.length
  ranges : ∀ idx : Fin files.length, ∃ entry, layout.fileEntries[idx.1]? = some entry ∧
    Describes files[idx].entry entry ∧
    ∃ group ∈ layout.solidGroups, group.groupId = entry.solidGroupId ∧
      ∃ chunks,
        ChunksOf ext compressor (fun idx => files[idx].entry) (fun idx => files[idx].data)
          baseline idx chunks ∧
        FileRange written group.firstBlockIdx.toNat
          (group.firstBlockIdx.toNat + group.blockCount.toNat) entry chunks

/-- **The entries of a written archive are those of the files**, in their order. -/
theorem Wrote.describes {files : List (ScannedFile ext.arith.double)} {encryption : EncryptionState}
    {baseline : Option Bytes} {usePathPrefixes : Bool} {layout : Layout}
    {written : List WrittenBlock}
    (wrote : Wrote ext compressor files encryption baseline usePathPrefixes layout written) :
    List.Forall₂ (fun file entry => Describes file.entry entry) files layout.fileEntries := by
  rw [List.forall₂_iff_get]
  refine ⟨wrote.entryCount.symm, fun i inside entryInside => ?_⟩
  obtain ⟨entry, lookedUp, describes, -⟩ := wrote.ranges ⟨i, inside⟩
  obtain rfl := Option.some.inj ((List.getElem?_eq_getElem entryInside).symm.trans lookedUp)
  exact describes

/-- What an archive was written from, with the files its blocks were made for: no file twice, and
all blocks in their order. -/
structure WroteFrom (ext : WriterExternals) (compressor : Compressor σ)
    (files : List (ScannedFile ext.arith.double)) (encryption : EncryptionState)
    (baseline : Option Bytes) (usePathPrefixes : Bool) (layout : Layout)
    (written : List WrittenBlock) (owned : List (Fin files.length × List CompressedChunk)) :
    Prop extends
    Wrote ext compressor files encryption baseline usePathPrefixes layout written where
  owners : (owned.map Prod.fst).Nodup
  matched : ∀ owner ∈ owned, ChunksOf ext compressor (fun idx => files[idx].entry)
    (fun idx => files[idx].data) baseline owner.1 owner.2
  made : written.map WrittenBlock.compressed = owned.flatMap Prod.snd
  groups : layout.solidGroups.length =
    (Grouper.groupFiles fun idx : Fin files.length => files[idx].info).length

/-- The groups as the tables list them, with what was compressed for each. -/
theorem zip_solidGroupEntry {groups : List (SolidGroup n)}
    {results : List (List (CompressedFileBlocks n))}
    {relation : SolidGroup n → List (CompressedFileBlocks n) → Prop}
    (related : List.Forall₂ relation groups results) :
    List.Forall₂ (fun group pair => pair.1 = solidGroupEntry group ∧ relation group pair.2) groups
      ((groups.map solidGroupEntry).zip results) := by
  induction related with
  | nil => exact .nil
  | cons here _ recurse => exact .cons ⟨rfl, here⟩ recurse

/-- No file is in two groups. -/
theorem pairwise_disjoint_groupFiles {format : FloatFormat} (files : Fin n → FileInfo format) :
    (Grouper.groupFiles files).Pairwise fun first second =>
      List.Disjoint first.fileIndices second.fileIndices :=
  (List.nodup_flatMap.mp
    (Grouper.groupFiles_perm.nodup_iff.mpr (List.nodup_finRange n))).2

/-- The entries that are written name the groups in their order. -/
theorem map_groupId_written {groups : List (SolidGroup n)} {written : List WrittenBlock}
    {Matches : Fin n → List CompressedChunk → Prop} {fileEntries : Fin n → FileEntry}
    {pairs : List (SolidGroupEntry × List (CompressedFileBlocks n))}
    {entries : List SolidGroupEntry}
    (paired : List.Forall₂ (fun group pair => pair.1 = solidGroupEntry group) groups pairs)
    (done : List.Forall₂ (GroupWritten Matches written fileEntries) pairs entries) :
    groups.map SolidGroup.groupId = entries.map SolidGroupEntry.groupId := by
  apply (paired.comp done).map_eq_map
  rintro group entry ⟨pair, described, done⟩
  rw [done.same, described]
  rfl

omit [ProbabilityPredictor σ] in
/-- What is compressed for a file is the same whether groups are assigned to the files or not. -/
theorem OpenedFor.chunksOf {groups : List (SolidGroup n)} {fileEntries : Fin n → FileEntry}
    {opened : Opened n} (openedFor : OpenedFor ext compressor groups fileEntries opened)
    {fileDatas : Fin n → Bytes} {baseline : Option Bytes} {idx : Fin n}
    {chunks : List CompressedChunk}
    (chunksOf : ChunksOf ext compressor opened.fileEntries fileDatas baseline idx chunks) :
    ChunksOf ext compressor fileEntries fileDatas baseline idx chunks := by
  obtain ⟨type, source, key, compresses⟩ := chunksOf
  refine ⟨type, source, ?_, compresses⟩
  rw [← fileKey_assignGroups groups, ← openedFor.fileEntries]
  exact key

/-- **What the writer writes**, for any files. -/
theorem compressScanned_from {files : List (ScannedFile ext.arith.double)}
    {stats : CompressionStats} {output : Output}
    (success : compressor.compressScanned ext files = .ok (stats, output)) :
    ∃ encryption baseline usePathPrefixes layout written owned,
      WroteFrom ext compressor files encryption baseline usePathPrefixes layout written owned ∧
        output.bytes = layout.archive ext.toHashing := by
  simp only [compressScanned, Result.bind_eq_ok, Result.pure_eq_ok] at success
  obtain ⟨opened, opens, baseline, coded, results, compressed, ⟨writer, entries⟩, blocks, closed,
    closes, ended⟩ := success
  obtain ⟨-, rfl⟩ := Prod.mk.inj ended
  have openedFor := openArchive_spec opens
  have apart := pairwise_disjoint_groupFiles fun idx : Fin files.length => files[idx].info
  generalize grouped : (Grouper.groupFiles fun idx : Fin files.length => files[idx].info) = groups
    at openedFor compressed apart
  have pairs := zip_solidGroupEntry (compressGroups_spec compressed)
  rw [← openedFor.solidGroupEntries] at pairs
  have indices : groups.map SolidGroup.fileIndices =
      (opened.solidGroupEntries.zip results).map fun pair =>
        pair.2.map CompressedFileBlocks.fileIdx :=
    pairs.map_eq_map fun group pair paired => paired.2.1.symm
  have start : Progress ext opened.encryptionState opened.output.bytes
      { output := opened.output, fileEntries := opened.fileEntries, allBlockIndices := []
        blockIdCounter := 0, globalChunkIdx := 0, compressedSize := 0 } [] :=
    ⟨(List.append_nil _).symm, rfl, rfl, by norm_num, fun i inside => absurd inside i.not_lt_zero⟩
  obtain ⟨written, made, finished, consecutive, groupsWritten, same, -⟩ :=
    writeGroups_spec start rfl (fun pair member => (pairs.exists_left member).elim
      fun group paired => paired.2.2.2) (by
        rw [← List.pairwise_map (f := fun pair : SolidGroupEntry × List (CompressedFileBlocks _) =>
          pair.2.map CompressedFileBlocks.fileIdx) (R := List.Disjoint), ← indices,
          List.pairwise_map]
        exact apart) blocks
  rw [List.nil_append] at finished consecutive groupsWritten
  have groupCount : groups.length = opened.solidGroupEntries.length := by
    rw [openedFor.solidGroupEntries, List.length_map]
  have entryCount : entries.length = opened.solidGroupEntries.length := by
    rw [← groupsWritten.length_eq, ← pairs.length_eq, groupCount]
  obtain ⟨fileTable, table, bytes, opening, tableOffset⟩ :=
    closeArchive_spec openedFor finished.output same entryCount closes
  have described : ∀ idx, SameFile (assignGroups groups (fun idx => files[idx].entry) idx)
      (writer.fileEntries idx) := fun idx => openedFor.fileEntries ▸ same idx
  have numbers : entries.map SolidGroupEntry.groupId =
      (List.range entries.length).map UInt32.ofNat := by
    have numbered := @Grouper.map_groupId_groupFiles _ _ fun idx => files[idx].info
    rw [grouped] at numbered
    have described := map_groupId_written (pairs.imp fun _ _ paired => paired.1) groupsWritten
    rw [← described, numbered, groupCount, entryCount]
  let fileResults := (opened.solidGroupEntries.zip results).flatMap Prod.snd
  have owning : fileResults.map CompressedFileBlocks.fileIdx =
      groups.flatMap SolidGroup.fileIndices := by
    rw [List.flatMap_def, List.map_flatMap, List.flatMap_def, ← indices]
  refine ⟨opened.encryptionState, baseline, opened.usePathPrefixes, _, written,
    owners fileResults,
    { keyed := openedFor.encryption, coded, front := rfl, header := ?_
      fileTable := ⟨fileTable, table, rfl⟩, body := rfl, blockIndex := ?_, fits := finished.fits
      fileCount := UInt32.toNat_ofNat_of_lt' openedFor.fileCount, groupCount := ?_
      blockCount := finished.toNat_counter, fileTableOffset := tableOffset, blockIndexOffset := ?_
      groupIds := numbers, consecutive, groupBlocks := ?_, entryCount := List.length_ofFn
      ranges := ?_, owners := ?_, matched := ?_, made := ?_
      groups := grouped ▸ entryCount.trans groupCount.symm }, bytes⟩
  · dsimp only [layoutOf, frontMatter]
    rw [entryCount]
    rfl
  · rw [← opening]
    exact finished.index
  · dsimp only [layoutOf, frontMatter, archiveHeader]
    rw [entryCount]
    exact UInt32.toNat_ofNat_of_lt' (groupCount ▸ openedFor.groupCount)
  · rw [← Nat.add_assoc, ← opening]
    refine writer.output.toNat_position.trans ?_
    rw [finished.output, List.length_append]
    rfl
  · intro entry member
    obtain ⟨pair, -, done⟩ := groupsWritten.exists_left member
    exact done.groupIds
  · intro idx
    obtain ⟨group, among, member⟩ := List.mem_flatMap.mp
      ((grouped ▸ Grouper.groupFiles_perm).mem_iff.mpr (List.mem_finRange idx))
    obtain ⟨entry, entryAmong, pair, ⟨noted, indices, -⟩, done⟩ :=
      (pairs.comp groupsWritten).exists_right among
    obtain ⟨chunks, chunksOf, range⟩ := done.ranges idx (indices ▸ member)
    refine ⟨writer.fileEntries idx, ?_, ?_, entry, entryAmong, ?_, chunks,
      openedFor.chunksOf chunksOf, range⟩
    · dsimp only [layoutOf]
      rw [List.getElem?_ofFn, dif_pos idx.2]
    · exact (described idx).describes (assignGroups_same groups _ idx)
    · have assigned : (writer.fileEntries idx).solidGroupId = group.groupId := by
        rw [described idx]
        exact solidGroupId_assignGroups apart _ among member
      rw [assigned, done.same, noted]
      rfl
  · refine (sublist_owners fileResults).nodup ?_
    rw [owning]
    exact (grouped ▸ Grouper.groupFiles_perm).nodup_iff.mpr (List.nodup_finRange _)
  · intro owner among
    obtain ⟨fb, member, unshared, rfl⟩ := mem_owners among
    obtain ⟨pair, paired, inside⟩ := List.mem_flatMap.mp member
    obtain ⟨group, -, -, -, result⟩ := pairs.exists_left paired
    exact openedFor.chunksOf (result.own inside unshared)
  · rw [made, flatMap_owners, List.flatMap_assoc]

/-- **What the writer leaves, if it succeeds.** -/
theorem compressScanned_spec {files : List (ScannedFile ext.arith.double)}
    {stats : CompressionStats} {output : Output}
    (success : compressor.compressScanned ext files = .ok (stats, output)) :
    ∃ encryption baseline usePathPrefixes layout written,
      Wrote ext compressor files encryption baseline usePathPrefixes layout written ∧
        output.bytes = layout.archive ext.toHashing := by
  obtain ⟨encryption, baseline, usePathPrefixes, layout, written, owned, wrote, bytes⟩ :=
    compressScanned_from success
  exact ⟨encryption, baseline, usePathPrefixes, layout, written, wrote.toWrote, bytes⟩

end Compressor

end AetherArch
