import AetherArch.Pipeline.WrittenArchive

/-! # Tables a reader refuses

The writer stores any path. A reader that comes to an unsafe one in a file table refuses the
table, so an archive that can be read lists safe paths only.
-/

namespace AetherArch

open ByteReader (Reads)
open Reader

/-- A reader fails in front of any stream. -/
def Refuses {α : Type} (reader : Reader α) (bytes : Bytes) : Prop :=
  ∀ rest result, reader (bytes ++ rest) ≠ .ok result

section

variable {α β : Type} {first : Reader α} {next : α → Reader β} {bytes more : Bytes} {value : α}

/-- What comes after something that is read can be refused. -/
theorem Reads.bind_refuses (reads : Reads first bytes value) (refuses : Refuses (next value) more) :
    Refuses (first >>= next) (bytes ++ more) := by
  intro rest result success
  rw [List.append_assoc, ByteReader.bind_eq_ok] at success
  obtain ⟨found, after, read, later⟩ := success
  obtain ⟨rfl, rfl⟩ := Prod.mk.inj (Except.ok.inj ((reads _).symm.trans read))
  exact refuses rest result later

theorem Reads.nil_bind_refuses (reads : Reads first [] value)
    (refuses : Refuses (next value) bytes) : Refuses (first >>= next) bytes :=
  Reads.bind_refuses reads refuses

theorem refuses_lift_bind {result : Result α} {error : AetherError}
    (fails : result = .error error) : Refuses (ByteReader.lift result >>= next) bytes := by
  intro rest after success
  obtain ⟨value, between, lifted, -⟩ := ByteReader.bind_eq_ok.mp success
  rw [ByteReader.lift_eq_ok, fails] at lifted
  cases lifted.1

end

/-! ## Entries -/

namespace FileEntry

variable {entry : FileEntry} (short : (asBytes entry.path).length ≤ MAX_PATH_LENGTH)
  (unsafePath : isUnsafePath entry.path = true)

include short unsafePath

/-- **An entry with an unsafe path is refused.** -/
theorem refuses_writeTo : Refuses readFrom entry.writeTo := by
  have limit : MAX_PATH_LENGTH = 4096 := rfl
  have length : (UInt16.ofNat (asBytes entry.path).length).toNat = (asBytes entry.path).length := by
    rw [UInt16.toNat_ofNat', Nat.mod_eq_of_lt (by omega)]
  have parsed : parsePath (asBytes entry.path) = .error (.pathTraversal entry.path) := by
    simp only [parsePath, fromUtf8_asBytes, unsafePath, ↓reduceIte]
  simp only [writeTo, List.append_assoc]
  refine Reads.bind_refuses (reads_readU16 _) ?_
  refine Reads.nil_bind_refuses (reads_failIf _ (by rw [length]; exact not_lt.mpr short)) ?_
  refine Reads.bind_refuses (reads_readExact ⟨asBytes entry.path, length.symm⟩) ?_
  exact refuses_lift_bind parsed

theorem refuses_writePrefixed {previousPath : String} {bytes : Bytes}
    (written : entry.writePrefixed previousPath = .ok bytes) :
    Refuses (readPrefixed previousPath) bytes := by
  obtain ⟨inPath, inPrevious, same, boundary⟩ := entry.sharedPrefixLen_spec previousPath
  have limit : MAX_PATH_LENGTH = 4096 := rfl
  simp only [writePrefixed, Result.bind_eq_ok, Result.failIf_eq_ok, Result.pure_eq_ok] at written
  obtain ⟨_, prefixFits, _, suffixFits, rfl⟩ := written
  set prefixLen := entry.sharedPrefixLen previousPath
  set suffix := (asBytes entry.path).drop prefixLen with suffixDef
  have prefixNat : (UInt16.ofNat prefixLen).toNat = prefixLen := by
    rw [UInt16.toNat_ofNat', Nat.mod_eq_of_lt (by omega)]
  have suffixNat : (UInt16.ofNat suffix.length).toNat = suffix.length := by
    rw [UInt16.toNat_ofNat', Nat.mod_eq_of_lt (by omega)]
  have path : (asBytes previousPath).take prefixLen ++ suffix = asBytes entry.path := by
    rw [same, suffixDef, List.take_append_drop]
  have total : prefixLen + suffix.length = (asBytes entry.path).length := by
    rw [suffixDef, List.length_drop]
    omega
  simp only [List.append_assoc]
  refine Reads.bind_refuses (reads_readU16 _) ?_
  refine Reads.bind_refuses (reads_readU16 _) ?_
  refine Reads.nil_bind_refuses (reads_failIf _ ?_) ?_
  · rw [prefixNat, suffixNat, boundary, total]
    simp only [not_true_eq_false, false_or, not_or, not_lt]
    exact ⟨inPrevious, short⟩
  refine Reads.bind_refuses (reads_readExact ⟨suffix, suffixNat.symm⟩) ?_
  intro rest result success
  obtain ⟨_, _, read, canonical⟩ := ByteReader.bind_eq_ok.mp success
  have fixed := reads_readExact ⟨entry.fixedFields, entry.length_fixedFields⟩ rest
  obtain ⟨rfl, rfl⟩ := Prod.mk.inj (Except.ok.inj (fixed.symm.trans read))
  simp only [prefixNat, path] at canonical
  obtain ⟨parsed, -⟩ := ByteReader.lift_eq_ok.mp canonical
  -- The rewritten entry is the plain one, which is refused.
  cases plain : readFrom (entry.writeTo ++ []) with
  | error error =>
      rw [List.append_nil, writeTo] at plain
      rw [plain] at parsed
      cases parsed
  | ok found => exact refuses_writeTo short unsafePath [] found plain

theorem refuses_writeEntry {isPrefixed : Bool} {previousPath : String} {bytes : Bytes}
    (written : entry.writeEntry isPrefixed previousPath = .ok bytes) :
    Refuses (readEntry isPrefixed previousPath) bytes := by
  cases isPrefixed with
  | true => exact refuses_writePrefixed short unsafePath written
  | false =>
      cases written
      exact refuses_writeTo short unsafePath

end FileEntry

/-! ## Tables -/

/-- **A table that is read lists safe paths.** -/
theorem safe_of_readFileTable {isPrefixed : Bool} {entries found : List FileEntry}
    {previousPath : String} {bytes rest after : Bytes}
    (short : ∀ entry ∈ entries, (asBytes entry.path).length ≤ MAX_PATH_LENGTH)
    (written : writeFileTable isPrefixed entries previousPath = .ok bytes)
    (read : readFileTable isPrefixed entries.length previousPath (bytes ++ rest) =
      .ok (found, after)) :
    ∀ entry ∈ entries, FileEntry.isUnsafePath entry.path = false := by
  induction entries generalizing previousPath bytes found after with
  | nil => exact fun _ member => absurd member List.not_mem_nil
  | cons entry entries recurse =>
      obtain ⟨shortHere, shortLater⟩ := List.forall_mem_cons.mp short
      simp only [writeFileTable, Result.bind_eq_ok, Result.pure_eq_ok] at written
      obtain ⟨first, writtenFirst, others, writtenOthers, rfl⟩ := written
      rw [List.append_assoc, List.length_cons, readFileTable, ByteReader.bind_eq_ok] at read
      obtain ⟨here, between, readHere, readLater⟩ := read
      cases safety : FileEntry.isUnsafePath entry.path with
      | true =>
          exact absurd readHere (FileEntry.refuses_writeEntry shortHere safety writtenFirst _ _)
      | false =>
          have back := FileEntry.reads_writeEntry ⟨shortHere, safety⟩ writtenFirst
            (others ++ rest)
          obtain ⟨rfl, rfl⟩ := Prod.mk.inj (Except.ok.inj (back.symm.trans readHere))
          obtain ⟨_, _, readOthers, -⟩ := ByteReader.bind_eq_ok.mp readLater
          rw [show entry.masked.path = entry.path from rfl] at readOthers
          exact List.forall_mem_cons.mpr
            ⟨safety, recurse shortLater writtenOthers readOthers⟩

/-! ## Archives -/

namespace Compressor

variable {σ : Type} [ProbabilityPredictor σ] {ext : WriterExternals} {compressor : Compressor σ}
  {files : List (ScannedFile ext.arith.double)} {encryption : EncryptionState}
  {baseline : Option Bytes} {usePathPrefixes : Bool} {layout : Layout}
  {written : List WrittenBlock} {owned : List (Fin files.length × List CompressedChunk)}

/-- **A written archive that can be read has acceptable paths.** -/
theorem WroteFrom.accepted_of_read
    (wrote : WroteFrom ext compressor files encryption baseline usePathPrefixes layout written
      owned)
    (partitions : ext.fastCdc.Partitions) (bounded : ext.fastCdc.Bounded)
    (scanned : Scanned ext.toHashing files) (few : files.length ≤ MAX_FILE_COUNT.toNat)
    (short : ∀ file ∈ files, (asBytes file.entry.path).length ≤ MAX_PATH_LENGTH)
    {metadata : ArchiveMetadata}
    (read : SeekableRead ext.toExternals (layout.archive ext.toHashing) metadata) :
    ∀ file ∈ files, AcceptedPath file.entry.path := by
  have readable := wrote.readable_front partitions bounded scanned few
  -- The header and the footer that were read are those that were written.
  obtain ⟨_, _, _, headerRead, -⟩ := read.front
  obtain ⟨_, _, header, -⟩ := readable.readsAll ext.toHashing
    (layout.tables ++ layout.afterTables ext.toHashing)
  have sameHeader : metadata.header = layout.header :=
    (Prod.mk.inj (Except.ok.inj (headerRead.symm.trans header))).1
  obtain ⟨_, footerRead⟩ := read.footer
  have last : (layout.archive ext.toHashing).drop
      ((layout.archive ext.toHashing).length - ARCHIVE_FOOTER_SIZE) =
        layout.footer.writeTo ext.toHashing ++ [] := by
    have closes : layout.archive ext.toHashing = (layout.toFrontMatter.bytes ext.toHashing ++
        (layout.tables ++ (layout.body ++ layout.indexBytes))) ++
          layout.footer.writeTo ext.toHashing := by
      simp only [Layout.archive, Layout.afterTables, List.append_assoc]
    rw [closes, List.length_append, ArchiveFooter.length_writeTo, Nat.add_sub_cancel,
      List.drop_left, List.append_nil]
  rw [last] at footerRead
  have sameFooter : metadata.footer = layout.footer := (Prod.mk.inj (Except.ok.inj
    (footerRead.symm.trans (layout.footer.reads ext.toHashing [])))).1
  -- So the table is read where it was written.
  obtain ⟨_, _, tableRead, -⟩ := read.tables
  have located : (layout.archive ext.toHashing).drop layout.footer.fileTableOffset.toNat =
      layout.tables ++ layout.afterTables ext.toHashing := by
    dsimp only [Layout.footer]
    rw [wrote.fileTableOffset, Layout.archive, List.drop_left]
  have count : layout.footer.fileCount.toNat = layout.fileEntries.length :=
    wrote.fileCount.trans wrote.entryCount.symm
  obtain ⟨fileTable, tableWritten, tables⟩ := wrote.fileTable
  have prefixed : hasFlag layout.header.flags FLAG_PATH_PREFIXES = usePathPrefixes := by
    rw [wrote.flags, (hasFlag_flags usePathPrefixes).1]
  rw [sameHeader, sameFooter, prefixed, located, tables, List.append_assoc, count] at tableRead
  have paths : ∀ entry ∈ layout.fileEntries, ∃ file ∈ files, file.entry.path = entry.path := by
    intro entry member
    obtain ⟨i, inside, rfl⟩ := List.getElem_of_mem member
    have fileInside : i < files.length := wrote.entryCount ▸ inside
    obtain ⟨found, lookedUp, describes, -⟩ := wrote.ranges ⟨i, fileInside⟩
    obtain rfl := Option.some.inj ((List.getElem?_eq_getElem inside).symm.trans lookedUp)
    exact ⟨files[i], List.getElem_mem fileInside, (congrArg FileEntry.path describes).symm⟩
  have safe := safe_of_readFileTable (fun entry member => by
    obtain ⟨file, among, path⟩ := paths entry member
    rw [← path]
    exact short file among) tableWritten tableRead
  intro file member
  obtain ⟨i, inside, rfl⟩ := List.getElem_of_mem member
  have entryInside : i < layout.fileEntries.length := wrote.entryCount ▸ inside
  obtain ⟨found, lookedUp, describes, -⟩ := wrote.ranges ⟨i, inside⟩
  obtain rfl := Option.some.inj ((List.getElem?_eq_getElem entryInside).symm.trans lookedUp)
  have path : layout.fileEntries[i].path = files[i].entry.path := by
    rw [describes]
    rfl
  exact ⟨short _ member, path ▸ safe _ (List.getElem_mem entryInside)⟩

end Compressor

end AetherArch
