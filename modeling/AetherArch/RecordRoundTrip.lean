import AetherArch.Block
import AetherArch.Crypto
import AetherArch.Header

/-! # Records read back

Every record is read back from what it is written to, in front of any bytes.
-/

namespace AetherArch

open ByteReader (Reads reads_lift reads_pure)
open Reader

variable (hashing : Hashing)

/-- The archive header is read back. -/
theorem ArchiveHeader.reads (header : ArchiveHeader)
    (counts : checkCounts header.fileCount header.blockCount header.solidGroupCount = .ok ()) :
    Reads (readFrom hashing) (header.writeTo hashing) header := by
  simp only [writeTo, fields, List.append_assoc]
  refine (reads_readExact ⟨MAGIC, rfl⟩).bind ?_
  refine (reads_failIf _ fun wrong => wrong.1 rfl).nil_bind ?_
  refine (reads_readU16 _).bind ?_
  refine (reads_readU16 _).bind ?_
  refine (reads_lift (PredictorId.fromU16_toU16 _)).nil_bind ?_
  refine (reads_readU32 _).bind ?_
  refine (reads_readU32 _).bind ?_
  refine (reads_readU32 _).bind ?_
  refine (reads_readU64 _).bind ?_
  refine (reads_readU64 _).bind ?_
  refine (reads_readExact (header.computeBlake3Tag hashing)).bind_nil ?_
  refine (reads_failIf _ fun wrong => wrong rfl).nil_bind ?_
  exact (reads_lift counts).nil_bind (reads_pure _)

/-- The footer is read back. -/
theorem ArchiveFooter.reads (footer : ArchiveFooter) :
    Reads (readFrom hashing) (footer.writeTo hashing) footer := by
  simp only [writeTo, fields, List.append_assoc]
  refine (reads_readU64 _).bind ?_
  refine (reads_readU64 _).bind ?_
  refine (reads_readU32 _).bind ?_
  refine (reads_readU32 _).bind ?_
  refine (reads_readU32 _).bind ?_
  refine (reads_readU32 _).bind_nil ?_
  refine (reads_failIf _ fun wrong => wrong rfl).nil_bind ?_
  exact (reads_failIf _ fun wrong => wrong rfl).nil_bind (reads_pure _)

/-- A group entry is read back. -/
theorem SolidGroupEntry.reads (entry : SolidGroupEntry) : Reads readFrom entry.writeTo entry := by
  simp only [writeTo, List.append_assoc]
  refine (reads_readU32 _).bind ?_
  refine (reads_readU16 _).bind ?_
  refine (reads_lift (ContentType.fromU16_toU16 _)).nil_bind ?_
  refine (reads_readU16 _).bind ?_
  have method : CompressionMethod.fromU8 entry.compressionMethod.toU8.toUInt16.toUInt8 =
      .ok entry.compressionMethod := by
    rw [UInt8.toUInt8_toUInt16, CompressionMethod.fromU8_toU8]
  refine (reads_lift method).nil_bind ?_
  refine (reads_readU32 _).bind ?_
  refine (reads_readU32 _).bind ?_
  refine (reads_readU32 _).bind ?_
  exact (reads_readU32 _).bind_nil (reads_pure _)

/-- A block header is read back, wherever it stands. -/
theorem BlockHeader.reads (header : BlockHeader) (archiveOffset : Nat) :
    Reads (readFromAt hashing archiveOffset) (header.writeTo hashing) header := by
  have flag : decide ((if header.predictorStateFlag then (1 : UInt8) else 0) ≠ 0) =
      header.predictorStateFlag := by
    cases header.predictorStateFlag <;> rfl
  simp only [writeTo, fields, List.append_assoc]
  refine (reads_readU32 _).bind ?_
  refine (reads_failIf _ fun wrong => wrong rfl).nil_bind ?_
  refine (reads_readU32 _).bind ?_
  refine (reads_readU32 _).bind ?_
  refine (reads_readU8 _).bind ?_
  refine (reads_lift (CompressionMethod.fromU8_toU8 _)).nil_bind ?_
  refine (reads_readU8 _).bind ?_
  refine (reads_readU16 _).bind ?_
  refine (reads_readU32 _).bind ?_
  refine (reads_readU32 _).bind ?_
  refine (reads_readU32 _).bind_nil ?_
  rw [flag]
  exact (reads_failIf _ fun wrong => wrong rfl).nil_bind (reads_pure _)

/-- A block trailer is read back. -/
theorem BlockTrailer.reads (trailer : BlockTrailer) (blockId : UInt32) :
    Reads (readFromWithId hashing blockId) (trailer.writeTo hashing) trailer := by
  simp only [writeTo]
  refine (reads_readExact _).bind ?_
  refine (reads_readU32 _).bind_nil ?_
  exact (reads_failIf _ fun wrong => wrong rfl).nil_bind (reads_pure _)

/-- An index entry is read back. -/
theorem BlockIndexEntry.reads (entry : BlockIndexEntry) : Reads readFrom entry.writeTo entry := by
  simp only [writeTo, List.append_assoc]
  refine (reads_readU32 _).bind ?_
  refine (reads_readU64 _).bind ?_
  refine (reads_readU32 _).bind ?_
  refine (reads_readU32 _).bind ?_
  exact (reads_readU32 _).bind_nil (reads_pure _)

/-- An encryption header is read back. -/
theorem EncryptionHeader.reads (header : EncryptionHeader)
    (version : header.version = Crypto.HEADER_VERSION)
    (costs : validateArgon2Params header.mCost header.tCost header.pCost = .ok ()) :
    Reads readFrom header.writeTo header := by
  simp only [writeTo, List.append_assoc]
  refine (reads_readU8 _).bind ?_
  refine (reads_failIf _ fun wrong => wrong version).nil_bind ?_
  refine (reads_readU8 _).bind ?_
  refine (reads_lift (CipherId.fromU8_toU8 _)).nil_bind ?_
  refine (reads_readExact _).bind ?_
  refine (reads_readU32 _).bind ?_
  refine (reads_readU32 _).bind ?_
  refine (reads_readU32 _).bind ?_
  refine (reads_readExact _).bind ?_
  refine (reads_readExact _).bind_nil ?_
  exact (reads_lift costs).nil_bind (reads_pure _)

/-! ## File entries -/

/-- A path the readers take. -/
structure AcceptedPath (path : String) : Prop where
  short : (asBytes path).length ≤ MAX_PATH_LENGTH
  safe : FileEntry.isUnsafePath path = false

theorem AcceptedPath.parsePath {path : String} (accepted : AcceptedPath path) :
    FileEntry.parsePath (asBytes path) = .ok path := by
  simp only [FileEntry.parsePath, fromUtf8_asBytes, accepted.safe, Bool.false_eq_true, ↓reduceIte]

namespace FileEntry

/-- The entry as it is read back. -/
def masked (entry : FileEntry) : FileEntry :=
  { entry with permissions := entry.permissions &&& SAFE_PERMISSION_MASK }

variable {entry : FileEntry}

/-- The fixed fields of an entry are read back with masked permissions. -/
theorem reads_fixedFields (entry : FileEntry) :
    Reads (readFixedFields entry.path) entry.fixedFields entry.masked := by
  simp only [fixedFields, List.append_assoc]
  refine (reads_readU64 _).bind ?_
  refine (reads_readExact _).bind ?_
  refine (reads_readU32 _).bind ?_
  refine (reads_readU32 _).bind ?_
  refine (reads_readU32 _).bind ?_
  refine (reads_readU32 _).bind ?_
  refine (reads_readU64 _).bind_nil ?_
  rw [Int64.toInt64_toUInt64]
  exact reads_pure _

/-- Reading a path of a given length, then the fixed fields. -/
theorem reads_writeTo (accepted : AcceptedPath entry.path) :
    Reads readFrom entry.writeTo entry.masked := by
  have short := accepted.short
  have limit : MAX_PATH_LENGTH = 4096 := rfl
  have length : (UInt16.ofNat (asBytes entry.path).length).toNat = (asBytes entry.path).length := by
    rw [UInt16.toNat_ofNat', Nat.mod_eq_of_lt (by omega)]
  simp only [writeTo, List.append_assoc]
  refine (reads_readU16 _).bind ?_
  refine (reads_failIf _ (by rw [length]; exact not_lt.mpr short)).nil_bind ?_
  refine (reads_readExact ⟨asBytes entry.path, length.symm⟩).bind ?_
  exact (reads_lift accepted.parsePath).nil_bind entry.reads_fixedFields

/-! ### Prefix-compressed paths -/

/-- Paths agree up to their common prefix. -/
theorem take_commonPrefix (left right : Bytes) :
    left.take (commonPrefix left right) = right.take (commonPrefix left right) := by
  induction left generalizing right with
  | nil => cases right <;> rfl
  | cons byte left recurse =>
      cases right with
      | nil => rfl
      | cons other right =>
          rw [commonPrefix]
          split
          · rename_i same
            rw [List.take_succ_cons, List.take_succ_cons, recurse, same]
          · rfl

/-- The common prefix is no longer than either path. -/
theorem commonPrefix_le (left right : Bytes) :
    commonPrefix left right ≤ left.length ∧ commonPrefix left right ≤ right.length := by
  induction left generalizing right with
  | nil => cases right <;> exact ⟨Nat.zero_le _, Nat.zero_le _⟩
  | cons byte left recurse =>
      cases right with
      | nil => exact ⟨Nat.zero_le _, Nat.zero_le _⟩
      | cons other right =>
          rw [commonPrefix]
          split
          · exact ⟨Nat.succ_le_succ (recurse right).1, Nat.succ_le_succ (recurse right).2⟩
          · exact ⟨Nat.zero_le _, Nat.zero_le _⟩

/-- A boundary is searched downwards. -/
theorem boundaryBelow_le (path : String) (index : Nat) : boundaryBelow path index ≤ index := by
  induction index with
  | zero => exact le_rfl
  | succ index recurse =>
      rw [boundaryBelow]
      split
      · exact le_rfl
      · exact Nat.le_succ_of_le recurse

/-- A character starts at the boundary that is found. -/
theorem isCharBoundary_boundaryBelow (path : String) (index : Nat) :
    isCharBoundary path (boundaryBelow path index) = true := by
  induction index with
  | zero => exact isCharBoundary_zero path
  | succ index recurse =>
      rw [boundaryBelow]
      split
      · rename_i boundary
        exact boundary
      · exact recurse

variable (entry)

/-- The shared prefix lies inside both paths and ends between characters of both. -/
theorem sharedPrefixLen_spec (previousPath : String) :
    entry.sharedPrefixLen previousPath ≤ (asBytes entry.path).length ∧
      entry.sharedPrefixLen previousPath ≤ (asBytes previousPath).length ∧
      (asBytes previousPath).take (entry.sharedPrefixLen previousPath) =
        (asBytes entry.path).take (entry.sharedPrefixLen previousPath) ∧
      isCharBoundary previousPath (entry.sharedPrefixLen previousPath) = true := by
  have below := boundaryBelow_le entry.path
    (commonPrefix (asBytes entry.path) (asBytes previousPath))
  have inside := commonPrefix_le (asBytes entry.path) (asBytes previousPath)
  have whole := take_commonPrefix (asBytes entry.path) (asBytes previousPath)
  have same := congrArg (List.take (entry.sharedPrefixLen previousPath)) whole
  rw [List.take_take, List.take_take, sharedPrefixLen, Nat.min_eq_left below] at same
  exact ⟨below.trans inside.1, below.trans inside.2, same.symm,
    isCharBoundary_of_take_eq same (below.trans inside.2) (isCharBoundary_boundaryBelow _ _)⟩

variable {entry}

theorem length_fixedFields (entry : FileEntry) : entry.fixedFields.length = FIXED_FIELDS_SIZE := by
  simp only [fixedFields, List.length_append, length_writeU64, length_writeU32, entry.blake3Hash.2]
  rfl

/-- **A prefix-compressed entry is read back after the path it was written after.** -/
theorem reads_writePrefixed (accepted : AcceptedPath entry.path) {previousPath : String}
    {bytes : Bytes} (written : entry.writePrefixed previousPath = .ok bytes) :
    Reads (readPrefixed previousPath) bytes entry.masked := by
  obtain ⟨inPath, inPrevious, same, boundary⟩ := entry.sharedPrefixLen_spec previousPath
  have short := accepted.short
  have limit : MAX_PATH_LENGTH = 4096 := rfl
  simp only [writePrefixed, Result.bind_eq_ok, Result.failIf_eq_ok, Result.pure_eq_ok] at written
  obtain ⟨_, prefixFits, _, suffixFits, rfl⟩ := written
  set prefixLen := entry.sharedPrefixLen previousPath
  set suffix := (asBytes entry.path).drop prefixLen with suffixDef
  have prefixNat : (UInt16.ofNat prefixLen).toNat = prefixLen := by
    rw [UInt16.toNat_ofNat', Nat.mod_eq_of_lt (by omega)]
  have suffixNat : (UInt16.ofNat suffix.length).toNat = suffix.length := by
    rw [UInt16.toNat_ofNat', Nat.mod_eq_of_lt (by omega)]
  have path : (asBytes previousPath).take prefixLen ++ suffix = asBytes entry.path := by
    rw [same, suffixDef, List.take_append_drop]
  have total : prefixLen + suffix.length = (asBytes entry.path).length := by
    rw [suffixDef, List.length_drop]
    omega
  have canonical : readFrom (entry.writeTo ++ []) = .ok (entry.masked, []) :=
    reads_writeTo accepted []
  rw [List.append_nil, writeTo] at canonical
  simp only [List.append_assoc]
  refine (reads_readU16 _).bind ?_
  refine (reads_readU16 _).bind ?_
  refine (reads_failIf _ ?_).nil_bind ?_
  · rw [prefixNat, suffixNat, boundary, total]
    simp only [not_true_eq_false, false_or, not_or, not_lt]
    exact ⟨inPrevious, short⟩
  refine (reads_readExact ⟨suffix, suffixNat.symm⟩).bind ?_
  refine (reads_readExact ⟨entry.fixedFields, entry.length_fixedFields⟩).bind_nil ?_
  apply reads_lift
  simp only [prefixNat, path, canonical, Except.map]

/-- An entry is read back, with a prefix or without. -/
theorem reads_writeEntry (accepted : AcceptedPath entry.path) {isPrefixed : Bool}
    {previousPath : String} {bytes : Bytes}
    (written : entry.writeEntry isPrefixed previousPath = .ok bytes) :
    Reads (readEntry isPrefixed previousPath) bytes entry.masked := by
  cases isPrefixed with
  | true => exact reads_writePrefixed accepted written
  | false =>
      cases written
      exact reads_writeTo accepted

/-- An entry the reader takes as it is. -/
structure Readable (entry : FileEntry) : Prop where
  short : (asBytes entry.path).length ≤ MAX_PATH_LENGTH
  safe : isUnsafePath entry.path = false
  masked : entry.permissions &&& SAFE_PERMISSION_MASK = entry.permissions

theorem Readable.accepted (readable : entry.Readable) : AcceptedPath entry.path :=
  ⟨readable.short, readable.safe⟩

theorem Readable.masked_eq (readable : entry.Readable) : FileEntry.masked entry = entry := by
  rw [FileEntry.masked, readable.masked]

end FileEntry

/-! ## Tables -/

/-- **A file table is read back**, with permissions masked. -/
theorem reads_writeFileTable {isPrefixed : Bool} {entries : List FileEntry} {previousPath : String}
    {bytes : Bytes} (accepted : ∀ entry ∈ entries, AcceptedPath entry.path)
    (written : writeFileTable isPrefixed entries previousPath = .ok bytes) :
    Reads (readFileTable isPrefixed entries.length previousPath) bytes
      (entries.map FileEntry.masked) := by
  induction entries generalizing previousPath bytes with
  | nil =>
      cases written
      exact reads_pure []
  | cons entry entries recurse =>
      simp only [writeFileTable, Result.bind_eq_ok, Result.pure_eq_ok] at written
      obtain ⟨first, writtenFirst, rest, writtenRest, rfl⟩ := written
      refine (FileEntry.reads_writeEntry (accepted entry (List.mem_cons_self ..))
        writtenFirst).bind ?_
      exact (recurse (fun other member => accepted other (List.mem_cons_of_mem _ member))
        writtenRest).bind_nil (reads_pure _)

/-- A table of entries with masked permissions is read back as it is. -/
theorem reads_readFileTable {isPrefixed : Bool} {entries : List FileEntry} {previousPath : String}
    {bytes : Bytes} (readable : ∀ entry ∈ entries, entry.Readable)
    (written : writeFileTable isPrefixed entries previousPath = .ok bytes) :
    Reads (readFileTable isPrefixed entries.length previousPath) bytes entries := by
  have same : entries.map FileEntry.masked = entries.map id :=
    List.map_congr_left fun entry member => (readable entry member).masked_eq
  have read := reads_writeFileTable (fun entry member => (readable entry member).accepted) written
  rwa [same, List.map_id] at read

end AetherArch
