import AetherArch.Pipeline.WrittenArchive
import AetherArch.Server.Filenames

/-! # Forged tables of encrypted archives

The cipher seals the payload of each block with its number. Nothing seals the file table, so
whoever keeps the encryption header of an archive can put any table of empty files behind it: no
block is decrypted for them.
-/

namespace AetherArch

open Decompressor

/-- An entry of a file without content. -/
def forgedEntry (hashing : Hashing) (path : String) : FileEntry := plainEntry hashing path 0 [] 0 0

/-- A table of one empty file behind the front matter of an archive, and no blocks. -/
def FrontMatter.forge (hashing : Hashing) (front : FrontMatter) (path : String) (tables : Bytes) :
    Layout where
  header :=
    { front.header with
      fileCount := 1, solidGroupCount := 0, blockCount := 0
      blockIndexOffset := UInt64.ofNat ((front.bytes hashing).length + tables.length) }
  encryptionHeader := front.encryptionHeader
  dictionaryHash := front.dictionaryHash
  fileEntries := [forgedEntry hashing path]
  solidGroups := []
  tables := tables
  body := []
  blockIndex := []

/-- The forged archive. Its making needs no key. -/
def forgeArchive (hashing : Hashing) (front : FrontMatter) (path : String) : Result Bytes := do
  let tables ← writeFileTable (hasFlag front.header.flags FLAG_PATH_PREFIXES)
    [forgedEntry hashing path] ""
  return (front.forge hashing path tables).archive hashing

/-! ## Fresh paths -/

/-- A path for every number. -/
def forgedPath (number : Nat) : String := Server.fallbackName number

/-- Forged paths tell the paths apart. -/
theorem forgedPath_injective : Function.Injective forgedPath := by
  intro first second same
  have texts := congrArg String.toList same
  rw [forgedPath, forgedPath, Server.toList_fallbackName, Server.toList_fallbackName] at texts
  have digits := (List.cons.inj (List.append_cancel_left texts)).2
  rw [Nat.toString_eq_ofList_toDigits, Nat.toString_eq_ofList_toDigits, String.toList_ofList,
    String.toList_ofList] at digits
  rw [← @Nat.ofDigitChars_ten_toDigits first, digits, Nat.ofDigitChars_ten_toDigits]

/-- ASCII text takes one byte for each character. -/
theorem length_encode_of_ascii {text : List Char} (ascii : ∀ c ∈ text, c.toNat < 128) :
    (Utf8.encode text).length = text.length := by
  induction text with
  | nil => rfl
  | cons c text recurse =>
      rw [Utf8.encode_cons, List.length_append,
        Utf8.encodeChar_ascii (ascii c List.mem_cons_self),
        recurse fun other member => ascii other (List.mem_cons_of_mem c member)]
      rw [List.length_singleton, List.length_cons, Nat.add_comm]

/-- **The paths pass the validator.** -/
theorem validateExtractionPath_forgedPath {number : Nat} (small : number < 10 ^ 10) :
    validateExtractionPath (forgedPath number) = .ok () := by
  have safe := Server.safeName_fallbackName number
  refine Server.validateExtractionPath_safe safe ?_
  have limit : MAX_PATH_LENGTH = 4096 := rfl
  have digits : (toString number).toList.length ≤ 10 := by
    rw [Nat.toString_eq_ofList_toDigits, String.toList_ofList]
    exact (Nat.length_toDigits_le_iff (by decide) (by decide)).mpr small
  rw [asBytes_eq_encode, forgedPath, length_encode_of_ascii fun c member =>
    Server.ascii_of_isSafe (safe.safe c member), Server.toList_fallbackName, List.length_append,
    List.length_cons, limit]
  have name : "file".toList.length = 4 := rfl
  omega

/-- One of the paths is new. -/
theorem exists_forgedPath_notMem (paths : List String) :
    ∃ number ≤ paths.length, forgedPath number ∉ paths := by
  by_contra taken
  push Not at taken
  have inside : ((List.range (paths.length + 1)).map forgedPath) ⊆ paths := by
    intro path member
    obtain ⟨number, below, rfl⟩ := List.mem_map.mp member
    exact taken number (Nat.lt_succ_iff.mp (List.mem_range.mp below))
  have few := ((List.nodup_range.map forgedPath_injective).subperm inside).length_le
  rw [List.length_map, List.length_range] at few
  exact absurd few (Nat.not_succ_le_self _)

/-! ## What the forgery extracts to -/

/-- An empty file as it is extracted. -/
def forgedFile (path : String) : ExtractedFile where
  path := path
  data := []
  mtime := 0
  permissions := 0

/-- A forged entry is extracted as an empty file. -/
theorem extracted_forgedEntry {hashing : Hashing} {path : String}
    (valid : validateExtractionPath path = .ok ()) :
    extracted hashing [] (forgedEntry hashing path) = some (forgedFile path) := by
  have masked : (0 : UInt32) &&& SAFE_PERMISSION_MASK = 0 := by decide
  refine extracted_eq_some.mpr ⟨valid, [], intactContent_eq_some.mpr ⟨?_, rfl⟩, ?_⟩
  · exact fileContent_of_inside le_rfl
  · rw [extractedFile, forgedEntry, plainEntry, masked]
    rfl

section

variable {ext : Externals} {front : FrontMatter} {path : String} {tables : Bytes}

/-- A forged front has the length of the genuine one. -/
theorem length_forge_front (hashing : Hashing) :
    ((front.forge hashing path tables).toFrontMatter.bytes hashing).length =
      (front.bytes hashing).length := by
  simp only [FrontMatter.bytes, List.length_append, ArchiveHeader.length_writeTo]
  rfl

/-- A front is short. -/
theorem length_front_le (hashing : Hashing) : (front.bytes hashing).length ≤ 1000 := by
  have header : ARCHIVE_HEADER_SIZE = 48 := rfl
  have encryption : (front.encryptionHeader.elim [] EncryptionHeader.writeTo).length ≤ 90 := by
    cases front.encryptionHeader with
    | none => exact Nat.zero_le _
    | some encryptionHeader => exact (Compressor.length_encryptionHeader encryptionHeader).le
  have dictionary : (front.dictionaryHash.elim [] Subtype.val).length ≤ 32 := by
    cases front.dictionaryHash with
    | none => exact Nat.zero_le _
    | some hash => exact hash.2.le
  rw [FrontMatter.bytes, List.length_append, List.length_append, ArchiveHeader.length_writeTo,
    header]
  omega

/-- **The forgery is well formed** when its front is. -/
theorem FrontMatter.forge_tiled {hashing : Hashing}
    (readable : (front.forge hashing path tables).toFrontMatter.Readable)
    (written : writeFileTable (hasFlag front.header.flags FLAG_PATH_PREFIXES)
      [forgedEntry hashing path] "" = .ok tables)
    (accepted : AcceptedPath path)
    (fileTableOffset : front.header.fileTableOffset.toNat = (front.bytes hashing).length)
    (small : tables.length ≤ 5000) :
    (front.forge hashing path tables).Tiled hashing := by
  have length := @length_forge_front front path tables hashing
  have few := @length_front_le front hashing
  constructor
  · exact readable
  · refine ⟨⟨tables, written, (List.append_nil _).symm⟩, ?_⟩
    intro entry member
    rw [List.mem_singleton.mp member]
    exact accepted.readable _ _ _ _ _
  · rfl
  · rfl
  · rfl
  · rw [length]
    exact fileTableOffset
  · have fits : (front.bytes hashing).length + tables.length < UInt64.size :=
      (Nat.add_le_add few small).trans_lt (by decide)
    have body : (front.forge hashing path tables).body.length = 0 := rfl
    have table : (front.forge hashing path tables).tables = tables := rfl
    have position : (front.forge hashing path tables).header.blockIndexOffset =
        UInt64.ofNat ((front.bytes hashing).length + tables.length) := rfl
    rw [length, body, table, position, Nat.add_zero]
    exact UInt64.toNat_ofNat_of_lt' fits
  · exact List.nodup_nil
  · have body : (front.forge hashing path tables).body = [] := rfl
    have index : (front.forge hashing path tables).indexBytes = [] := rfl
    have table : (front.forge hashing path tables).tables = tables := rfl
    have footer : ARCHIVE_FOOTER_SIZE = 32 := rfl
    rw [Layout.archive, Layout.afterTables, body, index, table, List.nil_append, List.nil_append,
      List.length_append, List.length_append, ArchiveFooter.length_writeTo, length, footer]
    exact (Nat.add_le_add few (Nat.add_le_add_right small 32)).trans_lt (by decide)

/-- **Both readers extract the forged file** once the front unlocks. -/
theorem FrontMatter.forge_extracts {σ : Type} [ProbabilityPredictor σ] {self : Decompressor σ}
    (tiled : (front.forge ext.toHashing path tables).Tiled ext.toHashing)
    (valid : validateExtractionPath path = .ok ()) {key : Option DecryptKey}
    {baseline : Option Bytes}
    (unlocked : self.Unlocked ext front.header.flags front.encryptionHeader
      front.dictionaryHash key baseline) :
    self.extractAll ext ((front.forge ext.toHashing path tables).archive ext.toHashing) =
        .ok [forgedFile path] ∧
      self.extractAllStreaming ext
        ((front.forge ext.toHashing path tables).archive ext.toHashing) =
          .ok [forgedFile path] := by
  have written : (front.forge ext.toHashing path tables).fileEntries.mapM
      (extracted ext.toHashing []) = some [forgedFile path] := by
    have one : (front.forge ext.toHashing path tables).fileEntries =
        [forgedEntry ext.toHashing path] := rfl
    rw [one, List.mapM_cons, extracted_forgedEntry valid]
    rfl
  have sequential : self.isParallel (front.forge ext.toHashing path tables).metadata = false := by
    have none : (front.forge ext.toHashing path tables).metadata.blockIndex.length = 0 := rfl
    rw [isParallel, none]
    exact decide_eq_false fun several => absurd several.2 (Nat.not_lt_zero 1)
  constructor
  · refine extractAll_eq_ok.mpr ⟨_, key, baseline, [], ⟨tiled.seekableRead, unlocked, ?_, rfl, ?_,
      Nat.zero_le _⟩, written⟩
    · intro parallel
      exact absurd (sequential.symm.trans parallel) Bool.false_ne_true
    · rw [compressedTotal, sequential]
      exact Nat.zero_le _
  · exact extractAllStreaming_eq_ok.mpr ⟨_, key, baseline, [],
      ⟨⟨_, _, tiled.streamingRead, rfl⟩, unlocked, Nat.zero_le _, Nat.zero_le _⟩, written⟩

end

/-! ## Forging behind what the writer wrote -/

namespace Compressor

variable {σ : Type} [ProbabilityPredictor σ]

/-- A forgery made from the front of an archive: both readers extract the file it lists. -/
structure Forged (ext : Externals) (decompressor : Decompressor σ) (archive : Bytes)
    (front : FrontMatter) (path : String) (forged : Bytes) : Prop where
  copied : front.bytes ext.toHashing <+: archive
  encrypted : hasFlag front.header.flags FLAG_ENCRYPTED = true
  made : forgeArchive ext.toHashing front path = .ok forged
  seeks : decompressor.extractAll ext forged = .ok [forgedFile path]
  streams : decompressor.extractAllStreaming ext forged = .ok [forgedFile path]

variable {ext : WriterExternals} {compressor : Compressor σ}

/-- **The front of a written archive can be forged behind**, for any path the readers take. -/
theorem WroteFrom.forged {files : List (ScannedFile ext.arith.double)}
    {encryption : EncryptionState} {baseline : Option Bytes} {usePathPrefixes : Bool}
    {layout : Layout} {written : List WrittenBlock}
    {owned : List (Fin files.length × List CompressedChunk)}
    (wrote : WroteFrom ext compressor files encryption baseline usePathPrefixes layout written
      owned)
    (encrypted : compressor.encryptionConfig.isSome = true) {decompressor : Decompressor σ}
    (configured : ConfiguredFor compressor decompressor) {path : String}
    (valid : validateExtractionPath path = .ok ()) :
    ∃ forged, Forged ext.toExternals decompressor (layout.archive ext.toHashing)
      layout.toFrontMatter path forged := by
  have accepted := PlainArchive.acceptedPath_of_valid valid
  obtain ⟨tables, table, small⟩ := @writeFileTable_short
    (hasFlag layout.header.flags FLAG_PATH_PREFIXES) [forgedEntry ext.toHashing path]
    (fun entry member => List.mem_singleton.mp member ▸ accepted.short) ""
  rw [List.length_singleton, one_mul] at small
  have tiled : (layout.toFrontMatter.forge ext.toHashing path tables).Tiled ext.toHashing := by
    have counts : ArchiveHeader.checkCounts 1 0 0 = .ok () := by decide
    exact FrontMatter.forge_tiled (wrote.readable_of_counts rfl counts) table accepted
      wrote.fileTableOffset small
  obtain ⟨seeks, streams⟩ := FrontMatter.forge_extracts tiled valid (wrote.unlocked configured)
  refine ⟨_, ⟨⟨_, rfl⟩, ?_, ?_, seeks, streams⟩⟩
  · rw [wrote.flags, (hasFlag_flags usePathPrefixes).2.2, encrypted]
  · rw [forgeArchive, table]
    rfl

/-- The forgeries of what the writer wrote, with a path that is new. -/
theorem exists_forged {baseDir : UnixPath.Path} {inputs : List InputFile}
    {files : List (ScannedFile ext.arith.double)}
    (scans : scanFiles ext.toHashing ext.arith.double baseDir inputs 0 = .ok files)
    {stats : CompressionStats} {output : Output}
    (success : compressor.compressToArchive ext baseDir inputs = .ok (stats, output))
    (encrypted : compressor.encryptionConfig.isSome = true) {decompressor : Decompressor σ}
    (configured : ConfiguredFor compressor decompressor) :
    ∃ front path forged, Forged ext.toExternals decompressor output.bytes front path forged ∧
      path ∉ files.map fun file => file.entry.path := by
  obtain ⟨again, rescans, writes⟩ := Result.bind_eq_ok.mp success
  obtain rfl := Except.ok.inj (scans.symm.trans rescans)
  obtain ⟨encryption, baseline, usePathPrefixes, layout, written, owned, wrote, bytes⟩ :=
    compressScanned_from writes
  obtain ⟨number, small, fresh⟩ :=
    exists_forgedPath_notMem (files.map fun file => file.entry.path)
  rw [List.length_map, ← wrote.fileCount] at small
  have counted := layout.header.fileCount.toNat_lt
  obtain ⟨forged, forges⟩ := wrote.forged encrypted configured
    (@validateExtractionPath_forgedPath number (by omega))
  exact ⟨layout.toFrontMatter, forgedPath number, forged, bytes ▸ forges, fresh⟩

/-- **No encrypted archive is authentic.** Whatever the cipher, behind the front of every encrypted
archive a file can be forged that its key was never used for. -/
theorem encrypted_archive_forgeable (ext : WriterExternals) (compressor : Compressor σ)
    (encrypted : compressor.encryptionConfig.isSome = true) (decompressor : Decompressor σ)
    (configured : ConfiguredFor compressor decompressor) (baseDir : UnixPath.Path)
    (inputs : List InputFile) (files : List (ScannedFile ext.arith.double))
    (scans : scanFiles ext.toHashing ext.arith.double baseDir inputs 0 = .ok files)
    (stats : CompressionStats) (output : Output)
    (success : compressor.compressToArchive ext baseDir inputs = .ok (stats, output)) :
    ∃ front path forged, Forged ext.toExternals decompressor output.bytes front path forged ∧
      path ∉ files.map fun file => file.entry.path :=
  exists_forged scans success encrypted configured

/-- A reader with the password. -/
def referenceReader : Decompressor Order0Model where
  predictorFactory := .new
  dictionary := none
  password := some (asBytes "password")
  maxThreads := 0

theorem configuredFor_reference :
    ConfiguredFor (encrypting Order0Model.new (some referenceConfig)) referenceReader :=
  ⟨rfl, rfl, rfl⟩

/-- The encrypted archive of three text files, whose blocks have tags. -/
theorem encrypted_archive_forgeable_texts :
    ∃ (stats : CompressionStats) (output : Output) (front : FrontMatter) (path : String)
      (forged : Bytes),
      (encrypting Order0Model.new (some referenceConfig)).compressToArchive sealingWriter []
        threeTexts = .ok (stats, output) ∧
      Forged sealingWriter.toExternals referenceReader output.bytes front path forged ∧
      path ∉ ["a.txt", "b.txt", "c.txt"] := by
  obtain ⟨stats, output, success⟩ := compressToArchive_short
    (encryptionState_reference Order0Model.new) rfl sealingWriter_untroubled threeTexts_short
    (by decide)
  obtain ⟨front, path, forged, forges, fresh⟩ := encrypted_archive_forgeable sealingWriter _ rfl
    referenceReader configuredFor_reference [] threeTexts _ scanFiles_threeTexts stats output
      success
  exact ⟨stats, output, front, path, forged, success, forges, fresh⟩

/-! ## A cipher that opens nothing -/

/-- The sealing libraries with ciphers that never decrypt. -/
def closedWriter : WriterExternals :=
  { sealingWriter with
    aesGcm := { encrypt := sealingWriter.aesGcm.encrypt, decrypt := fun _ _ _ _ => none }
    chaCha := { encrypt := sealingWriter.chaCha.encrypt, decrypt := fun _ _ _ _ => none } }

/-- They never fail to seal. -/
theorem closedWriter_untroubled : Untroubled closedWriter none :=
  ⟨sealingWriter_untroubled.sound, sealingWriter_untroubled.compresses,
    sealingWriter_untroubled.seals, sealingWriter_untroubled.pools⟩

/-- **A forgery of an archive whose cipher opens no payload at all**: the only file of the archive
is another one. -/
theorem textFile_forged :
    (∀ key nonce ciphertext aad, closedWriter.aesGcm.decrypt key nonce ciphertext aad = none) ∧
      ∃ (stats : CompressionStats) (output : Output) (front : FrontMatter) (path : String)
        (forged : Bytes),
        (encrypting Order0Model.new (some referenceConfig)).compressToArchive closedWriter []
          [textFile "a.txt" "abc"] = .ok (stats, output) ∧
        front.bytes closedWriter.toHashing <+: output.bytes ∧
        forgeArchive closedWriter.toHashing front path = .ok forged ∧
        referenceReader.extractAll closedWriter.toExternals forged = .ok [forgedFile path] ∧
        referenceReader.extractAllStreaming closedWriter.toExternals forged =
          .ok [forgedFile path] ∧
        path ≠ "a.txt" := by
  have short : List.Forall₂ (ShortInput []) [textFile "a.txt" "abc"] ["a.txt"] :=
    .cons ⟨⟨_, rfl, by decide⟩, by decide, by decide⟩ .nil
  have keyed : (encrypting Order0Model.new (some referenceConfig)).encryptionState closedWriter =
      .ok (some (referenceHeader, referenceKey)) := encryptionState_reference Order0Model.new
  obtain ⟨stats, output, success⟩ :=
    compressToArchive_short keyed rfl closedWriter_untroubled short (by decide)
  have scans : scanFiles closedWriter.toHashing closedWriter.arith.double []
      [textFile "a.txt" "abc"] 0 = .ok [scannedText "a.txt" "abc"] := rfl
  obtain ⟨front, path, forged, forges, fresh⟩ :=
    exists_forged scans success rfl configuredFor_reference
  refine ⟨fun _ _ _ _ => rfl, stats, output, front, path, forged, success, forges.copied,
    forges.made, forges.seeks, forges.streams, ?_⟩
  rintro rfl
  exact fresh List.mem_cons_self

end Compressor

end AetherArch
