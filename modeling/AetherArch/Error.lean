import Mathlib.Data.List.Forall2

/-! # Errors

The error type of the library, with the text every variant displays.
-/

namespace AetherArch

/-- A sequence of bytes. -/
abbrev Bytes := List UInt8

/-- The kinds of input/output failure a reader reports. -/
inductive IoErrorKind where
  | unexpectedEof
  | invalidInput
  | other (message : String)
  deriving DecidableEq, Repr

/-- All errors that can occur within archive operations. -/
inductive AetherError where
  | invalidMagic
  | unsupportedVersion (major minor : Nat)
  | checksumMismatch (blockId : Nat) (expected actual : String)
  | headerCrcMismatch (expected actual : Nat)
  | blockCrcMismatch (blockId : Nat)
  | invalidBlockMagic (offset : Nat)
  | invalidFooterMagic
  | compression (message : String)
  | decompression (message : String)
  | encryption (message : String)
  | decryption (message : String)
  | predictor (message : String)
  | io (kind : IoErrorKind)
  | blockNotFound (blockIdx : Nat)
  | fileNotFound (path : String)
  | truncatedArchive (expected actual : Nat)
  | unknownCompressionMethod (value : Nat)
  | unknownPredictorId (value : Nat)
  | unknownContentType (value : Nat)
  | resourceLimitExceeded (message : String)
  | pathTraversal (message : String)
  | cloudStorage (message : String)
  | invalidCloudPath (message : String)
  | invalidCloudUrl (message : String)
  | nonceMismatch (blockId : Nat)
  | passwordVerificationFailed
  | invalidUtf8Path
  | headerIntegrityMismatch
  | fileAlreadyExists (path : String)
  deriving DecidableEq, Repr

/-- The result of a fallible operation. -/
abbrev Result := Except AetherError

namespace Result

@[simp] theorem ok_bind {ε α β : Type} (value : α) (next : α → Except ε β) :
    ((Except.ok value : Except ε α) >>= next) = next value := rfl

@[simp] theorem error_bind {ε α β : Type} (error : ε) (next : α → Except ε β) :
    ((Except.error error : Except ε α) >>= next) = .error error := rfl

/-- A sequence of two operations succeeds when both do. -/
theorem bind_eq_ok {ε α β : Type} {first : Except ε α} {next : α → Except ε β} {value : β} :
    (first >>= next) = .ok value ↔ ∃ between, first = .ok between ∧ next between = .ok value := by
  cases first with
  | ok between =>
      rw [ok_bind]
      constructor
      · intro success
        exact ⟨between, rfl, success⟩
      · rintro ⟨_, same, success⟩
        cases same
        exact success
  | error error =>
      rw [error_bind]
      constructor
      · intro success
        cases success
      · rintro ⟨_, same, _⟩
        cases same

theorem pure_eq_ok {ε α : Type} {value found : α} :
    (pure value : Except ε α) = .ok found ↔ value = found := by
  constructor
  · intro success
    exact Except.ok.inj success
  · rintro rfl
    rfl

theorem mapError_eq_ok {ε δ α : Type} {result : Except ε α} {rename : ε → δ} {value : α} :
    result.mapError rename = .ok value ↔ result = .ok value := by
  cases result with
  | error error =>
      constructor
      · intro success
        cases success
      · intro success
        cases success
  | ok found =>
      constructor
      · intro success
        cases success
        rfl
      · intro success
        cases success
        rfl

/-- A traversal succeeds when every step does. -/
theorem mapM_ok {α β : Type} {step : α → Result β} {image : α → β} {xs : List α}
    (steps : ∀ x ∈ xs, step x = .ok (image x)) : xs.mapM step = .ok (xs.map image) := by
  induction xs with
  | nil => rfl
  | cons x xs recurse =>
      rw [List.mapM_cons, steps x (List.mem_cons_self ..), ok_bind,
        recurse fun y member => steps y (List.mem_cons_of_mem _ member), ok_bind]
      rfl

/-- A traversal succeeds when it takes every value to its result. -/
theorem mapM_eq_ok {ε α β : Type} {step : α → Except ε β} {xs : List α} {ys : List β} :
    xs.mapM step = .ok ys ↔ List.Forall₂ (fun x y => step x = .ok y) xs ys := by
  induction xs generalizing ys with
  | nil =>
      rw [List.mapM_nil, List.forall₂_nil_left_iff, pure_eq_ok]
      exact eq_comm
  | cons x xs recurse =>
      simp only [List.mapM_cons, bind_eq_ok, pure_eq_ok, recurse, List.forall₂_cons_left_iff]
      constructor
      · rintro ⟨y, here, rest, later, rfl⟩
        exact ⟨y, rest, here, later, rfl⟩
      · rintro ⟨y, rest, here, later, rfl⟩
        exact ⟨y, here, rest, later, rfl⟩

/-- Fail with an error when something is wrong. -/
def failIf (wrong : Prop) [Decidable wrong] (error : AetherError) : Result Unit :=
  if wrong then .error error else .ok ()

theorem failIf_eq_ok {wrong : Prop} [Decidable wrong] {error : AetherError} {done : Unit} :
    failIf wrong error = .ok done ↔ ¬wrong := by
  rw [failIf]
  constructor
  · intro success holds
    rw [if_pos holds] at success
    cases success
  · intro fails
    rw [if_neg fails]

end Result

/-- Lower-case hexadecimal digits of a number, padded on the left to a width. -/
def hexDigits (width value : Nat) : String :=
  let digits := Nat.toDigits 16 value
  String.ofList (List.replicate (width - digits.length) '0' ++ digits)

/-- A number in lower-case hexadecimal after `0x`. -/
def hexLiteral (value : Nat) : String :=
  "0x" ++ hexDigits 1 value

/-- The bytes of a digest in lower-case hexadecimal. -/
def hexStr (bytes : Bytes) : String :=
  bytes.foldl (fun text byte => text ++ hexDigits 2 byte.toNat) ""

/-- The text of an input/output failure. -/
def IoErrorKind.display : IoErrorKind → String
  | .unexpectedEof => "failed to fill whole buffer"
  | .invalidInput => "invalid seek to a negative or overflowing position"
  | .other message => message

/-- The text of an error. -/
def AetherError.display : AetherError → String
  | .invalidMagic => "Invalid magic bytes: expected AetherArch header"
  | .unsupportedVersion major minor => s!"Unsupported format version {major}.{minor}"
  | .checksumMismatch blockId expected actual =>
      s!"Block checksum mismatch at block {blockId}: expected {expected}, got {actual}"
  | .headerCrcMismatch expected actual =>
      s!"Header CRC mismatch: expected 0x{hexDigits 8 expected}, got 0x{hexDigits 8 actual}"
  | .blockCrcMismatch blockId => s!"Block CRC mismatch at block {blockId}"
  | .invalidBlockMagic offset => s!"Invalid block magic at offset {offset}"
  | .invalidFooterMagic => "Footer magic mismatch"
  | .compression message => s!"Compression error: {message}"
  | .decompression message => s!"Decompression error: {message}"
  | .encryption message => s!"Encryption error: {message}"
  | .decryption message => s!"Decryption error: {message}"
  | .predictor message => s!"Predictor error: {message}"
  | .io kind => s!"I/O error: {kind.display}"
  | .blockNotFound blockIdx => s!"Block {blockIdx} not found in index"
  | .fileNotFound path => s!"File not found in archive: {path}"
  | .truncatedArchive expected actual =>
      s!"Truncated archive: expected at least {expected} bytes, got {actual}"
  | .unknownCompressionMethod value => s!"Unknown compression method: {value}"
  | .unknownPredictorId value => s!"Unknown predictor ID: {value}"
  | .unknownContentType value => s!"Unknown content type: {value}"
  | .resourceLimitExceeded message => s!"Resource limit exceeded: {message}"
  | .pathTraversal message => s!"Path traversal detected in archive entry: {message}"
  | .cloudStorage message => s!"Cloud storage error: {message}"
  | .invalidCloudPath message => s!"Invalid cloud path: {message}"
  | .invalidCloudUrl message => s!"Invalid cloud URL: {message}"
  | .nonceMismatch blockId =>
      s!"Nonce mismatch for block {blockId}: stored nonce does not match derived nonce"
  | .passwordVerificationFailed =>
      "Password verification failed: incorrect password or corrupted header"
  | .invalidUtf8Path => "Non-UTF-8 file path in archive"
  | .headerIntegrityMismatch => "Header integrity check failed"
  | .fileAlreadyExists path => s!"File already exists (no_clobber mode): {path}"

end AetherArch
