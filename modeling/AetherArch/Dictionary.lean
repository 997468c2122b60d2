import AetherArch.Entropy.Traits
import AetherArch.Fields

/-! # Dictionaries

A trained predictor state with the digest an archive names it by.
-/

namespace AetherArch

/-- A trained dictionary that can initialize a predictor. -/
structure Dictionary where
  predictorId : PredictorId
  state : Bytes
  hash : Digest

namespace Dictionary

def DICT_MAGIC : Bytes := [0x41, 0x45, 0x44, 0x58]

def DICT_VERSION : UInt8 := 1

def MAX_DICT_STATE_SIZE : Nat := 64 * 1024 * 1024

/-- The leading bytes of a digest, as a list in hexadecimal. -/
def debugPrefix (digest : Digest) : String :=
  "[" ++ ", ".intercalate ((digest.1.take 4).map fun byte => hexDigits 1 byte.toNat) ++ "]"

def readFrom (hashing : Hashing) : Reader Dictionary := do
  let magic ← Reader.readExact 4
  Reader.failIf (magic.1 ≠ DICT_MAGIC) .invalidMagic
  let version ← Reader.readU8
  Reader.failIf (version ≠ DICT_VERSION) (.decompression
    s!"Unsupported dictionary version {version} (expected {DICT_VERSION})")
  let predictor ← Reader.readU16
  let predictorId ← ByteReader.lift (PredictorId.fromU16 predictor)
  let stateLen ← Reader.readU32
  Reader.failIf (stateLen.toNat > MAX_DICT_STATE_SIZE) (.resourceLimitExceeded
    s!"Dictionary state size {stateLen} exceeds {MAX_DICT_STATE_SIZE} byte limit")
  let state ← Reader.readExact stateLen.toNat
  let storedHash ← Reader.readExact 32
  let computedHash := hashing.blake3 state.1
  Reader.failIf (computedHash ≠ storedHash)
    (.checksumMismatch 0 (debugPrefix storedHash) (debugPrefix computedHash))
  pure { predictorId, state := state.1, hash := storedHash }

/-- Apply the dictionary state to a predictor. -/
def apply {σ : Type} [ProbabilityPredictor σ] (dict : Dictionary) (predictor : σ) : Result σ :=
  if ProbabilityPredictor.predictorId predictor ≠ dict.predictorId then
    .error (.decompression (s!"Dictionary was trained for predictor {dict.predictorId.debug}, "
      ++ s!"but applied to '{(ProbabilityPredictor.predictorId predictor).debug}'"))
  else
    match ProbabilityPredictor.loadState predictor dict.state with
    | (true, loaded) => .ok loaded
    | (false, _) => .error (.decompression
        ("Failed to load dictionary state into predictor "
          ++ s!"'{ProbabilityPredictor.name predictor}'"))

/-- Resolve an embedded dictionary by its state hash. -/
def byHash (hashing : Hashing) (embedded : List Bytes) (hash : Digest) : Option Dictionary :=
  embedded.findSome? fun bytes =>
    match readFrom hashing bytes with
    | .ok (dict, _) => if dict.hash = hash then some dict else none
    | .error _ => none

end Dictionary

end AetherArch
