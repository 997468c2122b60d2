import AetherArch.Fields

/-! # Encryption

Each compressed block is encrypted on its own, under a nonce derived from the block id and
with the cipher and the block id as associated data.
-/

namespace AetherArch

/-- Cipher algorithm identifier stored in the encryption header. -/
inductive CipherId where
  | aes256Gcm
  | chaCha20Poly1305
  deriving DecidableEq, Repr

namespace CipherId

def toU8 : CipherId → UInt8
  | aes256Gcm => 0
  | chaCha20Poly1305 => 1

def fromU8 (value : UInt8) : Result CipherId :=
  match value with
  | 0 => .ok aes256Gcm
  | 1 => .ok chaCha20Poly1305
  | other => .error (.decryption s!"Unknown cipher ID: {other}")

@[simp] theorem fromU8_toU8 (cipherId : CipherId) : fromU8 cipherId.toU8 = .ok cipherId := by
  cases cipherId <;> rfl

end CipherId

/-- An authenticated cipher, by key, nonce, message and associated data. -/
structure Aead where
  encrypt : Digest → FixedBytes 12 → Bytes → Bytes → Except String Bytes
  decrypt : Digest → FixedBytes 12 → Bytes → Bytes → Option Bytes

/-- The cryptographic libraries. -/
structure Primitives extends Hashing where
  /-- Whether the key derivation accepts its costs. -/
  argon2Params : UInt32 → UInt32 → UInt32 → Except String Unit
  argon2id : Bytes → FixedBytes 32 → UInt32 → UInt32 → UInt32 → Except String Digest
  aesGcm : Aead
  chaCha : Aead

namespace Crypto

def HEADER_VERSION : UInt8 := 1
def VERIFICATION_DOMAIN : Bytes := asBytes "AetherArch-password-verification-v1"
def VERIFICATION_KEY_DOMAIN : Bytes := asBytes "AetherArch-verification-key-v1"
def NONCE_DOMAIN : Bytes := asBytes "AetherArch-block-nonce-v1"
def NONCE_SIZE : Nat := 12
def TAG_SIZE : Nat := 16
def MIN_PASSWORD_LEN : Nat := 8
def MAX_BLOCK_PLAINTEXT_SIZE : Nat := 1024 * 1024 * 1024
def DEFAULT_ARGON2_M_COST : UInt32 := 65536
def DEFAULT_ARGON2_T_COST : UInt32 := 3
def DEFAULT_ARGON2_P_COST : UInt32 := 4

end Crypto

open Crypto

/-- Validate key derivation costs against safety bounds. -/
def validateArgon2Params (mCost tCost pCost : UInt32) : Result Unit := do
  Result.failIf (mCost < MIN_ARGON2_M_COST)
    (.encryption s!"Argon2 m_cost {mCost} below minimum of {MIN_ARGON2_M_COST} KiB")
  Result.failIf (mCost > MAX_ARGON2_M_COST)
    (.encryption s!"Argon2 m_cost {mCost} exceeds safety limit of {MAX_ARGON2_M_COST} KiB")
  Result.failIf (tCost < MIN_ARGON2_T_COST)
    (.encryption s!"Argon2 t_cost {tCost} below minimum of {MIN_ARGON2_T_COST}")
  Result.failIf (tCost > MAX_ARGON2_T_COST)
    (.encryption s!"Argon2 t_cost {tCost} exceeds safety limit of {MAX_ARGON2_T_COST}")
  Result.failIf (pCost < MIN_ARGON2_P_COST)
    (.encryption s!"Argon2 p_cost {pCost} below minimum of {MIN_ARGON2_P_COST}")
  Result.failIf (pCost > MAX_ARGON2_P_COST)
    (.encryption s!"Argon2 p_cost {pCost} exceeds safety limit of {MAX_ARGON2_P_COST}")

/-- Encryption metadata stored after the archive header. -/
structure EncryptionHeader where
  version : UInt8
  cipherId : CipherId
  salt : FixedBytes 32
  mCost : UInt32
  tCost : UInt32
  pCost : UInt32
  masterNonce : FixedBytes 12
  verificationTag : Digest
  deriving DecidableEq

section

variable (primitives : Primitives)

/-- Password verification tag of a derived key, under a separate sub-key. -/
def computeVerificationTag (key : Digest) : Digest :=
  primitives.keyedHash (primitives.keyedHash key VERIFICATION_KEY_DOMAIN) VERIFICATION_DOMAIN

/-- The nonce of a block: a keyed hash of its id under the padded master nonce. -/
def deriveBlockNonce (masterNonce : FixedBytes 12) (blockId : UInt32) : FixedBytes 12 :=
  let key : Digest := ⟨masterNonce.1 ++ List.replicate 20 0, by simp [masterNonce.2]⟩
  let hash := primitives.keyedHash key (NONCE_DOMAIN ++ (writeU32 blockId).reverse)
  ⟨hash.1.take NONCE_SIZE, by rw [List.length_take, hash.2]; rfl⟩

/-- Validate a password for new archives. -/
def validateEncryptionPassword (password : Bytes) : Result Unit := do
  Result.failIf password.isEmpty (.encryption "Password cannot be empty")
  Result.failIf (password.length < MIN_PASSWORD_LEN) (.encryption
    s!"Password too short ({password.length} bytes, minimum {MIN_PASSWORD_LEN})")

/-- Derive an encryption key from a password. -/
def deriveKey (password : Bytes) (salt : FixedBytes 32) (mCost tCost pCost : UInt32) :
    Result Digest := do
  validateArgon2Params mCost tCost pCost
  match primitives.argon2Params mCost tCost pCost with
  | .error e => .error (.encryption s!"Argon2 params error: {e}")
  | .ok () =>
      match primitives.argon2id password salt mCost tCost pCost with
      | .error e => .error (.encryption s!"Key derivation failed: {e}")
      | .ok key => .ok key

/-- Associated data of a block: the cipher and the block id. -/
def buildBlockAad (cipherId : CipherId) (blockId : UInt32) : Bytes :=
  cipherId.toU8 :: (writeU32 blockId).reverse

/-- Encrypt a message with a cipher. -/
def aeadEncrypt (cipherId : CipherId) (key : Digest) (nonce : FixedBytes 12)
    (plaintext aad : Bytes) : Result Bytes :=
  match cipherId with
  | .aes256Gcm =>
      match primitives.aesGcm.encrypt key nonce plaintext aad with
      | .ok ciphertext => .ok ciphertext
      | .error e => .error (.encryption s!"AES-GCM encrypt failed: {e}")
  | .chaCha20Poly1305 =>
      match primitives.chaCha.encrypt key nonce plaintext aad with
      | .ok ciphertext => .ok ciphertext
      | .error e => .error (.encryption s!"ChaCha20 encrypt failed: {e}")

/-- Decrypt and authenticate a message with a cipher. -/
def aeadDecrypt (cipherId : CipherId) (key : Digest) (nonce : FixedBytes 12)
    (ciphertext aad : Bytes) : Result Bytes :=
  match cipherId with
  | .aes256Gcm =>
      match primitives.aesGcm.decrypt key nonce ciphertext aad with
      | some plaintext => .ok plaintext
      | none => .error (.decryption
          "AES-GCM authentication failed: wrong password or corrupted/tampered data")
  | .chaCha20Poly1305 =>
      match primitives.chaCha.decrypt key nonce ciphertext aad with
      | some plaintext => .ok plaintext
      | none => .error (.decryption
          "ChaCha20-Poly1305 authentication failed: wrong password or corrupted/tampered data")

/-- Encrypt a block payload: the nonce, then the ciphertext with its tag. -/
def encryptBlock (cipherId : CipherId) (key : Digest) (masterNonce : FixedBytes 12)
    (blockId : UInt32) (plaintext : Bytes) : Result Bytes := do
  Result.failIf (plaintext.length > MAX_BLOCK_PLAINTEXT_SIZE) (.encryption
    (s!"Block plaintext size {plaintext.length} exceeds maximum of "
      ++ s!"{MAX_BLOCK_PLAINTEXT_SIZE} bytes"))
  let nonce := deriveBlockNonce primitives masterNonce blockId
  let ciphertext ← aeadEncrypt primitives cipherId key nonce plaintext
    (buildBlockAad cipherId blockId)
  pure (nonce.1 ++ ciphertext)

/-- Decrypt a block payload, whose stored nonce must be the derived one. -/
def decryptBlock (cipherId : CipherId) (key : Digest) (masterNonce : FixedBytes 12)
    (blockId : UInt32) (encrypted : Bytes) : Result Bytes := do
  Result.failIf (encrypted.length < NONCE_SIZE + TAG_SIZE)
    (.decryption "Encrypted block too small (missing nonce or tag)")
  let nonce := deriveBlockNonce primitives masterNonce blockId
  Result.failIf (encrypted.take NONCE_SIZE ≠ nonce.1) (.nonceMismatch blockId.toNat)
  aeadDecrypt primitives cipherId key nonce (encrypted.drop NONCE_SIZE)
    (buildBlockAad cipherId blockId)

end

namespace EncryptionHeader

def writeTo (header : EncryptionHeader) : Bytes :=
  writeU8 header.version ++ writeU8 header.cipherId.toU8 ++ header.salt.1 ++
    writeU32 header.mCost ++ writeU32 header.tCost ++ writeU32 header.pCost ++
    header.masterNonce.1 ++ header.verificationTag.1

def readFrom : Reader EncryptionHeader := do
  let version ← Reader.readU8
  Reader.failIf (version ≠ HEADER_VERSION) (.decryption
    s!"Unsupported encryption header version {version} (expected {HEADER_VERSION})")
  let cipher ← Reader.readU8
  let cipherId ← ByteReader.lift (CipherId.fromU8 cipher)
  let salt ← Reader.readExact 32
  let mCost ← Reader.readU32
  let tCost ← Reader.readU32
  let pCost ← Reader.readU32
  let masterNonce ← Reader.readExact NONCE_SIZE
  let verificationTag ← Reader.readExact VERIFICATION_TAG_SIZE
  ByteReader.lift (validateArgon2Params mCost tCost pCost)
  pure { version, cipherId, salt, mCost, tCost, pCost, masterNonce, verificationTag }

/-- Verify a derived key against the verification tag. -/
def verifyPassword (primitives : Primitives) (header : EncryptionHeader) (key : Digest) :
    Result Unit :=
  Result.failIf (header.verificationTag ≠ computeVerificationTag primitives key)
    .passwordVerificationFailed

end EncryptionHeader

end AetherArch
