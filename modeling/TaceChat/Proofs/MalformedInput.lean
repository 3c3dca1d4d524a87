import TaceChat.Library.Panics
import TaceChat.Model.Keys

/-!
# Malformed input of the cryptography

The functions of `keys.rs` chain conversions that return errors with ones that panic.
`noPanic_deriveSharedSecret` and `yields_deriveSharedSecret` say what the common part does. After it
the one conversion that can panic is that of the nonce in `decrypt`, and `keys_noPanic` states for
which inputs it does.
-/

set_option autoImplicit false

namespace TaceChat

variable {c : Crates}

/-- The length is all that counts. -/
@[simp] theorem fromSlice_isSome (n : ℕ) (bytes : List UInt8) :
    (fromSlice n bytes).isSome = true ↔ bytes.length = n := by
  unfold fromSlice
  split
  · simp_all
  · simp_all

/-- What has a fixed length in its type is never rejected. -/
@[simp] theorem fromSlice_toList {n : ℕ} (bytes : Vector UInt8 n) :
    fromSlice n bytes.toList = some bytes := by
  unfold fromSlice
  rw [dif_pos (by simp)]
  rfl

namespace Keys

/-- Both strings are hexadecimal and spell keys. -/
def KeysParse (c : Crates) (privateKeyHex publicKeyHex : String) : Prop :=
  (∃ bytes secretKey, hexDecode privateKeyHex = some bytes ∧
      c.secretKeyFromSlice bytes = .ok secretKey) ∧
    ∃ bytes publicKey, hexDecode publicKeyHex = some bytes ∧
      c.publicKeyFromSec1Bytes bytes = .ok publicKey

/-- A text is decoded when it is in hex digits. -/
@[simp] theorem hexDecode_eq_ok (hex : String) (bytes : List UInt8) :
    c.hexDecode hex = .ok bytes ↔ hexDecode hex = some bytes := by
  unfold Crates.hexDecode
  cases hexDecode hex <;> simp

/-- Malformed keys are errors. -/
theorem noPanic_deriveSharedSecret (privateKeyHex publicKeyHex : String) :
    NoPanic (deriveSharedSecret c privateKeyHex publicKeyHex) := by
  simp [deriveSharedSecret]

/-- There is a secret for every two keys that parse. -/
theorem yields_deriveSharedSecret
    (hexpand : ∀ (secret info : List UInt8) (n : ℕ), n ≤ 255 * 32 →
      ∃ okm, c.hkdfExpand secret info n = .ok okm)
    (privateKeyHex publicKeyHex : String) :
    (∃ okm, Yields (deriveSharedSecret c privateKeyHex publicKeyHex) okm) ↔
      KeysParse c privateKeyHex publicKeyHex := by
  simp only [deriveSharedSecret, yields_bind, yields_liftExcept, hexDecode_eq_ok]
  constructor
  · rintro ⟨okm, privateBytes, hprivate, publicBytes, hpublic, secretKey, hsecretKey, publicKey,
      hpublicKey, -⟩
    exact ⟨⟨privateBytes, secretKey, hprivate, hsecretKey⟩, publicBytes, publicKey, hpublic,
      hpublicKey⟩
  · rintro ⟨⟨privateBytes, secretKey, hprivate, hsecretKey⟩, publicBytes, publicKey, hpublic,
      hpublicKey⟩
    obtain ⟨okm, hokm⟩ := hexpand (c.diffieHellman secretKey publicKey) [] 32 (by decide)
    exact ⟨okm, privateBytes, hprivate, publicBytes, hpublic, secretKey, hsecretKey, publicKey,
      hpublicKey, hokm⟩

/-- The key and the nonce of `encrypt` have the lengths that their conversions ask for. -/
theorem noPanic_encrypt (privateKeyHex publicKeyHex : String) (plaintext : List UInt8)
    (nonceBytes : Vector UInt8 12) :
    NoPanic (encrypt c privateKeyHex publicKeyHex plaintext nonceBytes) := by
  simp [encrypt, noPanic_deriveSharedSecret]

/-- `decrypt` panics on a nonce of another length than 12, once the keys have a secret. -/
theorem noPanic_decrypt (privateKeyHex publicKeyHex : String) (ciphertext nonce : List UInt8) :
    NoPanic (decrypt c privateKeyHex publicKeyHex ciphertext nonce) ↔
      ((∃ okm, Yields (deriveSharedSecret c privateKeyHex publicKeyHex) okm) →
        nonce.length = 12) := by
  simp [decrypt, noPanic_deriveSharedSecret]

/-- `sign` does not panic while `try_sign` succeeds. -/
theorem noPanic_sign
    (hsign : ∀ (signingKey : c.SigningKey) (message : List UInt8),
      ∃ signature, c.trySign signingKey message = .ok signature)
    (privateKeyHex : String) (message : List UInt8) :
    NoPanic (sign c privateKeyHex message) := by
  have hsigner (signingKey : c.SigningKey) :
      (c.signerSign signingKey message).isSome = true := by
    obtain ⟨signature, hsignature⟩ := hsign signingKey message
    rw [Crates.signerSign, hsignature]
    rfl
  simp [sign, hsigner]

/-- `verify` answers whatever it is given. -/
theorem verify_isSome (publicKeyHex : String) (message signatureBytes : List UInt8) :
    (verify c publicKeyHex message signatureBytes).isSome = true := by
  unfold verify
  split
  · rfl
  · split
    · rfl
    · split
      · rfl
      · rfl

end Keys

/-- The two functions panic on the same input. -/
theorem noPanic_webClient_decrypt (fromUtf8Lossy : List UInt8 → String)
    (privateKeyHex publicKeyHex : String) (ciphertext nonce : List UInt8) :
    NoPanic (WebClient.decrypt c fromUtf8Lossy privateKeyHex publicKeyHex ciphertext nonce) ↔
      NoPanic (Keys.decrypt c privateKeyHex publicKeyHex ciphertext nonce) := by
  simp [WebClient.decrypt]

/-- `encrypt`, `sign` and `verify` return on every input. `decrypt` returns exactly when the nonce
has 12 bytes or the two strings are not both keys, and so does the `decrypt` of the web client. HKDF
expands to as many bytes as its standard allows, and keys that have been read can sign. -/
theorem keys_noPanic (c : Crates)
    (hexpand : ∀ (secret info : List UInt8) (n : ℕ), n ≤ 255 * 32 →
      ∃ okm, c.hkdfExpand secret info n = .ok okm)
    (hsign : ∀ (signingKey : c.SigningKey) (message : List UInt8),
      ∃ signature, c.trySign signingKey message = .ok signature)
    (fromUtf8Lossy : List UInt8 → String) (privateKeyHex publicKeyHex : String)
    (plaintext ciphertext nonce message signatureBytes : List UInt8)
    (nonceBytes : Vector UInt8 12) :
    NoPanic (Keys.encrypt c privateKeyHex publicKeyHex plaintext nonceBytes) ∧
      NoPanic (Keys.sign c privateKeyHex message) ∧
      (Keys.verify c publicKeyHex message signatureBytes).isSome = true ∧
      (NoPanic (Keys.decrypt c privateKeyHex publicKeyHex ciphertext nonce) ↔
        nonce.length = 12 ∨ ¬Keys.KeysParse c privateKeyHex publicKeyHex) ∧
      (NoPanic (WebClient.decrypt c fromUtf8Lossy privateKeyHex publicKeyHex ciphertext nonce) ↔
        nonce.length = 12 ∨ ¬Keys.KeysParse c privateKeyHex publicKeyHex) := by
  have hdecrypt : NoPanic (Keys.decrypt c privateKeyHex publicKeyHex ciphertext nonce) ↔
      nonce.length = 12 ∨ ¬Keys.KeysParse c privateKeyHex publicKeyHex := by
    rw [Keys.noPanic_decrypt, Keys.yields_deriveSharedSecret hexpand, or_comm, imp_iff_not_or]
  refine ⟨Keys.noPanic_encrypt privateKeyHex publicKeyHex plaintext nonceBytes,
    Keys.noPanic_sign hsign privateKeyHex message,
    Keys.verify_isSome publicKeyHex message signatureBytes, hdecrypt, ?_⟩
  rw [noPanic_webClient_decrypt]
  exact hdecrypt

/-! ### An exchange with a fixed key -/

/-- The private key 1. -/
def privateKeyOne : List UInt8 := List.replicate 31 0 ++ [1]

/-- The public key of the private key 1: the base point of P-256, compressed. -/
def publicKeyOne : List UInt8 :=
  [0x03, 0x6b, 0x17, 0xd1, 0xf2, 0xe1, 0x2c, 0x42, 0x47, 0xf8, 0xbc, 0xe6, 0xe5, 0x63, 0xa4, 0x40,
    0xf2, 0x77, 0x03, 0x7d, 0x81, 0x2d, 0xeb, 0x33, 0xa0, 0xf4, 0xa1, 0x39, 0x45, 0xd8, 0x98, 0xc2,
    0x96]

/-- The crates as far as they are used with this key pair, an empty message, an empty ciphertext and
the nonce of zeros. The secret that the key shares with itself is the `x` coordinate of the point.
-/
def cratesOne : Crates where
  SecretKey := Unit
  PublicKey := Unit
  SigningKey := Unit
  VerifyingKey := Unit
  Signature := List UInt8
  hexError _ := "Odd number of digits"
  secretKeyFromSlice bytes := if bytes = privateKeyOne then .ok () else .error "crypto error"
  publicKeyFromSec1Bytes bytes := if bytes = publicKeyOne then .ok () else .error "crypto error"
  signingKeyFromSlice bytes := if bytes = privateKeyOne then .ok () else .error "signature error"
  verifyingKeyFromSec1Bytes bytes :=
    if bytes = publicKeyOne then .ok () else .error "signature error"
  signatureFromSlice bytes := if bytes.length = 64 then .ok bytes else .error "signature error"
  diffieHellman _ _ := publicKeyOne.tail
  hkdfExpand _ _ n :=
    if n ≤ 255 * 32 then
      .ok (Vector.ofFn fun i =>
        [24, 166, 137, 208, 241, 76, 191, 149, 28, 197, 85, 103, 145, 120, 163, 103, 122, 227, 241,
          78, 209, 99, 40, 83, 124, 165, 163, 230, 54, 233, 117, 23].getD i 0)
    else .error "invalid number of blocks, too large output"
  aesEncrypt _ _ plaintext :=
    .ok (plaintext ++ [46, 162, 198, 14, 104, 29, 249, 74, 50, 6, 233, 33, 249, 54, 234, 17])
  aesDecrypt _ _ _ := .error "aead::Error"
  trySign _ _ :=
    .ok [14, 105, 203, 17, 118, 100, 206, 221, 103, 52, 232, 1, 81, 234, 189, 56, 141, 226, 102, 83,
      62, 22, 63, 190, 142, 164, 99, 6, 92, 15, 215, 26, 194, 132, 230, 126, 11, 175, 44, 248, 224,
      120, 150, 165, 197, 242, 34, 202, 209, 30, 53, 201, 151, 193, 140, 89, 215, 155, 219, 173,
      104, 129, 120, 60]
  signatureToVec signature := signature
  verifySignature _ _ _ := false

/-- `keys_noPanic` for the key and the nonce of zeros. -/
theorem keys_noPanic_zeros :
    NoPanic (Keys.decrypt cratesOne (hexEncode privateKeyOne) (hexEncode publicKeyOne) []
      (List.replicate 12 0)) := by
  have hall := keys_noPanic cratesOne (fun _ _ _ hn => ⟨_, if_pos hn⟩) (fun _ _ => ⟨_, rfl⟩)
    (fun _ => "") (hexEncode privateKeyOne) (hexEncode publicKeyOne) [] [] (List.replicate 12 0) []
    [] (Vector.replicate 12 0)
  exact hall.2.2.2.1.mpr (Or.inl rfl)

/-- With the empty nonce, `decrypt` panics. -/
theorem decrypt_panics :
    ¬NoPanic (Keys.decrypt cratesOne (hexEncode privateKeyOne) (hexEncode publicKeyOne) [] []) := by
  decide +kernel

end TaceChat
