import TaceChat.Model.Hex

/-!
# Encryption and signatures

`encrypt`, `decrypt`, `sign` and `verify` of `keys.rs`. The web client calls them with keys,
messages and nonces that it got from other users (`lib.rs`).

The cryptography is third-party code: `Crates` has what these functions call. A call that returns a
`Result` is an `Except`, whose error is the text that `to_string` makes of it. What panics is an
`Option`, so a program that returns a `Result` and may panic is an `ExceptT String Option`. The
nonce that `encrypt` draws is an argument.
-/

set_option autoImplicit false

namespace TaceChat

/-- `GenericArray::<u8, n>::from_slice`. It panics when the length is another one. -/
def fromSlice (n : ℕ) (bytes : List UInt8) : Option (Vector UInt8 n) :=
  if h : bytes.length = n then some ⟨bytes.toArray, h⟩ else none

/-- The functions of the cryptography crates that `keys.rs` calls. -/
structure Crates where
  SecretKey : Type
  PublicKey : Type
  SigningKey : Type
  VerifyingKey : Type
  Signature : Type
  /-- The error of `hex::decode` for a text that it rejects. -/
  hexError : String → String
  secretKeyFromSlice : List UInt8 → Except String SecretKey
  publicKeyFromSec1Bytes : List UInt8 → Except String PublicKey
  signingKeyFromSlice : List UInt8 → Except String SigningKey
  verifyingKeyFromSec1Bytes : List UInt8 → Except String VerifyingKey
  signatureFromSlice : List UInt8 → Except String Signature
  /-- The raw bytes of the secret of `p256::ecdh::diffie_hellman`. -/
  diffieHellman : SecretKey → PublicKey → List UInt8
  /-- `Hkdf::<Sha256>::new(None, secret)`, and `expand(info)` to that many bytes. -/
  hkdfExpand : List UInt8 → List UInt8 → (n : ℕ) → Except String (Vector UInt8 n)
  aesEncrypt : Vector UInt8 32 → Vector UInt8 12 → List UInt8 → Except String (List UInt8)
  aesDecrypt : Vector UInt8 32 → Vector UInt8 12 → List UInt8 → Except String (List UInt8)
  trySign : SigningKey → List UInt8 → Except String Signature
  signatureToVec : Signature → List UInt8
  /-- Whether `Verifier::verify` is `Ok`. -/
  verifySignature : VerifyingKey → List UInt8 → Signature → Bool

namespace Crates

variable (c : Crates)

/-- `hex::decode`, with the error for a text that it rejects. -/
def hexDecode (hex : String) : Except String (List UInt8) :=
  match TaceChat.hexDecode hex with
  | some bytes => .ok bytes
  | none => .error (c.hexError hex)

/-- `Signer::sign`, which expects that `try_sign` succeeds. -/
def signerSign (signingKey : c.SigningKey) (message : List UInt8) : Option c.Signature :=
  match c.trySign signingKey message with
  | .ok signature => some signature
  | .error _ => none

end Crates

namespace Keys

variable (c : Crates)

/-- `derive_shared_secret`. -/
def deriveSharedSecret (privateKeyHex publicKeyHex : String) :
    ExceptT String Option (Vector UInt8 32) := do
  let privateBytes ← c.hexDecode privateKeyHex
  let publicBytes ← c.hexDecode publicKeyHex
  let secretKey ← c.secretKeyFromSlice privateBytes
  let publicKey ← c.publicKeyFromSec1Bytes publicBytes
  let sharedSecret := c.diffieHellman secretKey publicKey
  c.hkdfExpand sharedSecret [] 32

/-- The ciphertext and the nonce. -/
def encrypt (privateKeyHex publicKeyHex : String) (plaintext : List UInt8)
    (nonceBytes : Vector UInt8 12) : ExceptT String Option (List UInt8 × List UInt8) := do
  let keyMaterial ← deriveSharedSecret c privateKeyHex publicKeyHex
  let key ← fromSlice 32 keyMaterial.toList
  let nonce ← fromSlice 12 nonceBytes.toList
  let ciphertext ← c.aesEncrypt key nonce plaintext
  return (ciphertext, nonceBytes.toList)

/-- `decrypt`. `Nonce::from_slice` panics on a nonce of another length than 12. -/
def decrypt (privateKeyHex publicKeyHex : String) (ciphertext nonce : List UInt8) :
    ExceptT String Option (List UInt8) := do
  let keyMaterial ← deriveSharedSecret c privateKeyHex publicKeyHex
  let key ← fromSlice 32 keyMaterial.toList
  let nonceSlice ← fromSlice 12 nonce
  let plaintext ← c.aesDecrypt key nonceSlice ciphertext
  return plaintext

/-- `sign`. -/
def sign (privateKeyHex : String) (message : List UInt8) : ExceptT String Option (List UInt8) := do
  let privateBytes ← c.hexDecode privateKeyHex
  let signingKey ← c.signingKeyFromSlice privateBytes
  let signature ← c.signerSign signingKey message
  return c.signatureToVec signature

/-- `verify`. Every error is read as an invalid signature. -/
def verify (publicKeyHex : String) (message signatureBytes : List UInt8) : Option Bool :=
  match c.hexDecode publicKeyHex with
  | .error _ => some false
  | .ok publicBytes =>
    match c.signatureFromSlice signatureBytes with
    | .error _ => some false
    | .ok signature =>
      match c.verifyingKeyFromSec1Bytes publicBytes with
      | .error _ => some false
      | .ok verifyingKey => some (c.verifySignature verifyingKey message signature)

end Keys

/-- `decrypt` of the web client, which passes the nonce on as it came. `fromUtf8Lossy` makes a text
of the bytes. -/
def WebClient.decrypt (c : Crates) (fromUtf8Lossy : List UInt8 → String)
    (myPrivateKeyHex theirPublicKeyHex : String) (ciphertext nonce : List UInt8) :
    ExceptT String Option String := do
  let plaintextBytes ← Keys.decrypt c myPrivateKeyHex theirPublicKeyHex ciphertext nonce
  return fromUtf8Lossy plaintextBytes

end TaceChat
