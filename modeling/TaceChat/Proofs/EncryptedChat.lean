import TaceChat.Model.ChatClient
import TaceChat.Proofs.MalformedInput

/-!
# A shared secret on both sides

The two sides of a conversation derive one secret, each from its own private key and the public key
of the other one, so that each decrypts what the other one has encrypted (`decrypt_of_encrypt`). It
is assumed of the crates that the agreement is symmetric and that the cipher can be undone
(`Crates.Agrees`).
-/

set_option autoImplicit false

namespace TaceChat

/-- What the crates promise to two users: their secret is the same from both sides, and what was
encrypted under a key is decrypted under it. -/
structure Crates.Agrees (c : Crates) (publicKeyOf : c.SecretKey → c.PublicKey) : Prop where
  diffieHellman_comm : ∀ a b,
    c.diffieHellman a (publicKeyOf b) = c.diffieHellman b (publicKeyOf a)
  aesDecrypt_aesEncrypt : ∀ key nonce plaintext ciphertext,
    c.aesEncrypt key nonce plaintext = .ok ciphertext →
      c.aesDecrypt key nonce ciphertext = .ok plaintext

/-- The two strings that `generate_keypair` makes of a private key and its public key. -/
def Keypair.Generated (c : Crates) (publicKeyOf : c.SecretKey → c.PublicKey) (keys : Keypair) :
    Prop :=
  ∃ privateBytes publicBytes secretKey, keys = generateKeypair privateBytes publicBytes ∧
    privateBytes ≠ [] ∧ publicBytes ≠ [] ∧ c.secretKeyFromSlice privateBytes = .ok secretKey ∧
      c.publicKeyFromSec1Bytes publicBytes = .ok (publicKeyOf secretKey)

/-- The value that the browser gets is the one that the call ends with. -/
@[simp] theorem jsValue_eq_some {α : Type} {call : ExceptT String Option α} {a : α} :
    jsValue call = some a ↔ Yields call a := by
  unfold jsValue Yields
  split
  · rename_i b hb
    rw [hb, Option.some_inj, Option.some_inj, Except.ok.injEq]
  · rename_i hother
    exact ⟨fun h => (nomatch h), fun h => (hother a h).elim⟩

/-- A key with bytes is written as a text that is not empty. -/
theorem hexEncode_ne_empty {bytes : List UInt8} (h : bytes ≠ []) : hexEncode bytes ≠ "" := by
  intro hempty
  have hdecoded := hexDecode_hexEncode bytes
  rw [hempty] at hdecoded
  exact h (Option.some.inj hdecoded).symm

/-- The secret of two keys in hex digits. -/
theorem deriveSharedSecret_hexEncode {c : Crates} {privateBytes publicBytes : List UInt8}
    {secretKey : c.SecretKey} {publicKey : c.PublicKey}
    (hsecret : c.secretKeyFromSlice privateBytes = .ok secretKey)
    (hpublic : c.publicKeyFromSec1Bytes publicBytes = .ok publicKey) :
    Keys.deriveSharedSecret c (hexEncode privateBytes) (hexEncode publicBytes) =
      liftM (c.hkdfExpand (c.diffieHellman secretKey publicKey) [] 32) := by
  have hok : ∀ bytes, c.hexDecode (hexEncode bytes) = .ok bytes := fun bytes =>
    (Keys.hexDecode_eq_ok _ _).mpr (hexDecode_hexEncode bytes)
  have hpure : ∀ {α : Type} (a : α),
      (liftM (Except.ok a : Except String α) : ExceptT String Option α) = pure a := fun _ => rfl
  unfold Keys.deriveSharedSecret
  simp only [hok, hpure, pure_bind, hsecret, hpublic]

namespace Keypair.Generated

variable {c : Crates} {publicKeyOf : c.SecretKey → c.PublicKey} {keys keys' : Keypair}

/-- The keys are not generated again. -/
theorem ne_empty (h : keys.Generated c publicKeyOf) :
    keys.privateKey ≠ "" ∧ keys.publicKey ≠ "" := by
  obtain ⟨privateBytes, publicBytes, -, rfl, hprivate, hpublic, -⟩ := h
  exact ⟨hexEncode_ne_empty hprivate, hexEncode_ne_empty hpublic⟩

/-- Both sides derive the same. -/
theorem sharedSecret_comm (hagrees : c.Agrees publicKeyOf) (h : keys.Generated c publicKeyOf)
    (h' : keys'.Generated c publicKeyOf) :
    Keys.deriveSharedSecret c keys.privateKey keys'.publicKey =
      Keys.deriveSharedSecret c keys'.privateKey keys.publicKey := by
  obtain ⟨privateBytes, publicBytes, secretKey, rfl, -, -, hsecret, hpublic⟩ := h
  obtain ⟨privateBytes', publicBytes', secretKey', rfl, -, -, hsecret', hpublic'⟩ := h'
  show Keys.deriveSharedSecret c (hexEncode privateBytes) (hexEncode publicBytes') =
    Keys.deriveSharedSecret c (hexEncode privateBytes') (hexEncode publicBytes)
  rw [deriveSharedSecret_hexEncode hsecret hpublic', deriveSharedSecret_hexEncode hsecret' hpublic,
    hagrees.diffieHellman_comm secretKey]

end Keypair.Generated

section Messages

variable {c : Crates} {publicKeyOf : c.SecretKey → c.PublicKey}
  {fromUtf8Lossy : List UInt8 → String}
  {privateKey publicKey privateKey' publicKey' plaintext text : String}
  {nonceBytes : Vector UInt8 12} {ciphertext nonce : List UInt8}

/-- What `encrypt` does: it encrypts with the shared secret and the drawn nonce. -/
theorem yields_encrypt :
    Yields (WebClient.encrypt c privateKey publicKey plaintext nonceBytes) (ciphertext, nonce) ↔
      ∃ key, Yields (Keys.deriveSharedSecret c privateKey publicKey) key ∧
        c.aesEncrypt key nonceBytes (asBytes plaintext) = .ok ciphertext ∧
          nonceBytes.toList = nonce := by
  simp only [WebClient.encrypt, Keys.encrypt, yields_bind, yields_liftOption, yields_liftExcept,
    yields_pure, fromSlice_toList, Option.some.injEq, exists_eq_left', Prod.mk.injEq]
  grind

/-- And `decrypt` decrypts with it. -/
theorem yields_decrypt :
    Yields (WebClient.decrypt c fromUtf8Lossy privateKey publicKey ciphertext nonce) text ↔
      ∃ key, Yields (Keys.deriveSharedSecret c privateKey publicKey) key ∧
        ∃ nonceBytes, fromSlice 12 nonce = some nonceBytes ∧
          ∃ plaintext, c.aesDecrypt key nonceBytes ciphertext = .ok plaintext ∧
            fromUtf8Lossy plaintext = text := by
  simp only [WebClient.decrypt, Keys.decrypt, bind_assoc, yields_bind, yields_liftOption,
    yields_liftExcept, yields_pure, fromSlice_toList, Option.some.injEq, exists_eq_left']

/-- With the same secret, a message is decrypted to the text that was encrypted. -/
theorem decrypt_of_encrypt (hagrees : c.Agrees publicKeyOf)
    (hutf8 : ∀ s, fromUtf8Lossy (asBytes s) = s)
    (hsecret : Keys.deriveSharedSecret c privateKey publicKey =
      Keys.deriveSharedSecret c privateKey' publicKey')
    (h : Yields (WebClient.encrypt c privateKey publicKey text nonceBytes) (ciphertext, nonce)) :
    Yields (WebClient.decrypt c fromUtf8Lossy privateKey' publicKey' ciphertext nonce) text := by
  obtain ⟨key, hkey, hencrypt, rfl⟩ := yields_encrypt.mp h
  refine yields_decrypt.mpr ⟨key, hsecret ▸ hkey, nonceBytes, fromSlice_toList nonceBytes,
    asBytes text, ?_, hutf8 text⟩
  exact hagrees.aesDecrypt_aesEncrypt key nonceBytes (asBytes text) ciphertext hencrypt

end Messages

end TaceChat
