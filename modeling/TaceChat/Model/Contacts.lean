import TaceChat.Model.Polling

/-!
# Key pairs and contacts

`generateKeypair` writes the public key that a client polls with (`keys.rs`). `addContact` is the
form in which a client enters the public key of a contact, and `sendMessagePayload` is what it posts
to that contact (`main.js`). The bytes of a generated key and the encrypted text are arguments.
`decodePoint`, the decoding of SEC1 bytes, is third-party code and a parameter.
-/

set_option autoImplicit false

namespace TaceChat

/-- The key pair of a client, in hex digits. -/
structure Keypair where
  privateKey : String
  publicKey : String
  deriving DecidableEq

/-- The hex strings of a private key and of the SEC1 bytes of its public key. -/
def generateKeypair (privateBytes publicBytes : List UInt8) : Keypair where
  privateKey := hexEncode privateBytes
  publicKey := hexEncode publicBytes

/-- The point that `verify` and `derive_shared_secret` read from a public key. -/
def decodePublicKey {Point : Type} (decodePoint : List UInt8 → Option Point)
    (publicKeyHex : String) : Option Point :=
  (hexDecode publicKeyHex).bind decodePoint

/-! ### The web client -/

/-- The white space and the line ends that `trim` removes. -/
def isJsWhiteSpace (c : Char) : Bool :=
  [0x9, 0xa, 0xb, 0xc, 0xd, 0x20, 0xa0, 0x1680, 0x2028, 0x2029, 0x202f, 0x205f, 0x3000,
    0xfeff].contains c.toNat || (0x2000 ≤ c.toNat && c.toNat ≤ 0x200a)

/-- `String.prototype.trim`. -/
def jsTrim (s : String) : String :=
  String.ofList (((s.toList.dropWhile isJsWhiteSpace).reverse.dropWhile isJsWhiteSpace).reverse)

/-- `/^([0-9a-fA-F]{66}|[0-9a-fA-F]{130})$/.test(s)`. -/
def publicKeyRegex (s : String) : Bool :=
  (s.toList.length = 66 || s.toList.length = 130) &&
    s.toList.all fun c => ('0' ≤ c && c ≤ '9') || ('a' ≤ c && c ≤ 'f') || ('A' ≤ c && c ≤ 'F')

/-- A contact of the client. -/
structure Contact where
  id : String
  name : String
  publicKey : String
  deriving DecidableEq

/-- Adds a contact with the entered name and public key at the time `now`. `none` when the form
shows its alert. -/
def addContact (now : ℕ) (name publicKey : String) (contacts : List Contact) :
    Option (List Contact) :=
  let name := jsTrim name
  let publicKey := jsTrim publicKey
  if name ≠ "" ∧ publicKey ≠ "" ∧ publicKeyRegex publicKey then
    some (contacts ++ [⟨"contact_" ++ toString now, name, publicKey⟩])
  else none

/-- The payload of `sendMessage`. -/
def sendMessagePayload (keys : Keypair) (contact : Contact) (ciphertext nonce : List UInt8) :
    MessagePayload where
  «to» := contact.publicKey
  «from» := keys.publicKey
  ciphertext
  nonce

end TaceChat
