import TaceChat.Model.Contacts

/-!
# Hexadecimal strings in the web client

`hexToUint8Array` reads the nonce of a challenge (`main.js`). It goes through the string in chunks
of two code units, reads each with `parseInt(_, 16)`, and throws when a chunk is `NaN`. `parseInt`
skips white space, a sign and a prefix `0x`, and stops at the first code unit that is no digit.

A JavaScript string is a list of UTF-16 code units, whose surrogates need not come in pairs. What
`parseInt` gives is an integer, and the chunks are too short for it to be rounded.
-/

set_option autoImplicit false

namespace TaceChat

/-- A string of JavaScript, by its UTF-16 code units. -/
abbrev JsString := List UInt16

/-- The code unit of a character of the basic plane. -/
def codeUnit (c : Char) : UInt16 := UInt16.ofNat c.toNat

/-- The code units of a string: one, or a surrogate pair, for each character. -/
def utf16 (s : String) : JsString :=
  s.toList.flatMap fun c =>
    if c.toNat < 0x10000 then [codeUnit c]
    else [UInt16.ofNat (0xd800 + (c.toNat - 0x10000) / 0x400),
      UInt16.ofNat (0xdc00 + (c.toNat - 0x10000) % 0x400)]

/-- A surrogate is read as `NUL` here, which is no white space either. -/
def isWhiteSpaceUnit (u : UInt16) : Bool := isJsWhiteSpace (Char.ofNat u.toNat)

/-- The two signs that `parseInt` reads. -/
def isSign (u : UInt16) : Bool := u = codeUnit '+' || u = codeUnit '-'

/-- The value of a digit in base 16. -/
def digitValue (u : UInt16) : Option ℕ :=
  if codeUnit '0' ≤ u ∧ u ≤ codeUnit '9' then some (u.toNat - (codeUnit '0').toNat)
  else if codeUnit 'a' ≤ u ∧ u ≤ codeUnit 'f' then some (u.toNat - (codeUnit 'a').toNat + 10)
  else if codeUnit 'A' ≤ u ∧ u ≤ codeUnit 'F' then some (u.toNat - (codeUnit 'A').toNat + 10)
  else none

/-- Without a prefix `0x` or `0X`. -/
def stripPrefix (s : JsString) : JsString :=
  if s.take 2 = [codeUnit '0', codeUnit 'x'] ∨ s.take 2 = [codeUnit '0', codeUnit 'X'] then s.drop 2
  else s

/-- Without a sign in front. -/
def skipSign (s : JsString) : JsString := if s.head?.any isSign then s.tail else s

/-- `parseInt(s, 16)`, with `none` for `NaN`. -/
def parseInt (s : JsString) : Option ℤ :=
  let trimmed := s.dropWhile isWhiteSpaceUnit
  let sign : ℤ := if trimmed.head? = some (codeUnit '-') then -1 else 1
  let digits := (stripPrefix (skipSign trimmed)).takeWhile fun u => (digitValue u).isSome
  if digits = [] then none
  else some (sign * digits.foldl (fun n u => 16 * n + ((digitValue u).getD 0 : ℤ)) 0)

/-- `hexString.substr(start, length)`. -/
def substr (hexString : JsString) (start length : ℕ) : JsString :=
  (hexString.drop start).take length

/-- What both exceptions of `hexToUint8Array` carry. -/
def invalidHexString : String := "Invalid hexString"

/-- The body of the loop. An element of a `Uint8Array` is set to the number modulo 256. -/
def setByte (hexString : JsString) (arrayBuffer : List UInt8) (i : ℕ) :
    Except String (List UInt8) :=
  match parseInt (substr hexString i 2) with
  | none => .error invalidHexString
  | some byteValue => .ok (arrayBuffer.set (i / 2) (UInt8.ofInt byteValue))

/-- `hexToUint8Array`. It throws on an odd length and on a chunk that is no number. -/
def hexToUint8Array (hexString : JsString) : Except String (List UInt8) :=
  if hexString.length % 2 ≠ 0 then .error invalidHexString
  else
    -- The positions `0, 2, 4, …` below the length.
    (List.range' 0 (hexString.length / 2) 2).foldlM (setByte hexString)
      (List.replicate (hexString.length / 2) 0)

end TaceChat
