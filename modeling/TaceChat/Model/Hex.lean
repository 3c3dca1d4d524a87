import Mathlib.Data.List.Basic

/-!
# Hexadecimal strings

`hexEncode` and `hexDecode` are `hex::encode` and `hex::decode`: two digits for each byte, lower
case when written, any case when read. So a byte string has one spelling without upper-case letters
(`eq_hexEncode_iff`).
-/

set_option autoImplicit false

namespace TaceChat

/-- The lower-case digit of a value below 16. -/
def hexDigit (n : ℕ) : Char :=
  if n < 10 then Char.ofNat ('0'.toNat + n) else Char.ofNat ('a'.toNat + (n - 10))

/-- The value of a digit of any case. -/
def hexValue (c : Char) : Option ℕ :=
  if '0' ≤ c ∧ c ≤ '9' then some (c.toNat - '0'.toNat)
  else if 'a' ≤ c ∧ c ≤ 'f' then some (c.toNat - 'a'.toNat + 10)
  else if 'A' ≤ c ∧ c ≤ 'F' then some (c.toNat - 'A'.toNat + 10)
  else none

/-- `hex::encode`: two lower-case digits for each byte. -/
def hexEncode (bytes : List UInt8) : String :=
  String.ofList (bytes.flatMap fun b => [hexDigit (b.toNat / 16), hexDigit (b.toNat % 16)])

/-- Reads the digits in pairs. -/
def decodeDigits : List Char → Option (List UInt8)
  | [] => some []
  | high :: low :: rest => do
    let h ← hexValue high
    let l ← hexValue low
    let bytes ← decodeDigits rest
    return UInt8.ofNat (16 * h + l) :: bytes
  | [_] => none

/-- `none` when the length is odd or a character is no digit. -/
def hexDecode (hex : String) : Option (List UInt8) := decodeDigits hex.toList

/-! ### Digits -/

/-- The value of a character that is no smaller than `base`. -/
theorem toNat_le_of_le {base c : Char} (h : base ≤ c) : base.toNat ≤ c.toNat :=
  UInt32.le_iff_toNat_le.mp h

/-- A digit that is written is read back. -/
@[simp] theorem hexValue_hexDigit {n : ℕ} (hn : n < 16) : hexValue (hexDigit n) = some n := by
  have hall : ∀ n < 16, hexValue (hexDigit n) = some n := by decide
  exact hall n hn

/-- Lower-case digits are written. -/
theorem isUpper_hexDigit {n : ℕ} (hn : n < 16) : (hexDigit n).isUpper = false := by
  have hall : ∀ n < 16, (hexDigit n).isUpper = false := by decide
  exact hall n hn

/-- A digit that is no upper-case letter is the digit of its value. -/
theorem hexDigit_of_hexValue {c : Char} {n : ℕ} (h : hexValue c = some n)
    (hlower : c.isUpper = false) : hexDigit n = c := by
  have hzero : '0'.toNat = 48 := rfl
  have hnine : '9'.toNat = 57 := rfl
  have ha : 'a'.toNat = 97 := rfl
  have hf : 'f'.toNat = 102 := rfl
  unfold hexValue at h
  split_ifs at h with hdigit hsmall hlarge
  · cases h
    have hlow := toNat_le_of_le hdigit.1
    have hhigh := toNat_le_of_le hdigit.2
    rw [hexDigit, if_pos (by omega), show '0'.toNat + (c.toNat - '0'.toNat) = c.toNat by omega]
    exact Char.ofNat_toNat c
  · cases h
    have hlow := toNat_le_of_le hsmall.1
    have hhigh := toNat_le_of_le hsmall.2
    rw [hexDigit, if_neg (by omega),
      show 'a'.toNat + (c.toNat - 'a'.toNat + 10 - 10) = c.toNat by omega]
    exact Char.ofNat_toNat c
  · have hlow : 65 ≤ c.val := hlarge.1
    -- A digit of the third range is an upper-case letter, which is excluded.
    have hhigh : c.val ≤ 90 := UInt32.le_trans (show c.val ≤ 70 from hlarge.2) (by decide)
    have hupper : c.isUpper = true := decide_eq_true ⟨hlow, hhigh⟩
    rw [hlower] at hupper
    cases hupper

/-- A digit has four bits. -/
theorem hexValue_lt {c : Char} {n : ℕ} (h : hexValue c = some n) : n < 16 := by
  have hnine : '9'.toNat = 57 := rfl
  have hzero : '0'.toNat = 48 := rfl
  have ha : 'a'.toNat = 97 := rfl
  have hf : 'f'.toNat = 102 := rfl
  have hA : 'A'.toNat = 65 := rfl
  have hF : 'F'.toNat = 70 := rfl
  unfold hexValue at h
  split_ifs at h with hdigit hsmall hlarge
  · cases h
    have hhigh := toNat_le_of_le hdigit.2
    omega
  · cases h
    have hhigh := toNat_le_of_le hsmall.2
    omega
  · cases h
    have hhigh := toNat_le_of_le hlarge.2
    omega

/-! ### Strings -/

/-- Reading what was written gives the bytes back. -/
theorem decodeDigits_flatMap (bytes : List UInt8) :
    decodeDigits (bytes.flatMap fun b => [hexDigit (b.toNat / 16), hexDigit (b.toNat % 16)]) =
      some bytes := by
  induction bytes with
  | nil => rfl
  | cons b bytes ih =>
    have hhigh : b.toNat / 16 < 16 := by
      have hb := b.toNat_lt
      omega
    have hlow : b.toNat % 16 < 16 := Nat.mod_lt _ (by decide)
    have hbyte : UInt8.ofNat (16 * (b.toNat / 16) + b.toNat % 16) = b := by
      rw [Nat.div_add_mod, UInt8.ofNat_toNat]
    simp only [List.flatMap_cons, List.cons_append, List.nil_append, decodeDigits,
      hexValue_hexDigit hhigh, hexValue_hexDigit hlow, ih, Option.bind_eq_bind, Option.bind_some,
      hbyte]
    rfl

/-- What is encoded is decoded to the same bytes. -/
@[simp] theorem hexDecode_hexEncode (bytes : List UInt8) :
    hexDecode (hexEncode bytes) = some bytes := by
  rw [hexDecode, hexEncode, String.toList_ofList, decodeDigits_flatMap]

/-- What is written has no upper-case letter. -/
theorem isUpper_of_mem_hexEncode {bytes : List UInt8} {c : Char}
    (hc : c ∈ (hexEncode bytes).toList) : c.isUpper = false := by
  rw [hexEncode, String.toList_ofList] at hc
  obtain ⟨b, -, hmem⟩ := List.mem_flatMap.mp hc
  have hb := b.toNat_lt
  simp only [List.mem_cons, List.not_mem_nil, or_false] at hmem
  rcases hmem with rfl | rfl
  · exact isUpper_hexDigit (by omega)
  · exact isUpper_hexDigit (by omega)

/-- Digits without upper-case letters are what is written for the bytes that they spell. -/
theorem flatMap_of_decodeDigits : ∀ {digits : List Char} {bytes : List UInt8},
    (∀ c ∈ digits, c.isUpper = false) → decodeDigits digits = some bytes →
      bytes.flatMap (fun b => [hexDigit (b.toNat / 16), hexDigit (b.toNat % 16)]) = digits := by
  intro digits
  induction digits using decodeDigits.induct with
  | case1 =>
    intro bytes _ h
    cases h
    rfl
  | case2 high low rest ih =>
    intro bytes hlower h
    simp only [decodeDigits, Option.bind_eq_bind, Option.bind_eq_some_iff] at h
    obtain ⟨x, hx, y, hy, tail, htail, hbytes⟩ := h
    cases hbytes
    have hxlt := hexValue_lt hx
    have hylt := hexValue_lt hy
    -- Two digits are below 16, so the byte does not overflow and its halves are the digits.
    have hbyte : (UInt8.ofNat (16 * x + y)).toNat = 16 * x + y :=
      UInt8.toNat_ofNat_of_lt (by rw [UInt8.size]; omega)
    have hhigh : (16 * x + y) / 16 = x := by omega
    have hlow : (16 * x + y) % 16 = y := by omega
    have hrest := ih (fun c hc => hlower c (by simp [hc])) htail
    rw [List.flatMap_cons, hbyte, hhigh, hlow, hrest,
      hexDigit_of_hexValue hx (hlower high (by simp)),
      hexDigit_of_hexValue hy (hlower low (by simp))]
    rfl
  | case3 c =>
    intro bytes _ h
    cases h

/-- The one spelling of a byte string without upper-case letters. -/
theorem eq_hexEncode_iff {hex : String} {bytes : List UInt8} : hex = hexEncode bytes ↔
    (∀ c ∈ hex.toList, c.isUpper = false) ∧ hexDecode hex = some bytes := by
  constructor
  · intro h
    subst h
    exact ⟨fun c hc => isUpper_of_mem_hexEncode hc, hexDecode_hexEncode bytes⟩
  · intro h
    rw [hexEncode, flatMap_of_decodeDigits h.1 h.2, String.ofList_toList]

end TaceChat
