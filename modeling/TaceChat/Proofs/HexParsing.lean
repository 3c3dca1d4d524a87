import TaceChat.Model.WebHex

/-!
# What the hex parser of the web client accepts

`isNaN` is the only check that the parser makes of a chunk, and `parseInt` gives a number for more
chunks than those of two digits. `Misread` says which (`isSome_parseInt_iff`). The loop reads the
chunks of a string one by one (`hexToUint8Array_eq_mapM`). So the strings that it wrongly accepts
are those of even length with a misread chunk and no chunk that is `NaN`
(`hexToUint8Array_exact_iff`).

What the server encodes has two digits in each chunk, and the client reads it as `hex::decode` does
(`hexToUint8Array_of_hexDecode`).
-/

set_option autoImplicit false

namespace TaceChat

/-- The code units `0`-`9`, `a`-`f` and `A`-`F`. -/
def IsHexDigit (u : UInt16) : Prop :=
  (codeUnit '0' ≤ u ∧ u ≤ codeUnit '9') ∨ (codeUnit 'a' ≤ u ∧ u ≤ codeUnit 'f') ∨
    (codeUnit 'A' ≤ u ∧ u ≤ codeUnit 'F')

/-- Whether a code unit is a digit can be computed. -/
instance (u : UInt16) : Decidable (IsHexDigit u) := inferInstanceAs (Decidable (_ ∨ _))

/-- An even number of digits. -/
def IsHexString (s : JsString) : Prop := s.length % 2 = 0 ∧ ∀ u ∈ s, IsHexDigit u

/-- The chunks of two code units. -/
def chunks : JsString → List (UInt16 × UInt16)
  | [] => []
  | [_] => []
  | first :: second :: rest => (first, second) :: chunks rest

/-- A chunk of two digits. -/
def TwoDigits (chunk : UInt16 × UInt16) : Prop := IsHexDigit chunk.1 ∧ IsHexDigit chunk.2

/-- The prefixes `0x` and `0X`. -/
def IsBaseMark (chunk : UInt16 × UInt16) : Prop :=
  chunk = (codeUnit '0', codeUnit 'x') ∨ chunk = (codeUnit '0', codeUnit 'X')

/-- A chunk that `parseInt` reads as a number though it is not two digits: a digit in front of
something else, or white space or a sign in front of a digit. -/
def Misread (chunk : UInt16 × UInt16) : Prop :=
  (IsHexDigit chunk.1 ∧ ¬IsHexDigit chunk.2 ∧ ¬IsBaseMark chunk) ∨
    ((isWhiteSpaceUnit chunk.1 = true ∨ isSign chunk.1 = true) ∧ IsHexDigit chunk.2)

/-- The parser returns an array for a hex string and throws for any other string. -/
def AcceptsExactlyHex (s : JsString) : Prop :=
  (IsHexString s → ∃ bytes, hexToUint8Array s = .ok bytes) ∧
    (¬IsHexString s → hexToUint8Array s = .error invalidHexString)

/-! ### Classes of code units -/

/-- Digits have a value, and nothing else has. -/
theorem isSome_digitValue {u : UInt16} : (digitValue u).isSome = true ↔ IsHexDigit u := by
  unfold digitValue IsHexDigit
  split_ifs <;> simp_all

/-- The digits lie between `0` and `f`. -/
theorem toNat_of_isHexDigit {u : UInt16} (h : IsHexDigit u) : 48 ≤ u.toNat ∧ u.toNat < 103 := by
  have hbounds {low high : UInt16} (hlow : 48 ≤ low.toNat) (hhigh : high.toNat < 103)
      (hu : low ≤ u ∧ u ≤ high) : 48 ≤ u.toNat ∧ u.toNat < 103 :=
    ⟨Nat.le_trans hlow hu.1, Nat.lt_of_le_of_lt hu.2 hhigh⟩
  rcases h with h | h | h
  · exact hbounds (by decide) (by decide) h
  · exact hbounds (by decide) (by decide) h
  · exact hbounds (by decide) (by decide) h

/-- A digit is no white space. -/
theorem isWhiteSpaceUnit_of_isHexDigit {u : UInt16} (h : IsHexDigit u) :
    isWhiteSpaceUnit u = false := by
  have hall : ∀ n < 103, 48 ≤ n → isJsWhiteSpace (Char.ofNat n) = false := by decide
  obtain ⟨hlow, hhigh⟩ := toNat_of_isHexDigit h
  exact hall u.toNat hhigh hlow

/-- A digit is no sign. -/
theorem isSign_of_isHexDigit {u : UInt16} (h : IsHexDigit u) : isSign u = false := by
  have hlow := (toNat_of_isHexDigit h).1
  have hne {v : UInt16} (hv : v.toNat < 48) : u ≠ v := by
    intro huv
    subst huv
    omega
  simp [isSign, hne (show (codeUnit '+').toNat < 48 by decide),
    hne (show (codeUnit '-').toNat < 48 by decide)]

/-- A sign is no white space. -/
theorem isWhiteSpaceUnit_of_isSign {u : UInt16} (h : isSign u = true) :
    isWhiteSpaceUnit u = false := by
  simp only [isSign, Bool.or_eq_true, decide_eq_true_eq] at h
  rcases h with rfl | rfl <;> decide

/-! ### One chunk -/

/-- The longest front of digits is empty when no digit stands first. -/
theorem takeWhile_digits_eq_nil (s : JsString) :
    s.takeWhile (fun u => (digitValue u).isSome) = [] ↔ ¬∃ u, s.head? = some u ∧ IsHexDigit u := by
  cases s with
  | nil => simp
  | cons u rest =>
    rw [List.takeWhile_cons]
    split
    · rename_i hu
      simp [isSome_digitValue.mp hu]
    · rename_i hu
      rw [isSome_digitValue] at hu
      simp [hu]

/-- A number is read when a digit stands behind the white space, the sign and the prefix. -/
theorem isSome_parseInt (s : JsString) : (parseInt s).isSome = true ↔
    ∃ u, (stripPrefix (skipSign (s.dropWhile isWhiteSpaceUnit))).head? = some u ∧ IsHexDigit u := by
  simp only [parseInt]
  split
  · rename_i hnil
    exact iff_of_false Bool.false_ne_true ((takeWhile_digits_eq_nil _).mp hnil)
  · rename_i hdigits
    exact iff_of_true rfl (not_not.mp (mt (takeWhile_digits_eq_nil _).mpr hdigits))

/-- What `parseInt` skips stands in front. -/
theorem stripPrefix_suffix (s : JsString) : stripPrefix s <:+ s := by
  unfold stripPrefix
  split
  · exact List.drop_suffix 2 s
  · exact List.suffix_refl s

/-- A sign is cut off in front. -/
theorem skipSign_suffix (s : JsString) : skipSign s <:+ s := by
  unfold skipSign
  split
  · exact List.tail_suffix s
  · exact List.suffix_refl s

/-- White space in front makes no difference. -/
theorem parseInt_cons_of_white {u : UInt16} (h : isWhiteSpaceUnit u = true) (s : JsString) :
    parseInt (u :: s) = parseInt s := by
  simp only [parseInt]
  rw [List.dropWhile_cons_of_pos h]

/-- What is skipped stands in front, so the digit of a single code unit is that code unit. -/
theorem isSome_parseInt_singleton (u : UInt16) : (parseInt [u]).isSome = true ↔ IsHexDigit u := by
  rw [isSome_parseInt]
  constructor
  · intro h
    obtain ⟨v, hhead, hv⟩ := h
    have hsuffix := ((stripPrefix_suffix _).trans (skipSign_suffix _)).trans
      (List.dropWhile_suffix (l := [u]) isWhiteSpaceUnit)
    have hmem := hsuffix.subset (List.mem_of_head? hhead)
    rw [List.mem_singleton] at hmem
    rw [← hmem]
    exact hv
  · intro h
    refine ⟨u, ?_, h⟩
    simp [isWhiteSpaceUnit_of_isHexDigit h, skipSign, isSign_of_isHexDigit h, stripPrefix]

/-- Behind a sign stands a digit. -/
theorem isSome_parseInt_sign {a b : UInt16} (h : isSign a = true) :
    (parseInt [a, b]).isSome = true ↔ IsHexDigit b := by
  have hskip : skipSign [a, b] = [b] := by simp [skipSign, h]
  have hstrip : stripPrefix [b] = [b] := by simp [stripPrefix]
  rw [isSome_parseInt, List.dropWhile_cons_of_neg (by simp [isWhiteSpaceUnit_of_isSign h]), hskip,
    hstrip]
  simp

/-- Otherwise the first code unit is a digit, and not that of a prefix. -/
theorem isSome_parseInt_pair {a b : UInt16} (hwhite : isWhiteSpaceUnit a = false)
    (hsign : isSign a = false) :
    (parseInt [a, b]).isSome = true ↔ IsHexDigit a ∧ ¬IsBaseMark (a, b) := by
  have hskip : skipSign [a, b] = [a, b] := by simp [skipSign, hsign]
  have hbase : [a, b].take 2 = [codeUnit '0', codeUnit 'x'] ∨
      [a, b].take 2 = [codeUnit '0', codeUnit 'X'] ↔ IsBaseMark (a, b) := by
    simp [IsBaseMark]
  rw [isSome_parseInt, List.dropWhile_cons_of_neg (by simp [hwhite]), hskip]
  by_cases h : IsBaseMark (a, b)
  · rw [stripPrefix, if_pos (hbase.mpr h)]
    simp [h]
  · rw [stripPrefix, if_neg (mt hbase.mp h)]
    simp [h]

/-- `parseInt` reads the chunks of two digits and the misread ones, and no others. -/
theorem isSome_parseInt_iff (chunk : UInt16 × UInt16) :
    (parseInt [chunk.1, chunk.2]).isSome = true ↔ TwoDigits chunk ∨ Misread chunk := by
  obtain ⟨a, b⟩ := chunk
  by_cases ha : IsHexDigit a
  · have hwhite := isWhiteSpaceUnit_of_isHexDigit ha
    have hsign := isSign_of_isHexDigit ha
    rw [isSome_parseInt_pair hwhite hsign]
    by_cases hb : IsHexDigit b
    · have hmark : ¬IsBaseMark (a, b) := by
        intro hmark
        rcases hmark with h | h
        · cases h
          exact absurd hb (by decide)
        · cases h
          exact absurd hb (by decide)
      simp [TwoDigits, Misread, ha, hb, hmark]
    · simp [TwoDigits, Misread, ha, hb, hwhite, hsign]
  · by_cases hwhite : isWhiteSpaceUnit a = true
    · rw [parseInt_cons_of_white hwhite, isSome_parseInt_singleton]
      simp [TwoDigits, Misread, ha, hwhite]
    · by_cases hsign : isSign a = true
      · rw [isSome_parseInt_sign hsign]
        simp [TwoDigits, Misread, ha, hsign]
      · rw [isSome_parseInt_pair (by simpa using hwhite) (by simpa using hsign)]
        simp [TwoDigits, Misread, ha, hwhite, hsign]

/-! ### The loop -/

/-- What the loop reads from a chunk. -/
def readChunk (chunk : UInt16 × UInt16) : Except String UInt8 :=
  (parseInt [chunk.1, chunk.2]).elim (.error invalidHexString) fun byteValue =>
    .ok (UInt8.ofInt byteValue)

/-- The body of the loop reads the chunk behind `front`. -/
theorem setByte_append (front rest : JsString) (a b : UInt16) (arrayBuffer : List UInt8) :
    setByte (front ++ a :: b :: rest) arrayBuffer front.length =
      (readChunk (a, b)).map fun byte => arrayBuffer.set (front.length / 2) byte := by
  have hchunk : substr (front ++ a :: b :: rest) front.length 2 = [a, b] := by
    simp [substr]
  simp only [setByte, readChunk, hchunk]
  cases parseInt [a, b] with
  | none => rfl
  | some byteValue => rfl

/-- With `bytes` read from `front`, the loop goes through the chunks of the rest. -/
theorem foldlM_setByte (rest : JsString) : ∀ (front : JsString) (bytes : List UInt8),
    front.length = 2 * bytes.length →
      (List.range' front.length (rest.length / 2) 2).foldlM (setByte (front ++ rest))
          (bytes ++ List.replicate (rest.length / 2) 0) =
        ((chunks rest).mapM readChunk).map (bytes ++ ·) := by
  induction rest using chunks.induct with
  | case1 =>
    intro front bytes _
    simp [chunks, Except.map, pure, Except.pure]
  | case2 u =>
    intro front bytes _
    simp [chunks, Except.map, pure, Except.pure]
  | case3 a b rest ih =>
    intro front bytes hfront
    have hcount : (a :: b :: rest).length / 2 = rest.length / 2 + 1 := by
      rw [List.length_cons, List.length_cons]
      omega
    rw [hcount, List.range'_succ, List.foldlM_cons, List.replicate_succ, setByte_append, chunks,
      List.mapM_cons]
    cases readChunk (a, b) with
    | error e => rfl
    | ok byte =>
      have hset : (bytes ++ 0 :: List.replicate (rest.length / 2) 0).set (front.length / 2) byte =
          (bytes ++ [byte]) ++ List.replicate (rest.length / 2) 0 := by
        rw [show front.length / 2 = bytes.length by omega]
        simp
      have hnext := ih (front ++ [a, b]) (bytes ++ [byte]) (by simp; omega)
      rw [List.length_append, List.append_assoc front] at hnext
      simp only [hset, Except.map]
      show (List.range' (front.length + 2) (rest.length / 2) 2).foldlM
        (setByte (front ++ a :: b :: rest)) _ = _
      refine Eq.trans hnext ?_
      cases (chunks rest).mapM readChunk with
      | error e => rfl
      | ok tail =>
        show Except.ok (bytes ++ [byte] ++ tail) = Except.ok (bytes ++ byte :: tail)
        rw [List.append_assoc, List.singleton_append]

/-- A string of even length is read chunk by chunk. -/
theorem hexToUint8Array_eq_mapM {s : JsString} (heven : s.length % 2 = 0) :
    hexToUint8Array s = (chunks s).mapM readChunk := by
  have hloop := foldlM_setByte s [] [] rfl
  rw [hexToUint8Array, if_neg (by omega)]
  refine Eq.trans hloop ?_
  cases (chunks s).mapM readChunk with
  | error e => rfl
  | ok bytes => rfl

example : hexToUint8Array (utf16 " 1+1-1") = .ok [1, 1, 255] := by decide +kernel

/-- The chunks are read until one of them is neither two digits nor misread. -/
theorem mapM_readChunk_cases (l : List (UInt16 × UInt16)) :
    ((∃ bytes, l.mapM readChunk = .ok bytes) ∧ ∀ chunk ∈ l, TwoDigits chunk ∨ Misread chunk) ∨
      (l.mapM readChunk = .error invalidHexString ∧
        ∃ chunk ∈ l, ¬TwoDigits chunk ∧ ¬Misread chunk) := by
  induction l with
  | nil => exact .inl ⟨⟨[], rfl⟩, by simp⟩
  | cons chunk l ih =>
    have hsome := isSome_parseInt_iff chunk
    rw [List.mapM_cons, readChunk]
    cases hparse : parseInt [chunk.1, chunk.2] with
    | none =>
      rw [hparse] at hsome
      right
      refine ⟨rfl, chunk, List.mem_cons_self, ?_⟩
      rw [← not_or, ← hsome]
      exact Bool.false_ne_true
    | some byteValue =>
      rw [hparse] at hsome
      have hchunk := hsome.mp rfl
      rcases ih with ⟨⟨bytes, hbytes⟩, hall⟩ | ⟨herror, bad, hmem, hbad⟩
      · left
        rw [hbytes]
        exact ⟨⟨UInt8.ofInt byteValue :: bytes, rfl⟩, List.forall_mem_cons.mpr ⟨hchunk, hall⟩⟩
      · right
        rw [herror]
        exact ⟨rfl, bad, List.mem_cons_of_mem _ hmem, hbad⟩

/-- The digits of a string of even length are those of its chunks. -/
theorem forall_isHexDigit_iff (s : JsString) (heven : s.length % 2 = 0) :
    (∀ u ∈ s, IsHexDigit u) ↔ ∀ chunk ∈ chunks s, TwoDigits chunk := by
  induction s using chunks.induct with
  | case1 => simp [chunks]
  | case2 u => cases heven
  | case3 a b rest ih =>
    rw [List.length_cons, List.length_cons] at heven
    rw [chunks, List.forall_mem_cons, List.forall_mem_cons, List.forall_mem_cons, ih (by omega),
      TwoDigits, and_assoc]

/-! ### The encoder of the server -/

/-- Two digits spell the byte of their values. -/
theorem readChunk_of_digits {a b : UInt16} {x y : ℕ} (ha : digitValue a = some x)
    (hb : digitValue b = some y) : readChunk (a, b) = .ok (UInt8.ofNat (16 * x + y)) := by
  have hfirst : IsHexDigit a := isSome_digitValue.mp (by rw [ha]; rfl)
  have hsecond : IsHexDigit b := isSome_digitValue.mp (by rw [hb]; rfl)
  have hsign := isSign_of_isHexDigit hfirst
  have hminus : a ≠ codeUnit '-' := by
    intro h
    rw [h] at hsign
    cases hsign
  -- The second digit is none of the two letters of a prefix.
  have hne {v : UInt16} (hv : digitValue v = none) : b ≠ v := by
    intro h
    rw [h, hv] at hb
    cases hb
  have hstrip : stripPrefix [a, b] = [a, b] := by
    simp [stripPrefix, hne (show digitValue (codeUnit 'x') = none by decide),
      hne (show digitValue (codeUnit 'X') = none by decide)]
  have hparse : parseInt [a, b] = some ((16 * x + y : ℕ) : ℤ) := by
    simp [parseInt, isWhiteSpaceUnit_of_isHexDigit hfirst, skipSign, hsign, hminus, hstrip, ha, hb]
  have hbyte : UInt8.ofInt ((16 * x + y : ℕ) : ℤ) = UInt8.ofNat (16 * x + y) := by
    rw [UInt8.ofInt, ← UInt8.toNat_inj, UInt8.toNat_ofNat', UInt8.toNat_ofNat']
    omega
  rw [readChunk, hparse, Option.elim_some, hbyte]

/-- A digit of the decoder is one of `parseInt`, with the same value. -/
theorem digitValue_codeUnit {c : Char} {n : ℕ} (h : hexValue c = some n) :
    digitValue (codeUnit c) = some n ∧ c.toNat < 0x10000 := by
  have hall : ∀ n < 128, digitValue (codeUnit (Char.ofNat n)) = hexValue (Char.ofNat n) := by
    decide
  have hlow : c.toNat < 128 := by
    unfold hexValue at h
    split_ifs at h with hdigit hsmall hlarge
    · exact Nat.lt_of_le_of_lt (toNat_le_of_le hdigit.2) (by decide)
    · exact Nat.lt_of_le_of_lt (toNat_le_of_le hsmall.2) (by decide)
    · exact Nat.lt_of_le_of_lt (toNat_le_of_le hlarge.2) (by decide)
  have heq := hall c.toNat hlow
  rw [Char.ofNat_toNat, h] at heq
  exact ⟨heq, by omega⟩

/-- What the server decodes to bytes, the client reads as the same bytes. -/
theorem mapM_readChunk_of_decodeDigits (digits : List Char) : ∀ bytes : List UInt8,
    decodeDigits digits = some bytes →
      (digits.map codeUnit).length % 2 = 0 ∧ utf16 (String.ofList digits) = digits.map codeUnit ∧
        (chunks (digits.map codeUnit)).mapM readChunk = .ok bytes := by
  induction digits using decodeDigits.induct with
  | case1 =>
    intro bytes h
    cases h
    exact ⟨rfl, by simp [utf16], rfl⟩
  | case2 high low rest ih =>
    intro bytes h
    simp only [decodeDigits, Option.bind_eq_bind, Option.bind_eq_some_iff] at h
    obtain ⟨x, hx, y, hy, tail, htail, hbytes⟩ := h
    cases hbytes
    obtain ⟨hdigit, hhigh⟩ := digitValue_codeUnit hx
    obtain ⟨hdigit', hlow⟩ := digitValue_codeUnit hy
    obtain ⟨heven, hunits, hread⟩ := ih tail htail
    refine ⟨?_, ?_, ?_⟩
    · rw [List.map_cons, List.map_cons, List.length_cons, List.length_cons]
      omega
    · simp only [utf16, String.toList_ofList] at hunits
      simp only [utf16, String.toList_ofList, List.flatMap_cons, if_pos hhigh, if_pos hlow, hunits]
      rfl
    · rw [List.map_cons, List.map_cons, chunks, List.mapM_cons, readChunk_of_digits hdigit hdigit',
        hread]
      rfl
  | case3 c =>
    intro bytes h
    cases h

/-- What the node decodes, the client decodes to the same bytes. -/
theorem hexToUint8Array_of_hexDecode {hex : String} {bytes : List UInt8}
    (h : hexDecode hex = some bytes) : hexToUint8Array (utf16 hex) = .ok bytes := by
  obtain ⟨heven, hunits, hread⟩ := mapM_readChunk_of_decodeDigits hex.toList bytes h
  rw [String.ofList_toList] at hunits
  rw [hunits, hexToUint8Array_eq_mapM heven]
  exact hread

/-! ### The parser -/

/-- Two digits are not misread. -/
theorem not_misread_of_twoDigits {chunk : UInt16 × UInt16} (h : TwoDigits chunk) :
    ¬Misread chunk := by
  intro hmisread
  rcases hmisread with ⟨-, hsecond, -⟩ | ⟨hwhite | hsign, -⟩
  · exact hsecond h.2
  · rw [isWhiteSpaceUnit_of_isHexDigit h.1] at hwhite
    cases hwhite
  · rw [isSign_of_isHexDigit h.1] at hsign
    cases hsign

/-- When `parseInt` gives a number for each chunk, the string is hex if no chunk is misread. -/
theorem isHexString_iff_of_numbers {s : JsString} (heven : s.length % 2 = 0)
    (hall : ∀ chunk ∈ chunks s, TwoDigits chunk ∨ Misread chunk) :
    IsHexString s ↔ ¬∃ chunk ∈ chunks s, Misread chunk := by
  rw [IsHexString, and_iff_right heven, forall_isHexDigit_iff s heven]
  constructor
  · intro htwo hmisread
    obtain ⟨chunk, hmem, hmisread⟩ := hmisread
    exact not_misread_of_twoDigits (htwo chunk hmem) hmisread
  · intro hnone chunk hmem
    cases hall chunk hmem with
    | inl htwo => exact htwo
    | inr hmisread => exact absurd ⟨chunk, hmem, hmisread⟩ hnone

/-- A string of even length is accepted or refused rightly unless `parseInt` gives a number for
each chunk and misreads one. -/
theorem acceptsExactlyHex_iff {s : JsString} (heven : s.length % 2 = 0) :
    AcceptsExactlyHex s ↔ ((∃ chunk ∈ chunks s, Misread chunk) →
      ∃ chunk ∈ chunks s, ¬TwoDigits chunk ∧ ¬Misread chunk) := by
  have hread := hexToUint8Array_eq_mapM heven
  rcases mapM_readChunk_cases (chunks s) with ⟨⟨bytes, hok⟩, hall⟩ | ⟨herror, bad, hmem, hbad⟩
  · rw [hok] at hread
    have hnone : ¬∃ chunk ∈ chunks s, ¬TwoDigits chunk ∧ ¬Misread chunk := by
      intro hbad
      obtain ⟨bad, hmem, htwo, hmisread⟩ := hbad
      exact (hall bad hmem).elim htwo hmisread
    have haccepts : AcceptsExactlyHex s ↔ IsHexString s := by
      simp [AcceptsExactlyHex, hread]
    rw [haccepts, isHexString_iff_of_numbers heven hall, imp_iff_not hnone]
  · rw [herror] at hread
    have hnot : ¬IsHexString s := by
      intro h
      exact hbad.1 ((forall_isHexDigit_iff s heven).mp h.2 bad hmem)
    exact iff_of_true ⟨fun h => absurd h hnot, fun _ => hread⟩ fun _ => ⟨bad, hmem, hbad⟩

/-- The parser accepts exactly hex, except in a string of even length that has a misread chunk and
no chunk at which `parseInt` gives `NaN`. It reads all that the server encodes. -/
theorem hexToUint8Array_exact_iff (s : JsString) (bytes : List UInt8) :
    (AcceptsExactlyHex s ↔
        (s.length % 2 = 0 → (∃ chunk ∈ chunks s, Misread chunk) →
          ∃ chunk ∈ chunks s, ¬TwoDigits chunk ∧ ¬Misread chunk)) ∧
      hexToUint8Array (utf16 (hexEncode bytes)) = .ok bytes := by
  refine ⟨?_, hexToUint8Array_of_hexDecode (hexDecode_hexEncode bytes)⟩
  by_cases heven : s.length % 2 = 0
  · rw [acceptsExactlyHex_iff heven]
    exact ⟨fun h _ => h, fun h => h heven⟩
  · have hodd : hexToUint8Array s = .error invalidHexString := by
      rw [hexToUint8Array, if_pos heven]
    exact iff_of_true ⟨fun h => absurd h.1 heven, fun _ => hodd⟩ fun h => absurd h heven

/-- `1g` is no hex string, and the parser returns the byte 1. -/
theorem hexToUint8Array_misread :
    hexToUint8Array (utf16 "1g") = .ok [1] ∧ ¬AcceptsExactlyHex (utf16 "1g") := by
  have hread : hexToUint8Array (utf16 "1g") = .ok [1] := by decide +kernel
  have hnot : ¬IsHexString (utf16 "1g") := by
    intro h
    exact absurd (h.2 (codeUnit 'g') (by decide +kernel)) (by decide)
  refine ⟨hread, fun haccepts => ?_⟩
  have herror := haccepts.2 hnot
  rw [hread] at herror
  cases herror

end TaceChat
