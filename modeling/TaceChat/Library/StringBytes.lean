import Mathlib.Data.List.Basic

/-!
# The bytes of a string

`ByteArray.toList` is a loop with an accumulator. It lists the bytes in order
(`ByteArray.toList_eq`), so a string is determined by the list of its UTF-8 bytes
(`String.toUTF8_toList_inj`).
-/

set_option autoImplicit false

/-- The loop of `ByteArray.toList` reverses what it has and appends the bytes that are left. -/
theorem ByteArray.toList_loop_eq (bytes : ByteArray) : ∀ (k i : ℕ) (r : List UInt8),
    bytes.size - i = k →
      ByteArray.toList.loop bytes i r = r.reverse ++ bytes.data.toList.drop i := by
  intro k
  induction k with
  | zero =>
    intro i r hk
    -- All bytes have been read.
    have hend : bytes.data.toList.length ≤ i := by
      rw [Array.length_toList]
      show bytes.size ≤ i
      omega
    rw [ByteArray.toList.loop, if_neg (by omega), List.drop_eq_nil_of_le hend, List.append_nil]
  | succ k ih =>
    intro i r hk
    have hi : i < bytes.size := by omega
    have hlength : i < bytes.data.toList.length := by
      rw [Array.length_toList]
      exact hi
    -- One more byte goes in front of the reversed ones.
    have hbyte : bytes.get! i = bytes.data.toList[i] := by
      show bytes.data[i]! = bytes.data.toList[i]
      rw [getElem!_pos bytes.data i hi, Array.getElem_toList]
    rw [ByteArray.toList.loop, if_pos hi, ih (i + 1) _ (by omega), hbyte, List.reverse_cons,
      List.append_assoc, List.drop_eq_getElem_cons hlength]
    rfl

/-- The list of the bytes is the list of the array. -/
theorem ByteArray.toList_eq (bytes : ByteArray) : bytes.toList = bytes.data.toList := by
  rw [ByteArray.toList, toList_loop_eq bytes bytes.size 0 [] rfl]
  rfl

/-- Different strings have different bytes. -/
theorem String.toUTF8_toList_inj {a b : String} : a.toUTF8.toList = b.toUTF8.toList ↔ a = b := by
  constructor
  · intro h
    rw [ByteArray.toList_eq, ByteArray.toList_eq, Array.toList_inj] at h
    exact String.toByteArray_inj.mp (ByteArray.ext h)
  · intro h
    rw [h]
