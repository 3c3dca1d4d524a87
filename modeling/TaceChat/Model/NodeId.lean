import Mathlib.Data.Nat.Digits.Defs
import TaceChat.Library.Clockwise

/-!
# Node ids and the interval test

The shared library crate `tace_lib`: a `NodeId` is a 160-bit big-endian number in twenty
bytes, and the three functions that compute with ids go through `num_bigint::BigUint`, an
unbounded natural number.

`nodeIdToBiguint` reads an id as a number, `biguintToNodeId` writes a number back (its low
twenty bytes), `addIdPowerOf2` is the target of a finger-table entry, and `isBetween` is the
circular interval test every routing decision uses.

`NodeId` is an `IdCircle` of `2 ^ 160` points, and `isBetween_iff` says that `isBetween` is
membership in an arc of that circle.
-/

set_option autoImplicit false

namespace TaceChat

/-- `pub type NodeId = [u8; 20]`. -/
abbrev NodeId := Vector UInt8 20

/-- `BigUint::from_bytes_be`: the number a big-endian byte string spells. -/
def fromBytesBe (bytes : List UInt8) : ℕ := bytes.foldl (fun acc b => acc * 256 + b.toNat) 0

/-- `BigUint::to_bytes_be`: the shortest big-endian byte string that spells `n`, and one zero
byte for zero. -/
def toBytesBe (n : ℕ) : List UInt8 :=
  if n = 0 then [0] else ((Nat.digits 256 n).map UInt8.ofNat).reverse

/-- `node_id_to_biguint`: the bytes are read with the most significant one first. -/
def nodeIdToBiguint (id : NodeId) : ℕ := fromBytesBe id.toList

/-- The twenty bytes of a list: padded with zeros in front, or its last twenty bytes when it is
longer. -/
def lastTwenty (bytes : List UInt8) : List UInt8 :=
  if bytes.length ≤ 20 then List.replicate (20 - bytes.length) 0 ++ bytes
  else bytes.drop (bytes.length - 20)

/-- Shorter numbers are padded, longer ones are cut. -/
theorem length_lastTwenty (bytes : List UInt8) : (lastTwenty bytes).length = 20 := by
  unfold lastTwenty
  split
  · rw [List.length_append, List.length_replicate]
    omega
  · rw [List.length_drop]
    omega

/-- `biguint_to_node_id`. -/
def biguintToNodeId (n : ℕ) : NodeId :=
  ⟨(lastTwenty (toBytesBe n)).toArray, by rw [List.size_toArray, length_lastTwenty]⟩

/-- `(id + 2^i) mod 2^M`. -/
def addIdPowerOf2 (id : NodeId) (i : ℕ) : NodeId :=
  let twoPowI := 1 <<< i
  let twoPowM := 1 <<< 160
  biguintToNodeId ((nodeIdToBiguint id + twoPowI) % twoPowM)

/-- `id` is between `start` and `end` if `start < id <= end` in the circular space. -/
def isBetween (id start «end» : NodeId) : Bool :=
  let idB := nodeIdToBiguint id
  let startB := nodeIdToBiguint start
  let endB := nodeIdToBiguint «end»
  if startB = endB then
    -- The interval (start, end] is empty.
    false
  else if startB < endB then
    startB < idB && idB ≤ endB
  else
    startB < idB || idB ≤ endB

/-! ### Reading and writing bytes -/

/-- A longer string is the value of its front, shifted, plus the value of its end. -/
theorem fromBytesBe_append (front back : List UInt8) :
    fromBytesBe (front ++ back) = fromBytesBe front * 256 ^ back.length + fromBytesBe back := by
  induction back using List.reverseRecOn with
  | nil => simp [fromBytesBe]
  | append_singleton back b ih =>
    have hsnoc : ∀ l : List UInt8, fromBytesBe (l ++ [b]) = fromBytesBe l * 256 + b.toNat := by
      intro l
      simp [fromBytesBe]
    rw [← List.append_assoc, hsnoc, hsnoc, ih, List.length_append, List.length_singleton,
      Nat.pow_succ, Nat.add_mul, Nat.mul_assoc, Nat.add_assoc]

/-- The first byte counts most. -/
theorem fromBytesBe_cons (b : UInt8) (bytes : List UInt8) :
    fromBytesBe (b :: bytes) = b.toNat * 256 ^ bytes.length + fromBytesBe bytes := by
  rw [show b :: bytes = [b] ++ bytes from rfl, fromBytesBe_append]
  simp [fromBytesBe]

/-- A byte string spells a number below the power of its length. -/
theorem fromBytesBe_lt (bytes : List UInt8) : fromBytesBe bytes < 256 ^ bytes.length := by
  induction bytes with
  | nil => simp [fromBytesBe]
  | cons b bytes ih =>
    have hb : b.toNat < 256 := b.toNat_lt
    rw [fromBytesBe_cons, List.length_cons, Nat.pow_succ]
    calc b.toNat * 256 ^ bytes.length + fromBytesBe bytes
        < (b.toNat + 1) * 256 ^ bytes.length := by rw [Nat.add_mul, Nat.one_mul]; omega
      _ ≤ 256 * 256 ^ bytes.length := Nat.mul_le_mul_right _ (by omega)
      _ = 256 ^ bytes.length * 256 := Nat.mul_comm _ _

/-- Byte strings of one length that spell the same number are equal. -/
theorem fromBytesBe_inj {a b : List UInt8} (hlen : a.length = b.length)
    (h : fromBytesBe a = fromBytesBe b) : a = b := by
  induction a generalizing b with
  | nil => exact (List.length_eq_zero_iff.mp hlen.symm).symm
  | cons x a ih =>
    cases b with
    | nil => simp at hlen
    | cons y b =>
      have hlen : a.length = b.length := by simpa using hlen
      rw [fromBytesBe_cons, fromBytesBe_cons, hlen] at h
      have ha := fromBytesBe_lt a
      have hb := fromBytesBe_lt b
      rw [hlen] at ha
      -- Quotient and remainder by the tail's width separate the first byte from the tail.
      have hmod : fromBytesBe a = fromBytesBe b := by
        have := congrArg (· % 256 ^ b.length) h
        simpa [Nat.mul_add_mod_self_right, Nat.mod_eq_of_lt ha, Nat.mod_eq_of_lt hb] using this
      have hxy : x.toNat = y.toNat := by
        rw [hmod] at h
        have hpos : 0 < 256 ^ b.length := Nat.pow_pos (by omega)
        exact Nat.eq_of_mul_eq_mul_right hpos (Nat.add_right_cancel h)
      rw [UInt8.toNat_inj.mp hxy, ih hlen hmod]

/-- An id has 160 bits. -/
theorem nodeIdToBiguint_lt (id : NodeId) : nodeIdToBiguint id < 2 ^ 160 := by
  have h := fromBytesBe_lt id.toList
  rw [Vector.length_toList] at h
  exact h

/-- Distinct ids are distinct numbers. -/
theorem nodeIdToBiguint_inj (a b : NodeId) (h : nodeIdToBiguint a = nodeIdToBiguint b) :
    a = b := by
  have hlist : a.toList = b.toList := fromBytesBe_inj (by simp) h
  exact Vector.toList_inj.mp hlist

/-- The circle of the `2 ^ 160` ids. -/
instance : IdCircle NodeId where
  size := 2 ^ 160
  pos := nodeIdToBiguint
  pos_lt := nodeIdToBiguint_lt
  pos_inj := nodeIdToBiguint_inj

open IdCircle

/-- The interval test is membership in an arc of the circle. -/
theorem isBetween_iff (id start «end» : NodeId) :
    isBetween id start «end» = true ↔ InArc id start «end» := by
  have hid : nodeIdToBiguint id < size NodeId := nodeIdToBiguint_lt id
  have hs : nodeIdToBiguint start < size NodeId := nodeIdToBiguint_lt start
  have he : nodeIdToBiguint «end» < size NodeId := nodeIdToBiguint_lt «end»
  unfold InArc
  rw [cw_eq, cw_eq]
  simp only [isBetween, pos]
  split
  · rename_i heq
    refine iff_of_false Bool.false_ne_true ?_
    rintro ⟨h0, hle⟩
    rw [if_pos (Nat.le_of_eq heq)] at hle
    omega
  · split
    · rw [Bool.and_eq_true, decide_eq_true_eq, decide_eq_true_eq]
      split <;> split <;> omega
    · rw [Bool.or_eq_true, decide_eq_true_eq, decide_eq_true_eq]
      split <;> split <;> omega

/-- The start of an interval is not between its ends. -/
theorem isBetween_start (start «end» : NodeId) : isBetween start start «end» ≠ true := by
  rw [ne_eq, isBetween_iff]
  exact not_inArc_start

end TaceChat
