import Mathlib.Algebra.BigOperators.Fin
import TaceChat.Proofs.IdNetwork

/-!
# Exact id arithmetic

`placeValue` is the number that a byte string of a fixed length spells, as the sum of its place
values, and `bigEndian` the byte string of that length with the low bytes of a number.
`nodeIdToBiguint` computes the first and `biguintToNodeId` the second, for numbers of any size. So
the ids are the numbers modulo 2^160, and `addIdPowerOf2` is an addition modulo 2^160
(`idArithmetic_exact`).
-/

set_option autoImplicit false

namespace TaceChat

variable {w : ℕ}

/-- The place values of the bytes, the first of which is the most significant. -/
def placeValue (bytes : Vector UInt8 w) : ℕ := ∑ i : Fin w, (bytes.get i).toNat * 256 ^ (w - 1 - i)

/-- The byte of each place of a number. -/
def bigEndian (w n : ℕ) : Vector UInt8 w := Vector.ofFn fun i => UInt8.ofNat (n / 256 ^ (w - 1 - i))

/-! ### Place values -/

/-- A byte string of any length spells the sum of its place values. -/
theorem fromBytesBe_eq_sum (bytes : List UInt8) : fromBytesBe bytes =
    ∑ i : Fin bytes.length, (bytes.get i).toNat * 256 ^ (bytes.length - 1 - i) := by
  induction bytes with
  | nil => rfl
  | cons b bytes ih =>
    rw [fromBytesBe_cons, ih]
    show _ = ∑ i : Fin (bytes.length + 1), _
    rw [Fin.sum_univ_succ]
    congr 1
    refine Finset.sum_congr rfl fun i _ => ?_
    show _ = (bytes.get i).toNat * 256 ^ (bytes.length + 1 - 1 - (i + 1))
    rw [show bytes.length + 1 - 1 - (i.val + 1) = bytes.length - 1 - i by omega]

/-- Each byte is read off the number by dividing by its place. -/
theorem toNat_get_eq (bytes : List UInt8) (i : Fin bytes.length) :
    (bytes.get i).toNat = fromBytesBe bytes / 256 ^ (bytes.length - 1 - i) % 256 := by
  have hsplit : bytes = bytes.take i ++ bytes.get i :: bytes.drop (i + 1) := by
    simp
  have hback : (bytes.drop (i + 1)).length = bytes.length - 1 - i := by
    rw [List.length_drop]
    omega
  have hlt := fromBytesBe_lt (bytes.drop (i + 1))
  have hbyte : (bytes.get i).toNat < 256 := UInt8.toNat_lt _
  have hvalue : fromBytesBe bytes =
      (fromBytesBe (bytes.take i) * 256 + (bytes.get i).toNat) * 256 ^ (bytes.length - 1 - i) +
        fromBytesBe (bytes.drop (i + 1)) := by
    conv_lhs => rw [hsplit, fromBytesBe_append, fromBytesBe_cons, List.length_cons, hback, pow_succ]
    ring
  rw [hback] at hlt
  rw [hvalue, Nat.mul_comm _ (256 ^ _), Nat.mul_add_div (Nat.pow_pos (by omega)),
    Nat.div_eq_of_lt hlt, Nat.add_zero, Nat.mul_add_mod_self_right, Nat.mod_eq_of_lt hbyte]

/-- The bytes are read by their place values. -/
theorem fromBytesBe_toList (bytes : Vector UInt8 w) :
    fromBytesBe bytes.toList = placeValue bytes := by
  obtain ⟨⟨bytes⟩, rfl⟩ := bytes
  exact fromBytesBe_eq_sum bytes

/-- A byte string is the one of its number. -/
theorem eq_bigEndian (bytes : Vector UInt8 w) : bytes = bigEndian w (placeValue bytes) := by
  rw [← fromBytesBe_toList]
  obtain ⟨⟨bytes⟩, rfl⟩ := bytes
  ext i hi
  have hbyte := toNat_get_eq bytes ⟨i, hi⟩
  rw [bigEndian, Vector.getElem_ofFn, UInt8.toNat_ofNat']
  exact hbyte

/-- The bytes written for a number spell its remainder modulo 2^160. -/
theorem placeValue_biguintToNodeId (n : ℕ) : placeValue (biguintToNodeId n) = n % 2 ^ 160 := by
  rw [← fromBytesBe_toList]
  exact nodeIdToBiguint_biguintToNodeId n

/-! ### The three functions -/

/-- A number is written as the low twenty bytes of its big-endian form, an id is read as its place
values, the two conversions invert each other, and a power of two is added modulo 2^160. -/
theorem idArithmetic_exact :
    (∀ n, biguintToNodeId n = bigEndian 20 (n % 2 ^ 160)) ∧
      (∀ id, nodeIdToBiguint id = placeValue id ∧ biguintToNodeId (nodeIdToBiguint id) = id) ∧
      ∀ id i, placeValue (addIdPowerOf2 id i) = (placeValue id + 2 ^ i) % 2 ^ 160 := by
  have hread (id : NodeId) : nodeIdToBiguint id = placeValue id := fromBytesBe_toList id
  refine ⟨fun n => ?_, fun id => ⟨hread id, ?_⟩, fun id i => ?_⟩
  · rw [← placeValue_biguintToNodeId]
    exact eq_bigEndian _
  · apply nodeIdToBiguint_inj
    rw [nodeIdToBiguint_biguintToNodeId, Nat.mod_eq_of_lt (nodeIdToBiguint_lt id)]
  · rw [← hread, ← hread]
    exact nodeIdToBiguint_addIdPowerOf2 id i

end TaceChat
