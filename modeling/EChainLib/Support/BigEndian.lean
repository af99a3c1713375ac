import Mathlib

/-! Naturals as big-endian bytes: the shortest spelling, and the one padded with
zero bytes to a fixed length. -/

namespace EChainLib.BigEndian

def decode (bytes : List UInt8) : Nat := Nat.ofDigits 256 (bytes.reverse.map UInt8.toNat)

def shortest (n : Nat) : List UInt8 := ((Nat.digits 256 n).map UInt8.ofNat).reverse

def padded (length n : Nat) : List UInt8 :=
  List.replicate (length - (shortest n).length) 0 ++ shortest n

theorem decode_shortest (n : Nat) : decode (shortest n) = n := by
  have small : ∀ digit ∈ Nat.digits 256 n, (UInt8.toNat ∘ UInt8.ofNat) digit = digit := by
    intro digit member
    have bound := Nat.digits_lt_base (by decide : 1 < 256) member
    simpa using Nat.mod_eq_of_lt bound
  rw [decode, shortest, List.reverse_reverse, List.map_map, List.map_congr_left small, List.map_id']
  exact Nat.ofDigits_digits 256 n

theorem decode_zeros (count : Nat) (bytes : List UInt8) :
    decode (List.replicate count 0 ++ bytes) = decode bytes := by
  simp [decode, Nat.ofDigits_append, Nat.ofDigits_replicate_zero]

theorem shortest_length (length n : Nat) (fits : n < 256 ^ length) :
    (shortest n).length ≤ length := by
  simpa [shortest] using (Nat.digits_length_le_iff (by decide : 1 < 256) n).mpr fits

theorem decode_padded (length n : Nat) : decode (padded length n) = n := by
  rw [padded, decode_zeros, decode_shortest]

theorem padded_length (length n : Nat) (fits : n < 256 ^ length) :
    (padded length n).length = length := by
  have short := shortest_length length n fits
  simp [padded]
  omega

theorem byte_digits (bytes : List UInt8) :
    ∀ digit ∈ bytes.reverse.map UInt8.toNat, digit < 256 := by
  intro digit member
  obtain ⟨byte, -, rfl⟩ := List.mem_map.mp member
  exact byte.toNat_lt

theorem decode_lt (bytes : List UInt8) : decode bytes < 256 ^ bytes.length := by
  simpa [decode] using Nat.ofDigits_lt_base_pow_length (by decide) (byte_digits bytes)

/-- Texts of one length are told apart by their numbers. -/
theorem decode_injective {bytes bytes' : List UInt8} (length : bytes.length = bytes'.length)
    (same : decode bytes = decode bytes') : bytes = bytes' := by
  have digits := Nat.ofDigits_inj_of_len_eq (by decide) (by simpa using length)
    (byte_digits bytes) (byte_digits bytes') same
  have one_byte : Function.Injective UInt8.toNat := fun _ _ => UInt8.toNat_inj.mp
  exact List.reverse_injective (List.map_injective_iff.mpr one_byte digits)

theorem padded_decode (bytes : List UInt8) : padded bytes.length (decode bytes) = bytes :=
  decode_injective (padded_length _ _ (decode_lt bytes)) (decode_padded _ _)

end EChainLib.BigEndian
