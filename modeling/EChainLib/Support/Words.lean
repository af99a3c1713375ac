import Mathlib

/-! Machine words as the numbers they stand for. -/

namespace EChainLib.Words

/-- A mask of ones keeps the last places. -/
theorem toNat_mask (word mask : UInt64) (places : Nat) (ones : mask.toNat = 2 ^ places - 1) :
    (word &&& mask).toNat = word.toNat % 2 ^ places := by
  rw [UInt64.toNat_and, ones, Nat.and_two_pow_sub_one_eq_mod]

/-- A number that is not negative keeps its value without a sign. -/
theorem toNat_toUInt64 (value : Int64) (n : Nat) (counted : value.toInt = n) :
    value.toUInt64.toNat = n := by
  have nonnegative : 0 ≤ value := by
    rw [Int64.le_iff_toInt_le, counted]
    exact Int.natCast_nonneg n
  rw [Int64.toNat_toUInt64_of_le nonnegative, ← Int64.toNat_toInt, counted, Int.toNat_natCast]

theorem toNat_toUInt32 (value : Int32) (n : Nat) (counted : value.toInt = n) :
    value.toUInt32.toNat = n := by
  have nonnegative : 0 ≤ value := by
    rw [Int32.le_iff_toInt_le, counted]
    exact Int.natCast_nonneg n
  rw [Int32.toNat_toUInt32_of_le nonnegative, ← Int32.toNat_toInt, counted, Int.toNat_natCast]

/-- What is left of a size in an `int` is no more than the size. -/
theorem toInt_ofNat_le (size : Nat) : (Int32.ofNat size).toInt.toNat ≤ size := by
  have narrowed : (Int32.ofNat size).toInt = Int.bmod size (2 ^ 32) := Int32.toInt_ofNat'
  rw [narrowed, Int.bmod]
  split_ifs <;> omega

theorem toInt_ofNat_lt (size : Nat) : (Int32.ofNat size).toInt.toNat < 2 ^ 31 := by
  have bound := Int32.toInt_lt (Int32.ofNat size)
  omega

/-- Only a size next to a multiple of 2^32 becomes -1. -/
theorem ofNat_eq_neg_one {size : Nat} (wrapped : Int32.ofNat size = -1) : 2 ^ 32 ≤ size + 1 := by
  have narrowed : (Int32.ofNat size).toInt = Int.bmod size (2 ^ 32) := Int32.toInt_ofNat'
  rw [wrapped, show (-1 : Int32).toInt = -1 from rfl, Int.bmod] at narrowed
  split_ifs at narrowed <;> omega

/-- The byte at a place. -/
theorem toUInt8_shiftRight (word places : UInt64) (inside : places.toNat < 64) :
    (word >>> places).toUInt8 = UInt8.ofNat (word.toNat / 2 ^ places.toNat) := by
  apply UInt8.toNat_inj.mp
  rw [UInt64.toNat_toUInt8, UInt64.toNat_shiftRight, Nat.mod_eq_of_lt inside,
    Nat.shiftRight_eq_div_pow, UInt8.toNat_ofNat']

/-- A byte of a word is that byte of the number the word is cut from. -/
theorem byte_of_part (number start place : Nat) (inside : place + 8 ≤ 32) :
    UInt8.ofNat (number / 2 ^ start % 2 ^ 32 / 2 ^ place) =
      UInt8.ofNat (number / 2 ^ (start + place)) := by
  apply UInt8.toNat_inj.mp
  rw [UInt8.toNat_ofNat', UInt8.toNat_ofNat', pow_add, ← Nat.div_div_eq_div_mul]
  have split : 2 ^ 32 = 2 ^ place * 2 ^ (32 - place) := by
    rw [← pow_add]
    congr 1
    omega
  have aligned : 2 ^ 8 ∣ 2 ^ (32 - place) := pow_dvd_pow 2 (by omega)
  rw [split, Nat.mod_mul_right_div_self, Nat.mod_mod_of_dvd _ aligned]

/-- Numbers are the same as far as their bytes are. -/
theorem bytes_determine (x y count : Nat)
    (same : ∀ i < count, x / 2 ^ (8 * i) % 2 ^ 8 = y / 2 ^ (8 * i) % 2 ^ 8) :
    x % 2 ^ (8 * count) = y % 2 ^ (8 * count) := by
  induction count with
  | zero => rw [Nat.mul_zero, pow_zero, Nat.mod_one, Nat.mod_one]
  | succ count ih =>
      have lower := ih fun i below => same i (below.trans (Nat.lt_succ_self count))
      rw [Nat.mul_succ, pow_add, Nat.mod_mul, Nat.mod_mul, lower, same count (Nat.lt_succ_self count)]

end EChainLib.Words
