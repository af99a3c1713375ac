import Mathlib

/-! Long division to the base 2: the divisor is moved up as far as it fits, and taken off
the remainder on its way down. -/

namespace EChainLib.LongDivision

variable {n d : Nat}

/-- `quot` has its digits above `k`, and `rem` is what they leave. -/
structure Remaining (n d k rem quot : Nat) : Prop where
  split : quot * d + rem = n
  bound : rem < 2 ^ k * d
  aligned : 2 ^ k ∣ quot

/-- The digit `k`. -/
def digit (d k rem quot : Nat) : Nat × Nat :=
  if 2 ^ k * d ≤ rem then (rem - 2 ^ k * d, quot + 2 ^ k) else (rem, quot)

theorem Remaining.next {k rem quot : Nat} (left : Remaining n d (k + 1) rem quot) :
    Remaining n d k (digit d k rem quot).1 (digit d k rem quot).2 := by
  obtain ⟨split, bound, aligned⟩ := left
  have lower : 2 ^ k ∣ quot := (pow_dvd_pow 2 (Nat.le_succ k)).trans aligned
  have doubled : 2 ^ (k + 1) * d = 2 ^ k * d + 2 ^ k * d := by ring
  unfold digit
  by_cases taken : 2 ^ k * d ≤ rem
  · rw [if_pos taken]
    refine ⟨?_, by omega, lower.add (dvd_refl _)⟩
    calc (quot + 2 ^ k) * d + (rem - 2 ^ k * d)
        = quot * d + (2 ^ k * d + (rem - 2 ^ k * d)) := by ring
      _ = n := by rw [Nat.add_sub_cancel' taken, split]
  · rw [if_neg taken]
    exact ⟨split, by omega, lower⟩

/-- The digit is set beside the others. -/
theorem Remaining.digit_or {k rem quot : Nat} (left : Remaining n d (k + 1) rem quot) :
    quot ||| 2 ^ k = quot + 2 ^ k := by
  obtain ⟨high, rfl⟩ := left.aligned
  exact (Nat.two_pow_add_eq_or_of_lt (Nat.pow_lt_pow_right (by decide) (Nat.lt_succ_self k)) high).symm

/-- Nothing is left to take off. -/
theorem Remaining.done {k rem quot : Nat} (left : Remaining n d k rem quot) (small : rem < d) :
    quot = n / d ∧ rem = n % d := by
  have positive : 0 < d := Nat.zero_lt_of_lt small
  have unique := (Nat.div_mod_unique (a := n) (b := d) (c := rem) (d := quot) positive).mpr
    ⟨by rw [← left.split, Nat.mul_comm, Nat.add_comm], small⟩
  exact ⟨unique.1.symm, unique.2.symm⟩

theorem Remaining.last {rem quot : Nat} (left : Remaining n d 0 rem quot) : rem < d := by
  simpa using left.bound

/-- Where the divisor starts. -/
theorem Remaining.first {k : Nat} (large : n < 2 ^ k * d) : Remaining n d k n 0 :=
  ⟨by simp, large, dvd_zero _⟩

/-! The number of digits. -/

theorem size_half (n : Nat) (positive : 0 < n) : n.size = (n / 2).size + 1 := by
  apply le_antisymm
  · have below := Nat.lt_size_self (n / 2)
    exact Nat.size_le.mpr (by rw [pow_succ]; omega)
  · apply Nat.lt_size.mpr
    rcases Nat.eq_zero_or_pos (n / 2) with zero | above
    · rw [zero, Nat.size_zero, pow_zero]
      exact positive
    · have last : (n / 2).size ≠ 0 := fun none => above.ne' (Nat.size_eq_zero.mp none)
      obtain ⟨k, size⟩ := Nat.exists_eq_succ_of_ne_zero last
      have high : 2 ^ k ≤ n / 2 := Nat.lt_size.mp (by omega)
      rw [size, Nat.succ_eq_add_one, pow_succ]
      omega

theorem size_halves (upper lower : Nat) (positive : 0 < upper) (small : lower < 2 ^ 64) :
    (upper * 2 ^ 64 + lower).size = 64 + upper.size := by
  apply le_antisymm
  · have below := Nat.lt_size_self upper
    rw [Nat.size_le, pow_add]
    omega
  · have last : upper.size ≠ 0 := fun none => positive.ne' (Nat.size_eq_zero.mp none)
    obtain ⟨k, size⟩ := Nat.exists_eq_succ_of_ne_zero last
    have high : 2 ^ k ≤ upper := Nat.lt_size.mp (by omega)
    rw [size, Nat.succ_eq_add_one, ← Nat.add_assoc]
    apply Nat.lt_size.mpr
    rw [pow_add]
    omega

/-- The divisor at the highest bit of the dividend. -/
theorem moved_up (n d : Nat) (large : 2 ≤ d) (order : d ≤ n) :
    d * 2 ^ (n.size - d.size) < 2 ^ n.size ∧ n < 2 ^ (n.size - d.size + 1) * d ∧
      n.size - d.size + 2 ≤ n.size := by
  have smaller := Nat.size_le_size order
  have two : 2 ≤ d.size := Nat.lt_size.mpr large
  refine ⟨?_, ?_, by omega⟩
  · calc d * 2 ^ (n.size - d.size) < 2 ^ d.size * 2 ^ (n.size - d.size) :=
          Nat.mul_lt_mul_of_pos_right (Nat.lt_size_self d) (Nat.two_pow_pos _)
      _ = 2 ^ n.size := by rw [← pow_add, Nat.add_sub_cancel' smaller]
  · have highest : 2 ^ (d.size - 1) ≤ d := Nat.lt_size.mp (by omega)
    calc n < 2 ^ n.size := Nat.lt_size_self n
      _ = 2 ^ (n.size - d.size + 1) * 2 ^ (d.size - 1) := by
          rw [← pow_add]
          congr 1
          omega
      _ ≤ 2 ^ (n.size - d.size + 1) * d := Nat.mul_le_mul_left _ highest

end EChainLib.LongDivision
