import Mathlib

/-! A list cut into windows of one size, the last one being as long as what is left. -/

namespace EChainLib.Windows

universe u

variable {α : Type u}

/-- The window number `page`, counted from 0. -/
def window (size page : Nat) (items : List α) : List α := (items.drop (page * size)).take size

/-- The number of windows that a list of `count` items fills. -/
def pages (size count : Nat) : Nat := (count - 1) / size + 1

theorem window_past (size page : Nat) (items : List α) (past : items.length ≤ page * size) :
    window size page items = [] := by
  rw [window, List.drop_eq_nil_of_le past, List.take_nil]

theorem windows_take (size total : Nat) (items : List α) :
    ((List.range total).flatMap fun page => window size page items) = items.take (total * size) := by
  induction total with
  | zero => simp
  | succ total ih =>
      rw [List.range_succ, List.flatMap_append, ih, Nat.succ_mul, List.take_add]
      simp [window]

/-- The windows that reach the end list every item once, in order. -/
theorem windows_tile (size total : Nat) (items : List α) (covers : items.length ≤ total * size) :
    ((List.range total).flatMap fun page => window size page items) = items := by
  rw [windows_take, List.take_of_length_le covers]

/-- The number of windows as it is computed with signed numbers. -/
theorem pages_tdiv (size : Int) (count : Nat) (positive : 1 ≤ size) (some : 1 ≤ count) :
    ((count : Int) - 1).tdiv size + 1 = ((pages size.toNat count : Nat) : Int) := by
  rw [pages]
  push_cast [Nat.cast_sub some]
  rw [Int.toNat_of_nonneg (by omega), Int.tdiv_eq_ediv_of_nonneg (by omega)]

theorem pages_cover (size count : Nat) (positive : 0 < size) :
    count ≤ pages size count * size := by
  have division := Nat.div_add_mod (count - 1) size
  have small := Nat.mod_lt (count - 1) positive
  rw [pages, Nat.add_mul, Nat.one_mul, Nat.mul_comm]
  omega

theorem page_past (size count page : Nat) (positive : 0 < size) (past : pages size count ≤ page) :
    count ≤ page * size :=
  (pages_cover size count positive).trans (Nat.mul_le_mul_right size past)

end EChainLib.Windows
