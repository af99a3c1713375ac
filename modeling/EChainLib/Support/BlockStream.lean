import Mathlib

/-! A text that is folded block by block, whole or in pieces: what is not yet a block waits
for the next piece. -/

namespace EChainLib.BlockStream

variable {Symbol State : Type*} {n : Nat} [NeZero n]

/-- The whole blocks of a text, and what is left of it. -/
def split (n : Nat) [NeZero n] (text : List Symbol) : List (List Symbol) × List Symbol :=
  if n ≤ text.length then
    let later := split n (text.drop n)
    (text.take n :: later.1, later.2)
  else ([], text)
termination_by text.length
decreasing_by
  have positive := Nat.pos_of_ne_zero (NeZero.ne n)
  simp only [List.length_drop]
  omega

theorem split_short (text : List Symbol) (short : text.length < n) : split n text = ([], text) := by
  rw [split, if_neg (not_le.mpr short)]

theorem split_whole (text : List Symbol) (whole : n ≤ text.length) :
    split n text = (text.take n :: (split n (text.drop n)).1, (split n (text.drop n)).2) := by
  rw [split, if_pos whole]

theorem split_left_short (text : List Symbol) : (split n text).2.length < n := by
  fun_induction split n text with
  | case1 text whole later ih => exact ih
  | case2 text short => exact not_le.mp short

/-- What is left goes in front of what follows. -/
theorem split_append (text more : List Symbol) :
    split n (text ++ more) =
      ((split n text).1 ++ (split n ((split n text).2 ++ more)).1,
        (split n ((split n text).2 ++ more)).2) := by
  fun_induction split n text with
  | case1 text whole later ih =>
      have longer : n ≤ (text ++ more).length := by
        rw [List.length_append]
        exact whole.trans (Nat.le_add_right _ _)
      rw [split_whole _ longer, List.take_append_of_le_length whole,
        List.drop_append_of_le_length whole, ih]
      rfl
  | case2 text short => rfl

theorem split_left_length (text : List Symbol) :
    (split n text).2.length = text.length % n := by
  fun_induction split n text with
  | case1 text whole later ih => rw [ih, List.length_drop, Nat.mod_eq_sub_mod whole]
  | case2 text short => exact (Nat.mod_eq_of_lt (not_le.mp short)).symm

variable (compress : State → List Symbol → State)

/-- The state after the whole blocks of a text. -/
def fold (n : Nat) [NeZero n] (state : State) (text : List Symbol) : State :=
  (split n text).1.foldl compress state

theorem fold_append (state : State) (text more : List Symbol) :
    fold compress n state (text ++ more) =
      fold compress n (fold compress n state text) ((split n text).2 ++ more) := by
  simp only [fold, split_append text more, List.foldl_append]

/-- A block at the end of whole blocks. -/
theorem fold_last (state : State) (text block : List Symbol) (aligned : n ∣ text.length)
    (whole : block.length = n) :
    fold compress n state (text ++ block) = compress (fold compress n state text) block := by
  have nothing : (split n text).2 = [] := by
    apply List.eq_nil_of_length_eq_zero
    rw [split_left_length, Nat.mod_eq_zero_of_dvd aligned]
  have positive := Nat.pos_of_ne_zero (NeZero.ne n)
  have single : split n block = ([block], []) := by
    rw [split_whole _ whole.ge, List.take_of_length_le whole.le, List.drop_of_length_le whole.le,
      split_short [] positive]
  rw [fold_append, nothing, List.nil_append, fold, single]
  rfl

end EChainLib.BlockStream
