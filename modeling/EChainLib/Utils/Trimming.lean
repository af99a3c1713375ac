import EChainLib.Support.Ends
import EChainLib.Utils.Attributes

/-! `String::TrimLeft`, `TrimRight` and `Trim`, which take the white space off the ends of a
text. -/

namespace EChainLib.Utils

open EChainLib.Keys (Bytes isSpace)
open EChainLib.Ends (LongestSuffix LongestPrefix longestSuffix_dropWhile longestPrefix_rdropWhile
  dropWhile_rdropWhile rdropWhile_cons)

/-- The text that is left in the argument, and returned. -/
def trimLeft (str : Bytes) : Bytes :=
  if str = [] then []
  else
    let nLeftPos := (str.takeWhile isSpace).length
    let nRightPos := str.length - 1
    if nLeftPos > nRightPos then [] else (str.drop nLeftPos).take (nRightPos - nLeftPos + 1)

def trimRight (str : Bytes) : Bytes :=
  if str = [] then []
  else
    let nLeftPos := 0
    let nRightPos := rightPos str nLeftPos (str.length - 1)
    if nLeftPos > nRightPos then [] else (str.drop nLeftPos).take (nRightPos - nLeftPos + 1)

/-- The laws of the three functions at one text. -/
structure TrimsExactly (s : Bytes) : Prop where
  left : LongestSuffix isSpace s (trimLeft s)
  right : LongestPrefix isSpace s (trimRight s)
  left_of_right : trim s = trimLeft (trimRight s)
  right_of_left : trim s = trimRight (trimLeft s)
  left_again : trimLeft (trimLeft s) = trimLeft s
  right_again : trimRight (trimRight s) = trimRight s
  both_again : trim (trim s) = trim s
  blank : (∀ c ∈ s, isSpace c = true) → trimLeft s = [] ∧ trimRight s = [] ∧ trim s = []

theorem trimLeft_eq (s : Bytes) : trimLeft s = s.dropWhile isSpace := by
  have parts := List.takeWhile_append_dropWhile (p := isSpace) (l := s)
  have sizes := congrArg List.length parts
  have rest : s.drop (s.takeWhile isSpace).length = s.dropWhile isSpace := by
    have cut : (s.takeWhile isSpace ++ s.dropWhile isSpace).drop (s.takeWhile isSpace).length =
        s.dropWhile isSpace := List.drop_left
    rwa [parts] at cut
  rw [List.length_append] at sizes
  unfold trimLeft
  by_cases empty : s = []
  · rw [if_pos empty, empty]
    rfl
  have some_char := List.length_pos_iff.mpr empty
  rw [if_neg empty]
  dsimp only
  split_ifs with past
  · exact (List.length_eq_zero_iff.mp (by omega)).symm
  · rw [rest]
    exact List.take_of_length_le (by omega)

/-! The position from the right. -/

theorem rightPos_le (s : Bytes) (left pos : Nat) : rightPos s left pos ≤ pos := by
  induction pos with
  | zero => exact Nat.le_refl 0
  | succ pos ih =>
      rw [rightPos]
      split_ifs
      · omega
      · exact Nat.le_refl _

/-- What stands behind the position is not looked at. -/
theorem rightPos_append (s more : Bytes) (left pos : Nat) (inside : pos < s.length) :
    rightPos (s ++ more) left pos = rightPos s left pos := by
  induction pos with
  | zero => rfl
  | succ pos ih =>
      rw [rightPos, rightPos, ih (by omega), List.getD_append _ _ _ _ inside]

/-- A character that is no space stops the loop, whatever the other bound is. -/
theorem rightPos_stop (s : Bytes) (left pos : Nat) (stop : isSpace (s.getD left 0) = false)
    (inside : left ≤ pos) : rightPos s left pos = rightPos s 0 pos ∧ left ≤ rightPos s 0 pos := by
  induction pos with
  | zero => exact ⟨rfl, inside⟩
  | succ pos ih =>
      rw [rightPos, rightPos]
      by_cases space : isSpace (s.getD (pos + 1) 0) = true
      · have before : left ≠ pos + 1 := by
          rintro rfl
          rw [stop] at space
          exact Bool.false_ne_true space
        rw [if_pos ⟨inside, space⟩, if_pos ⟨Nat.zero_le _, space⟩]
        exact ih (by omega)
      · rw [if_neg fun both => space both.2, if_neg fun both => space both.2]
        exact ⟨rfl, inside⟩

theorem trimRight_take (s : Bytes) (filled : s ≠ []) :
    trimRight s = s.take (rightPos s 0 (s.length - 1) + 1) := by
  rw [trimRight, if_neg filled]
  exact if_neg (Nat.not_lt_zero _)

/-- The last character stays, unless it is a space and not also the first. -/
theorem trimRight_concat (front : Bytes) (last : UInt8) : trimRight (front ++ [last]) =
    if isSpace last = true ∧ front ≠ [] then trimRight front else front ++ [last] := by
  have size : (front ++ [last]).length - 1 = front.length := by simp
  rw [trimRight_take _ (by simp), size]
  rcases List.eq_nil_or_concat' front with rfl | ⟨before, byte, rfl⟩
  · simp [rightPos]
  have filled : before ++ [byte] ≠ [] := by simp
  have places : (before ++ [byte]).length = before.length + 1 := by simp
  have read : (before ++ [byte] ++ [last]).getD (before.length + 1) 0 = last := by simp
  rw [places, rightPos, read]
  by_cases space : isSpace last = true
  · rw [if_pos ⟨Nat.zero_le _, space⟩, if_pos ⟨space, filled⟩, trimRight_take _ filled,
      rightPos_append _ _ _ _ (by omega), places, Nat.add_sub_cancel]
    exact List.take_append_of_le_length (by have := rightPos_le (before ++ [byte]) 0 before.length; omega)
  · rw [if_neg fun both => space both.2, if_neg fun both => space both.1]
    exact List.take_of_length_le (by simp)

/-- Where there is something but white space, `TrimRight` takes off what stands behind it. -/
theorem trimRight_eq (s : Bytes) (solid : ∃ c ∈ s, isSpace c = false) :
    trimRight s = s.rdropWhile isSpace := by
  induction s using List.reverseRecOn with
  | nil => exact absurd solid (by simp)
  | append_singleton front last ih =>
      rw [trimRight_concat]
      by_cases space : isSpace last = true
      · obtain ⟨c, member, plain⟩ := solid
        have before : c ∈ front := by
          rcases List.mem_append.mp member with there | there
          · exact there
          · rw [List.mem_singleton.mp there, space] at plain
            exact absurd plain Bool.true_eq_false.mp
        rw [if_pos ⟨space, List.ne_nil_of_mem before⟩, List.rdropWhile_concat_pos _ _ _ space]
        exact ih ⟨c, before, plain⟩
      · rw [if_neg fun both => space both.1, List.rdropWhile_concat_neg _ _ _ space]

/-- Of white space alone the first character is left. -/
theorem trimRight_blank (s : Bytes) (blank : ∀ c ∈ s, isSpace c = true) :
    trimRight s = s.take 1 := by
  induction s using List.reverseRecOn with
  | nil => rfl
  | append_singleton front last ih =>
      have space := blank last (by simp)
      have before := ih fun c member => blank c (List.mem_append_left _ member)
      rw [trimRight_concat]
      by_cases alone : front = []
      · rw [if_neg fun both => both.2 alone, alone]
        rfl
      · have room := List.length_pos_iff.mpr alone
        rw [if_pos ⟨space, alone⟩, before, List.take_append_of_le_length room]

/-- `Trim` takes off both ends, of white space alone everything. -/
theorem trim_eq (s : Bytes) : trim s = (s.dropWhile isSpace).rdropWhile isSpace := by
  have parts := List.takeWhile_append_dropWhile (p := isSpace) (l := s)
  have sizes := congrArg List.length parts
  rw [List.length_append] at sizes
  unfold trim
  by_cases empty : s = []
  · rw [if_pos empty, empty]
    rfl
  have some_char := List.length_pos_iff.mpr empty
  rw [if_neg empty]
  dsimp only
  by_cases blank : s.dropWhile isSpace = []
  · rw [blank, List.length_nil] at sizes
    have below := rightPos_le s (s.takeWhile isSpace).length (s.length - 1)
    rw [if_pos (by omega), blank]
    rfl
  · obtain ⟨first, more, solid⟩ := List.exists_cons_of_ne_nil blank
    have plain : isSpace first = false := by
      have stopped := List.head?_dropWhile_not isSpace s
      simpa [solid] using stopped
    have place : s.getD (s.takeWhile isSpace).length 0 = first := by
      have read : (s.takeWhile isSpace ++ s.dropWhile isSpace).getD
          (s.takeWhile isSpace).length 0 = first := by
        rw [List.getD_append_right _ _ _ _ (Nat.le_refl _), Nat.sub_self, solid]
        rfl
      rwa [parts] at read
    rw [solid, List.length_cons] at sizes
    obtain ⟨same, beyond⟩ := rightPos_stop s (s.takeWhile isSpace).length (s.length - 1)
      (by rw [place]; exact plain) (by omega)
    have member : first ∈ s := by
      rw [← parts, solid]
      simp
    have kept := (trimRight_take s empty).symm.trans (trimRight_eq s ⟨first, member, plain⟩)
    -- the spaces in front are in front of the text that `TrimRight` leaves, too
    have ends : s.rdropWhile isSpace =
        s.takeWhile isSpace ++ (s.dropWhile isSpace).rdropWhile isSpace := by
      have some_left : (s.dropWhile isSpace).rdropWhile isSpace ≠ [] := by
        rw [Ne, List.rdropWhile_eq_nil_iff, solid]
        intro all
        rw [all first (by simp)] at plain
        exact absurd plain Bool.true_eq_false.mp
      conv_lhs => rw [← parts]
      rw [Cursor.rdropWhile_append, if_neg some_left]
    have cut := congrArg (List.drop (s.takeWhile isSpace).length) (kept.trans ends)
    rw [List.drop_take, List.drop_left] at cut
    rw [same, if_neg (by omega), ← cut]
    congr 1
    omega

theorem trim_eq_trimRight (s : Bytes) : trim s = trimRight (trimLeft s) := by
  rw [trim_eq, trimLeft_eq]
  by_cases blank : s.dropWhile isSpace = []
  · rw [blank]
    rfl
  · obtain ⟨first, more, solid⟩ := List.exists_cons_of_ne_nil blank
    have stopped := List.head?_dropWhile_not isSpace s
    refine (trimRight_eq _ ⟨first, by simp [solid], ?_⟩).symm
    simpa [solid] using stopped

theorem trim_eq_trimLeft (s : Bytes) : trim s = trimLeft (trimRight s) := by
  rw [trim_eq, trimLeft_eq]
  by_cases solid : ∃ c ∈ s, isSpace c = false
  · rw [trimRight_eq s solid, dropWhile_rdropWhile]
  · have blank : ∀ c ∈ s, isSpace c = true := by simpa using solid
    have all : s.dropWhile isSpace = [] := List.dropWhile_eq_nil_iff.mpr blank
    rw [trimRight_blank s blank, all]
    refine (List.dropWhile_eq_nil_iff.mpr fun c member => ?_).symm
    exact blank c (List.mem_of_mem_take member)

theorem trimLeft_trimLeft (s : Bytes) : trimLeft (trimLeft s) = trimLeft s := by
  rw [trimLeft_eq, trimLeft_eq]
  exact List.dropWhile_idempotent isSpace s

theorem trimRight_trimRight (s : Bytes) : trimRight (trimRight s) = trimRight s := by
  by_cases solid : ∃ c ∈ s, isSpace c = false
  · obtain ⟨c, member, plain⟩ := solid
    have kept := trimRight_eq s ⟨c, member, plain⟩
    have again : ∃ c ∈ s.rdropWhile isSpace, isSpace c = false := by
      by_contra none
      have blank : ∀ c ∈ s.rdropWhile isSpace, isSpace c = true := by simpa using none
      have gone := List.rdropWhile_eq_nil_iff.mpr blank
      rw [List.rdropWhile_idempotent] at gone
      rw [List.rdropWhile_eq_nil_iff.mp gone c member] at plain
      exact absurd plain Bool.true_eq_false.mp
    rw [kept, trimRight_eq _ again, List.rdropWhile_idempotent]
  · have blank : ∀ c ∈ s, isSpace c = true := by simpa using solid
    rw [trimRight_blank s blank,
      trimRight_blank _ fun c member => blank c (List.mem_of_mem_take member), List.take_take]
    rfl

theorem trim_trim (s : Bytes) : trim (trim s) = trim s := by
  rw [trim_eq (trim s), trim_eq, dropWhile_rdropWhile, List.dropWhile_idempotent,
    List.rdropWhile_idempotent]

/-- All the laws hold but on a text that is white space and not empty: `TrimRight` leaves its
first character. -/
theorem trimsExactly_iff (s : Bytes) :
    TrimsExactly s ↔ s = [] ∨ ∃ c ∈ s, isSpace c = false := by
  constructor
  · intro exact
    by_contra outside
    obtain ⟨filled, none⟩ := not_or.mp outside
    have blank : ∀ c ∈ s, isSpace c = true := by simpa using none
    have gone := (exact.blank blank).2.1
    rw [trimRight_blank s blank] at gone
    obtain ⟨first, more, rfl⟩ := List.exists_cons_of_ne_nil filled
    exact List.cons_ne_nil _ _ gone
  · intro inside
    have kept : trimRight s = s.rdropWhile isSpace := by
      rcases inside with rfl | solid
      · rfl
      · exact trimRight_eq s solid
    refine ⟨?_, ?_, trim_eq_trimLeft s, trim_eq_trimRight s, trimLeft_trimLeft s,
      trimRight_trimRight s, trim_trim s, fun blank => ?_⟩
    · rw [trimLeft_eq]
      exact longestSuffix_dropWhile s
    · rw [kept]
      exact longestPrefix_rdropWhile s
    · rcases inside with rfl | ⟨c, member, plain⟩
      · exact ⟨rfl, rfl, rfl⟩
      · rw [blank c member] at plain
        exact absurd plain Bool.true_eq_false.mp

theorem trimRight_space : ¬ TrimsExactly [0x20] := by
  intro exact
  have blank : ∀ c ∈ ([0x20] : Bytes), isSpace c = true := by
    intro c member
    rw [List.mem_singleton.mp member]
    rfl
  exact absurd (exact.blank blank).2.1 (by decide)

end EChainLib.Utils
