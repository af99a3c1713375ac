import Mathlib

/-! Texts put together around a mark that cannot overlap itself. Two of them are
the same text only where the parts agree, or where one side holds a whole copy of
the mark. -/

namespace EChainLib.Separator

variable {α : Type*}

/-- No proper start of the mark is also its end. -/
def Unbordered (mark : List α) : Prop :=
  ∀ length < mark.length, 0 < length → mark.take length ≠ mark.drop (mark.length - length)

instance [DecidableEq α] (mark : List α) : Decidable (Unbordered mark) :=
  inferInstanceAs (Decidable (∀ length < mark.length, _))

theorem overlap_trivial (mark start rest before after : List α) (unbordered : Unbordered mark)
    (split : mark = start ++ rest) (overlap : mark ++ after = rest ++ before) :
    rest = [] ∨ start = [] := by
  by_contra proper
  obtain ⟨some_rest, some_start⟩ := not_or.mp proper
  have total : mark.length = start.length + rest.length := by rw [split, List.length_append]
  have rest_positive := List.length_pos_iff.mpr some_rest
  have start_positive := List.length_pos_iff.mpr some_start
  apply unbordered rest.length (by omega) rest_positive
  have first : mark.take rest.length = rest := by
    have both := congrArg (List.take rest.length) overlap
    rwa [List.take_append_of_le_length (by omega), List.take_left] at both
  have last : mark.drop (mark.length - rest.length) = rest := by
    have place : mark.length - rest.length = start.length := by omega
    rw [place, split, List.drop_left]
  rw [first, last]

/-- What `second` holds more in front of the mark than `first` does, it lacks behind it. -/
def Shifts (mark : List α) (first second : List α × List α) : Prop :=
  ∃ middle, second.1 = first.1 ++ mark ++ middle ∧ first.2 = middle ++ mark ++ second.2

theorem shifts_same (mark : List α) (first second : List α × List α)
    (shifts : Shifts mark first second) :
    first.1 ++ mark ++ first.2 = second.1 ++ mark ++ second.2 := by
  obtain ⟨middle, front, back⟩ := shifts
  rw [front, back]
  simp only [List.append_assoc]

theorem longer_front (mark : List α) (unbordered : Unbordered mark) (first second : List α × List α)
    (more : List α) (front : second.1 = first.1 ++ more)
    (back : mark ++ first.2 = more ++ (mark ++ second.2)) :
    first = second ∨ Shifts mark first second := by
  rcases List.append_eq_append_iff.mp back with ⟨middle, long, behind⟩ | ⟨rest, split, overlap⟩
  · refine .inr ⟨middle, ?_, ?_⟩
    · rw [front, long, List.append_assoc]
    · rw [behind, List.append_assoc]
  · rcases overlap_trivial mark more rest first.2 second.2 unbordered split overlap with
      empty | empty
    · subst empty
      refine .inr ⟨[], ?_, ?_⟩
      · rw [front, split]
        simp
      · simpa using overlap.symm
    · subst empty
      rw [List.append_nil] at front
      rw [List.nil_append] at back
      exact .inl (Prod.ext front.symm (List.append_cancel_left back))

theorem around_mark_iff (mark : List α) (unbordered : Unbordered mark)
    (first second : List α × List α) :
    first.1 ++ mark ++ first.2 = second.1 ++ mark ++ second.2 ↔
      first = second ∨ Shifts mark first second ∨ Shifts mark second first := by
  constructor
  · intro same
    simp only [List.append_assoc] at same
    rcases List.append_eq_append_iff.mp same with ⟨more, front, back⟩ | ⟨more, front, back⟩
    · rcases longer_front mark unbordered first second more front back with equal | shifts
      · exact .inl equal
      · exact .inr (.inl shifts)
    · rcases longer_front mark unbordered second first more front back with equal | shifts
      · exact .inl equal.symm
      · exact .inr (.inr shifts)
  · rintro (rfl | shifts | shifts)
    · rfl
    · exact shifts_same mark first second shifts
    · exact (shifts_same mark second first shifts).symm

end EChainLib.Separator
