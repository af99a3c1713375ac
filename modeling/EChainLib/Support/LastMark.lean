import EChainLib.Support.Strings

/-! A list taken apart at the last of its marks. -/

namespace EChainLib.LastMark

variable {α : Type} [DecidableEq α] (mark : α)

/-- Everything up to the last mark, with it. -/
def upToLast (s : List α) : List α := s.rdropWhile fun a => a ≠ mark

/-- Everything behind the last mark. -/
def behindLast (s : List α) : List α := s.rtakeWhile fun a => a ≠ mark

theorem upToLast_append_behindLast (s : List α) : upToLast mark s ++ behindLast mark s = s :=
  List.rdropWhile_append_rtakeWhile

theorem notMem_behindLast (s : List α) : mark ∉ behindLast mark s := by
  intro member
  have other := List.mem_rtakeWhile_imp member
  simp at other

theorem upToLast_of_notMem (s : List α) (absent : mark ∉ s) : upToLast mark s = [] := by
  refine List.rdropWhile_eq_nil_iff.mpr fun a member => ?_
  exact decide_eq_true (fun same => absent (same ▸ member))

theorem upToLast_append (front tail : List α) (absent : mark ∉ tail) :
    upToLast mark (front ++ tail) = upToLast mark front := by
  induction tail using List.reverseRecOn with
  | nil => rw [List.append_nil]
  | append_singleton tail last ih =>
      obtain ⟨before, other⟩ : mark ∉ tail ∧ mark ≠ last := by simpa using absent
      rw [← List.append_assoc, upToLast, List.rdropWhile_concat_pos _ _ _ (by simpa using other.symm)]
      exact ih before

theorem upToLast_mark (front : List α) : upToLast mark (front ++ [mark]) = front ++ [mark] :=
  List.rdropWhile_concat_neg _ _ _ (by simp)

/-- What is behind the last mark of a tail with none goes on what is behind the last in front. -/
theorem behindLast_append (front tail : List α) (absent : mark ∉ tail) :
    behindLast mark (front ++ tail) = behindLast mark front ++ tail := by
  have whole := upToLast_append_behindLast mark (front ++ tail)
  have front_whole := upToLast_append_behindLast mark front
  rw [upToLast_append mark front tail absent] at whole
  refine List.append_cancel_left (whole.trans ?_)
  rw [← List.append_assoc, front_whole]

theorem upToLast_cut (front tail : List α) (absent : mark ∉ tail) :
    upToLast mark (front ++ mark :: tail) = front ++ [mark] := by
  rw [List.append_cons, upToLast_append mark _ tail absent, upToLast_mark]

theorem behindLast_cut (front tail : List α) (absent : mark ∉ tail) :
    behindLast mark (front ++ mark :: tail) = tail := by
  have whole := upToLast_append_behindLast mark (front ++ mark :: tail)
  have shape : front ++ mark :: tail = front ++ [mark] ++ tail := List.append_cons front mark tail
  rw [upToLast_cut mark front tail absent] at whole
  exact List.append_cancel_left (whole.trans shape)

theorem upToLast_upToLast (s : List α) : upToLast mark (upToLast mark s) = upToLast mark s :=
  List.rdropWhile_idempotent _ s

theorem behindLast_upToLast (s : List α) : behindLast mark (upToLast mark s) = [] := by
  have whole := upToLast_append_behindLast mark (upToLast mark s)
  rw [upToLast_upToLast] at whole
  exact List.append_right_eq_self.mp whole

/-- A list with a mark is cut at the last of them. -/
theorem exists_cut (s : List α) (member : mark ∈ s) :
    ∃ front, s = front ++ mark :: behindLast mark s ∧ upToLast mark s = front ++ [mark] := by
  have whole := upToLast_append_behindLast mark s
  have filled : upToLast mark s ≠ [] := by
    intro empty
    rw [empty, List.nil_append] at whole
    rw [← whole] at member
    exact notMem_behindLast mark s member
  have last := List.rdropWhile_last_not (fun a => decide (a ≠ mark)) s filled
  have stop : (upToLast mark s).getLast filled = mark := by
    rw [decide_eq_true_iff, not_not] at last
    exact last
  have parts := List.dropLast_append_getLast filled
  rw [stop] at parts
  refine ⟨(upToLast mark s).dropLast, ?_, parts.symm⟩
  rw [List.append_cons, parts]
  exact whole.symm

theorem behindLast_append_of_mem (front tail : List α) (member : mark ∈ tail) :
    behindLast mark (front ++ tail) = behindLast mark tail := by
  obtain ⟨before, shape, _⟩ := exists_cut mark tail member
  conv_lhs => rw [shape, ← List.append_assoc]
  exact behindLast_cut mark _ _ (notMem_behindLast mark tail)

theorem rfindIn_missing (s : List α) (absent : mark ∉ s) (pos : Nat) :
    Strings.rfindIn s [mark] pos = -1 := by
  have nowhere : ∀ place, ¬ [mark].isPrefixOf (s.drop place) = true := by
    intro place hit
    obtain ⟨rest, shape⟩ := List.isPrefixOf_iff_prefix.mp hit
    have member : mark ∈ s.drop place := shape ▸ List.mem_cons_self
    exact absent (List.mem_of_mem_drop member)
  induction pos with
  | zero => exact if_neg (nowhere 0)
  | succ pos ih =>
      rw [Strings.rfindIn, if_neg (nowhere (pos + 1))]
      exact ih

/-- `rfind` gives the place of the last mark, which is -1 if there is none. -/
theorem rfind_eq (s : List α) :
    Strings.rfind s [mark] (-1) = (upToLast mark s).length - 1 := by
  rw [Strings.rfind, if_pos (by decide)]
  by_cases member : mark ∈ s
  · obtain ⟨front, shape, cut⟩ := exists_cut mark s member
    have parts : s = front ++ mark :: (behindLast mark s ++ []) := by
      rw [List.append_nil]
      exact shape
    have size : s.length = front.length + (behindLast mark s).length + 1 := by
      have sizes := congrArg List.length shape
      rw [List.length_append, List.length_cons] at sizes
      omega
    have past : s.drop (front.length + (behindLast mark s).length + 1) = [] :=
      List.drop_of_length_le (by omega)
    rw [size, Strings.rfindIn, past, if_neg (by simp), Strings.rfindIn_eq parts (Nat.le_refl _)
      (Nat.le_add_right _ _) (notMem_behindLast mark s), cut]
    simp
  · rw [rfindIn_missing mark s member, upToLast_of_notMem mark s member]
    rfl

end EChainLib.LastMark
