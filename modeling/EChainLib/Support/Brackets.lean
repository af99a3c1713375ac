import Mathlib

/-! Lists with opening and closing marks, put together from parts in which each opening mark has a
closing mark behind it. What is between two marks lies in one of the parts. -/

namespace EChainLib.Brackets

variable {α : Type*} {first last : α}

def Closed (first last : α) (s : List α) : Prop :=
  ∀ before after, s = before ++ first :: after → last ∈ after

theorem closed_of_absent {s : List α} (absent : first ∉ s) : Closed first last s := by
  rintro before after rfl
  exact absurd (by simp) absent

/-- A part that ends with a closing mark. -/
theorem closed_ended (apart : first ≠ last) (s : List α) : Closed first last (s ++ [last]) := by
  intro before after parts
  rcases List.eq_nil_or_concat after with rfl | ⟨most, final, rfl⟩
  · have ends := List.append_inj_right' parts rfl
    exact absurd (List.singleton_inj.mp ends).symm apart
  · have ends := congrArg List.getLast? parts
    rw [List.concat_eq_append, ← List.cons_append, ← List.append_assoc, List.getLast?_concat,
      List.getLast?_concat, Option.some.injEq] at ends
    simp [ends]

theorem Closed.append {s t : List α} (front : Closed first last s) (back : Closed first last t) :
    Closed first last (s ++ t) := by
  intro before after parts
  rcases List.append_eq_append_iff.mp parts with ⟨more, rfl, rest⟩ | ⟨more, rfl, rest⟩
  · exact back more after rest
  · rcases more with _ | ⟨head, more⟩
    · exact back [] after rest.symm
    · injection rest with same rest
      subst same rest
      exact List.mem_append_left _ (front before more rfl)

/-- A pattern that ends with its only closing mark goes no further than the first one. -/
theorem prefix_of_ends {inner s t : List α} (single : last ∉ inner) (ends : last ∈ s)
    (begins : inner ++ [last] <+: s ++ t) : inner ++ [last] <+: s := by
  obtain ⟨after, shape⟩ := begins
  have cut : inner ++ last :: after = s ++ t := by simpa using shape
  rcases List.append_eq_append_iff.mp cut with ⟨between, rfl, rest⟩ | ⟨between, rfl, _⟩
  · rcases between with _ | ⟨head, between⟩
    · exact absurd (by simpa using ends) single
    · injection rest with same _
      subst same
      exact ⟨between, by simp⟩
  · exact absurd (List.mem_append_left _ ends) single

/-- A pattern that begins in a part which closes what it opens does not leave it. -/
theorem infix_of_begins {inner s t : List α} (closed : Closed first last s) (single : last ∉ inner)
    {place : Nat} (inside : place < s.length)
    (begins : first :: (inner ++ [last]) <+: (s ++ t).drop place) :
    first :: (inner ++ [last]) <:+: s := by
  rw [List.drop_append_of_le_length inside.le, List.drop_eq_getElem_cons inside, List.cons_append,
    List.cons_prefix_cons] at begins
  obtain ⟨same, begins⟩ := begins
  have parts : s = s.take place ++ first :: s.drop (place + 1) := by
    rw [same, ← List.drop_eq_getElem_cons inside, List.take_append_drop]
  have within := prefix_of_ends single (closed _ _ parts) begins
  have here : first :: (inner ++ [last]) <+: s.drop place := by
    rw [List.drop_eq_getElem_cons inside, same]
    exact List.cons_prefix_cons.mpr ⟨rfl, within⟩
  exact here.isInfix.trans (List.drop_suffix place s).isInfix

theorem infix_append_iff {inner s : List α} (closed : Closed first last s) (single : last ∉ inner)
    (t : List α) : first :: (inner ++ [last]) <:+: s ++ t ↔
      first :: (inner ++ [last]) <:+: s ∨ first :: (inner ++ [last]) <:+: t := by
  constructor
  · rintro ⟨before, after, parts⟩
    have begins : first :: (inner ++ [last]) <+: (s ++ t).drop before.length := by
      rw [← parts, List.append_assoc, List.drop_left]
      exact List.prefix_append _ _
    rcases Nat.lt_or_ge before.length s.length with inside | behind
    · exact .inl (infix_of_begins closed single inside begins)
    · rw [List.drop_append, List.drop_eq_nil_of_le behind, List.nil_append] at begins
      exact .inr (begins.isInfix.trans (List.drop_suffix _ t).isInfix)
  · rintro (front | back)
    · exact front.trans (List.prefix_append s t).isInfix
    · exact back.trans (List.suffix_append s t).isInfix

/-- A pattern without a mark is on one side of each such mark. -/
theorem infix_cut_iff {mark : α} {pattern : List α} (without : mark ∉ pattern) (s t : List α) :
    pattern <:+: s ++ mark :: t ↔ pattern <:+: s ∨ pattern <:+: t := by
  constructor
  · rintro ⟨before, after, parts⟩
    rcases List.append_eq_append_iff.mp parts with ⟨more, rfl, _⟩ | ⟨more, reach, rest⟩
    · exact .inl ⟨before, more, rfl⟩
    · rcases more with _ | ⟨head, more⟩
      · exact .inl ⟨before, [], by simpa using reach⟩
      · injection rest with same rest
        subst same rest
        rcases List.append_eq_append_iff.mp reach with ⟨between, _, inside⟩ | ⟨between, _, inside⟩
        · exact absurd (by simp [inside]) without
        · rcases between with _ | ⟨head, between⟩
          · exact absurd (by rw [List.nil_append] at inside; simp [← inside]) without
          · injection inside with _ inside
            subst inside
            exact .inr ⟨between, after, rfl⟩
  · rintro (front | back)
    · exact front.trans (List.prefix_append s _).isInfix
    · exact back.trans ((List.suffix_cons mark t).trans (List.suffix_append s _)).isInfix

theorem not_infix_of_absent {inner s : List α} (absent : first ∉ s) : ¬ first :: inner <:+: s :=
  fun inside => absent (inside.subset List.mem_cons_self)

/-- A pattern is at the beginning, where its first mark is nowhere else. -/
theorem begins_of_once {inner rest : List α} (once : first ∉ rest)
    (inside : first :: inner <:+: first :: rest) : inner <+: rest := by
  rcases List.infix_cons_iff.mp inside with here | later
  · exact (List.cons_prefix_cons.mp here).2
  · exact absurd later (not_infix_of_absent once)

end EChainLib.Brackets
