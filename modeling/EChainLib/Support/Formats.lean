import Mathlib

/-! Formats with conversions: a mark and a letter stand for the next argument, and two marks for
one. -/

namespace EChainLib.Formats

variable {α β : Type} [DecidableEq α] (mark : α) (convert : α → β → Option (List α))

/-- `none` is a format that means nothing: the mark is its end, the letter does not fit the
argument, or no argument is left. -/
def expand : List α → List β → Option (List α)
  | [], _ => some []
  | [c], _ => if c = mark then none else some [c]
  | c :: letter :: rest, arguments =>
      if c ≠ mark then (expand (letter :: rest) arguments).map (c :: ·)
      else if letter = mark then (expand rest arguments).map (mark :: ·)
      else
        match arguments with
        | [] => none
        | argument :: arguments => do
            let text ← convert letter argument
            let more ← expand rest arguments
            return text ++ more

variable {mark} {convert}

theorem expand_cons (c : α) (rest : List α) (arguments : List β) (plain : c ≠ mark) :
    expand mark convert (c :: rest) arguments =
      (expand mark convert rest arguments).map (c :: ·) := by
  cases rest with
  | nil => simp [expand, plain]
  | cons letter rest =>
      rw [expand.eq_def]
      exact if_pos plain

theorem expand_append (text rest : List α) (arguments : List β) (plain : mark ∉ text) :
    expand mark convert (text ++ rest) arguments =
      (expand mark convert rest arguments).map (text ++ ·) := by
  induction text with
  | nil => simp
  | cons c text ih =>
      obtain ⟨other, later⟩ := not_or.mp fun member => plain (List.mem_cons.mpr member)
      rw [List.cons_append, expand_cons c _ _ (Ne.symm other), ih later, Option.map_map]
      rfl

theorem expand_conversion {letter : α} {argument : β} {text : List α}
    (printed : convert letter argument = some text) (other : letter ≠ mark) (rest : List α)
    (arguments : List β) :
    expand mark convert (mark :: letter :: rest) (argument :: arguments) =
      (expand mark convert rest arguments).map (text ++ ·) := by
  rw [expand, if_neg (not_not.mpr rfl), if_neg other]
  simp only [printed, Option.bind_eq_bind, Option.bind_some]
  cases expand mark convert rest arguments <;> rfl

/-- Without arguments a format gives no more than its own length, and less if it has a mark. -/
theorem expand_alone (format : List α) :
    ∀ text, expand mark convert format [] = some text →
      text.length ≤ format.length ∧ (mark ∈ format → text.length < format.length) := by
  induction size : format.length using Nat.strong_induction_on generalizing format with
  | _ length ih =>
      intro text expanded
      match format with
      | [] =>
          rw [expand, Option.some.injEq] at expanded
          simp [← expanded, ← size]
      | [c] =>
          rw [expand] at expanded
          split_ifs at expanded with marked
          rw [Option.some.injEq] at expanded
          simp [← expanded, ← size, Ne.symm marked]
      | c :: letter :: rest =>
          simp only [List.length_cons] at size
          rw [expand] at expanded
          split_ifs at expanded with plain doubled
          · obtain ⟨more, later, rfl⟩ := Option.map_eq_some_iff.mp expanded
            have shorter := ih _ (by simp; omega) (letter :: rest) rfl more later
            simp only [List.length_cons] at shorter ⊢
            refine ⟨by omega, fun member => ?_⟩
            have inside : mark ∈ letter :: rest :=
              (List.mem_cons.mp member).resolve_left (Ne.symm plain)
            have less := shorter.2 inside
            omega
          · obtain ⟨more, later, rfl⟩ := Option.map_eq_some_iff.mp expanded
            have shorter := ih _ (by omega) rest rfl more later
            simp only [List.length_cons] at shorter ⊢
            exact ⟨by omega, fun _ => by omega⟩

/-- Just a text without the mark is the format of itself. -/
theorem expand_alone_iff (text : List α) :
    expand mark convert text [] = some text ↔ mark ∉ text := by
  constructor
  · intro expanded member
    exact absurd ((expand_alone text text expanded).2 member) (Nat.lt_irrefl _)
  · intro plain
    have whole : expand mark convert (text ++ []) [] =
        (expand mark convert [] []).map (text ++ ·) := expand_append text [] [] plain
    simpa [expand] using whole

end EChainLib.Formats
