import EChainLib.Support.Cursor

/-! What is left of a list when the marked elements at one of its ends are taken off. -/

namespace EChainLib.Ends

variable {α : Type} {marked : α → Bool}

/-- The longest suffix of `s` that does not start with a marked element. -/
structure LongestSuffix (marked : α → Bool) (s rest : List α) : Prop where
  suffix : rest <:+ s
  clean : ∀ a ∈ rest.head?, marked a = false
  longest : ∀ other : List α, other <:+ s → (∀ a ∈ other.head?, marked a = false) →
    other.length ≤ rest.length

/-- The longest prefix of `s` that does not end with a marked element. -/
structure LongestPrefix (marked : α → Bool) (s rest : List α) : Prop where
  isPrefix : rest <+: s
  clean : ∀ a ∈ rest.getLast?, marked a = false
  longest : ∀ other : List α, other <+: s → (∀ a ∈ other.getLast?, marked a = false) →
    other.length ≤ rest.length

theorem LongestPrefix.unique {s first second : List α} (one : LongestPrefix marked s first)
    (other : LongestPrefix marked s second) : first = second := by
  have down := one.longest second other.isPrefix other.clean
  have up := other.longest first one.isPrefix one.clean
  exact (List.prefix_of_prefix_length_le one.isPrefix other.isPrefix up).eq_of_length_le down

theorem longestSuffix_dropWhile (s : List α) :
    LongestSuffix marked s (s.dropWhile marked) := by
  refine ⟨List.dropWhile_suffix marked, fun a first => ?_, fun other suffix clean => ?_⟩
  · have stopped := List.head?_dropWhile_not marked s
    rw [Option.mem_def.mp first] at stopped
    simpa using stopped
  · induction s with
    | nil => simp [List.suffix_nil.mp suffix]
    | cons a s ih =>
        by_cases mark : marked a = true
        · rw [List.dropWhile_cons_of_pos mark]
          rcases List.suffix_cons_iff.mp suffix with rfl | shorter
          · exact absurd (clean a rfl) (by rw [mark]; exact Bool.noConfusion)
          · exact ih shorter
        · rw [List.dropWhile_cons_of_neg mark]
          exact suffix.length_le

theorem longestPrefix_rdropWhile (s : List α) :
    LongestPrefix marked s (s.rdropWhile marked) := by
  have reversed : LongestSuffix marked s.reverse (s.reverse.dropWhile marked) :=
    longestSuffix_dropWhile s.reverse
  refine ⟨List.rdropWhile_prefix marked s, fun a last => ?_, fun other isPrefix clean => ?_⟩
  · refine reversed.clean a ?_
    rw [List.rdropWhile, List.getLast?_reverse] at last
    exact last
  · have shorter := reversed.longest other.reverse (List.reverse_suffix.mpr isPrefix)
      (by rwa [List.head?_reverse])
    simpa [List.rdropWhile] using shorter

theorem rdropWhile_cons (a : α) (s : List α) : (a :: s).rdropWhile marked =
    if s.rdropWhile marked = [] ∧ marked a = true then [] else a :: s.rdropWhile marked := by
  rw [← List.singleton_append, Cursor.rdropWhile_append, List.rdropWhile_singleton]
  by_cases blank : s.rdropWhile marked = []
  · by_cases mark : marked a = true
    · simp [blank, mark]
    · simp [blank, mark]
  · simp [blank]

/-- It does not matter which end is looked at first. -/
theorem dropWhile_rdropWhile (s : List α) :
    (s.rdropWhile marked).dropWhile marked = (s.dropWhile marked).rdropWhile marked := by
  induction s with
  | nil => rfl
  | cons a s ih =>
      by_cases mark : marked a = true
      · rw [List.dropWhile_cons_of_pos mark, ← ih, rdropWhile_cons]
        by_cases blank : s.rdropWhile marked = []
        · rw [if_pos ⟨blank, mark⟩, blank]
        · rw [if_neg fun both => blank both.1, List.dropWhile_cons_of_pos mark]
      · rw [List.dropWhile_cons_of_neg mark, rdropWhile_cons, if_neg fun both => mark both.2,
          List.dropWhile_cons_of_neg mark]

end EChainLib.Ends
