import EChainLib.Support.Strings

/-! Every occurrence of a pattern replaced, from left to right. -/

namespace EChainLib.Substitution

open EChainLib.Strings

variable {α : Type} [DecidableEq α]

/-- The scan: an occurrence that begins here is replaced and the scan goes on behind it. The
empty pattern does not occur. -/
def substitute (pattern inserted : List α) : List α → List α
  | [] => []
  | head :: rest =>
      if pattern ≠ [] ∧ pattern <+: head :: rest then
        inserted ++ substitute pattern inserted ((head :: rest).drop pattern.length)
      else head :: substitute pattern inserted rest
  termination_by s => s.length
  decreasing_by
    · rename_i occurs
      have filled := List.length_pos_iff.mpr occurs.1
      simp
      omega
    · simp

theorem substitute_empty (inserted s : List α) : substitute [] inserted s = s := by
  induction s with
  | nil => rw [substitute]
  | cons head rest ih => rw [substitute, if_neg (fun occurs => occurs.1 rfl), ih]

theorem substitute_of_missing {pattern s : List α} (inserted : List α)
    (missing : findIn pattern s = none) : substitute pattern inserted s = s := by
  induction s with
  | nil => rw [substitute]
  | cons head rest ih =>
      rw [findIn] at missing
      split_ifs at missing with here
      have later : findIn pattern rest = none := Option.map_eq_none_iff.mp missing
      have not_here : ¬ (pattern ≠ [] ∧ pattern <+: head :: rest) := fun occurs =>
        here (List.isPrefixOf_iff_prefix.mpr occurs.2)
      rw [substitute, if_neg not_here, ih later]

/-- Up to the first occurrence the scan copies. -/
theorem substitute_of_found {pattern s : List α} {ahead : Nat} (inserted : List α)
    (filled : pattern ≠ []) (found : findIn pattern s = some ahead) :
    substitute pattern inserted s =
      s.take ahead ++ inserted ++ substitute pattern inserted (s.drop (ahead + pattern.length)) := by
  induction s generalizing ahead with
  | nil => cases found
  | cons head rest ih =>
      rw [findIn] at found
      split_ifs at found with here
      · obtain rfl := Option.some.inj found
        have occurs := List.isPrefixOf_iff_prefix.mp here
        rw [substitute, if_pos ⟨filled, occurs⟩]
        simp
      · obtain ⟨behind, later, rfl⟩ := Option.map_eq_some_iff.mp found
        have not_here : ¬ (pattern ≠ [] ∧ pattern <+: head :: rest) := fun occurs =>
          here (List.isPrefixOf_iff_prefix.mpr occurs.2)
        rw [substitute, if_neg not_here, ih later]
        have place : behind + 1 + pattern.length = (behind + pattern.length) + 1 := by omega
        rw [place, List.drop_succ_cons, List.take_succ_cons]
        rfl

/-! One element for another. -/

theorem substitute_char (s : List α) (a b : α) :
    substitute [a] [b] s = s.map fun c => if c = a then b else c := by
  induction s with
  | nil => rw [substitute, List.map_nil]
  | cons c rest ih =>
      rw [substitute, List.map_cons]
      by_cases same : c = a
      · rw [if_pos (by simp [same]), if_pos same]
        simpa using ih
      · rw [if_neg (by simpa using fun wanted => same wanted.symm), if_neg same, ih]

end EChainLib.Substitution
