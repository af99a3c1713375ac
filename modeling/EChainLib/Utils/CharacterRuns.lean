import EChainLib.Support.Runs
import EChainLib.Utils.Tokens

/-! The two `String::Strtok` by one character against the runs of other characters. -/

namespace EChainLib.Utils

open EChainLib.Keys (Bytes)
open EChainLib.Runs (MaximalRuns runs runs_cut runs_last maximalRuns_iff)

/-- The `Strtok` that puts the pieces at the end of `arr`; it returns its size as an `int32_t`. -/
def strtokInto (str : Bytes) (separator : UInt8) (arr : List Bytes) : Int × List Bytes :=
  let arr := arr ++ strtokCharLoop str separator (str.length + 1) 0
  (narrow arr.length, arr)

/-- What both functions give for a text is its runs of other characters, and they are counted. -/
structure Tokenized (s : Bytes) (c : UInt8) : Prop where
  returned : MaximalRuns c s (strtokChar s c)
  filled : MaximalRuns c s (strtokInto s c []).2
  clean : ∀ piece ∈ strtokChar s c, piece ≠ [] ∧ c ∉ piece
  counted : (strtokInto s c []).1 = (strtokInto s c []).2.length

/-- Behind the runs there is an empty piece if nothing stands behind the last separator. -/
theorem strtokChar_runs (s : Bytes) (c : UInt8) :
    strtokChar s c = runs c s ++ if s = [] ∨ s.getLast? = some c then [[]] else [] := by
  induction size : s.length using Nat.strong_induction_on generalizing s with
  | _ length ih =>
      by_cases occurs : c ∈ s
      · obtain ⟨before, after, rfl, absent⟩ := List.eq_append_cons_of_mem occurs
        have shorter : after.length < length := by
          rw [← size, List.length_append, List.length_cons]
          omega
        have ends : before ++ c :: after = [] ∨ (before ++ c :: after).getLast? = some c ↔
            after = [] ∨ after.getLast? = some c := by
          cases after with
          | nil => simp
          | cons next after => simp
        rw [strtokChar_append, List.splitOn_eq_singleton absent, runs_cut c before after absent,
          ih _ shorter after rfl, if_congr ends rfl rfl]
        by_cases empty : before = []
        · simp [empty]
        · simp [empty]
      · have other : ¬ s.getLast? = some c := fun last => occurs (List.mem_of_getLast? last)
        rw [strtokChar_last s c occurs, runs_last c s occurs]
        by_cases empty : s = []
        · simp [empty]
        · simp [empty, other]

theorem strtokInto_empty (s : Bytes) (c : UInt8) :
    strtokInto s c [] = (narrow (strtokChar s c).length, strtokChar s c) := rfl

theorem narrow_eq_iff (size : Nat) : narrow size = size ↔ size < 2 ^ 31 := by
  constructor
  · intro same
    have below := (narrow_range size).2
    omega
  · exact narrow_of_lt

/-- Both functions give the runs, and their number, just for the texts that are not empty, do not
end with a separator and have less than 2^31 runs. -/
theorem tokenized_iff (s : Bytes) (c : UInt8) :
    Tokenized s c ↔ s ≠ [] ∧ s.getLast? ≠ some c ∧ (runs c s).length < 2 ^ 31 := by
  have shape := strtokChar_runs s c
  constructor
  · intro tokens
    have same := (maximalRuns_iff c s _).mp tokens.returned
    have closed : ¬ (s = [] ∨ s.getLast? = some c) := by
      intro open_
      rw [if_pos open_, same] at shape
      exact absurd (congrArg List.length shape) (by simp)
    have counted := tokens.counted
    rw [strtokInto_empty, narrow_eq_iff, same] at counted
    exact ⟨fun empty => closed (.inl empty), fun last => closed (.inr last), counted⟩
  · rintro ⟨filled, last, few⟩
    have same : strtokChar s c = runs c s := by
      rw [shape, if_neg (by simp [filled, last]), List.append_nil]
    have maximal := (maximalRuns_iff c s _).mpr same
    refine ⟨maximal, maximal, maximal.clean, ?_⟩
    rw [strtokInto_empty, narrow_eq_iff, same]
    exact few

theorem tokenized_trailing : ¬ Tokenized [0x61, 0x3A] 0x3A := by
  intro tokens
  exact (tokens.clean [] (by decide)).1 rfl

end EChainLib.Utils
