import Mathlib

/-! The maximal runs of a list between the elements that are a mark. -/

namespace EChainLib.Runs

variable {α : Type*}

/-- The runs are put together again with one mark or more between two of them, and any number
of marks around them. -/
inductive MaximalRuns (mark : α) : List α → List (List α) → Prop
  | nil : MaximalRuns mark [] []
  | mark {s : List α} {pieces : List (List α)} :
      MaximalRuns mark s pieces → MaximalRuns mark (mark :: s) pieces
  | last {run : List α} : run ≠ [] → mark ∉ run → MaximalRuns mark run [run]
  | run {run s : List α} {pieces : List (List α)} : run ≠ [] → mark ∉ run →
      MaximalRuns mark s pieces → MaximalRuns mark (run ++ mark :: s) (run :: pieces)

theorem MaximalRuns.clean {mark : α} {s : List α} {pieces : List (List α)}
    (maximal : MaximalRuns mark s pieces) : ∀ piece ∈ pieces, piece ≠ [] ∧ mark ∉ piece := by
  induction maximal with
  | nil => exact fun piece member => absurd member List.not_mem_nil
  | mark _ ih => exact ih
  | last filled absent =>
      intro piece member
      rw [List.mem_singleton.mp member]
      exact ⟨filled, absent⟩
  | run filled absent _ ih =>
      intro piece member
      rcases List.mem_cons.mp member with rfl | later
      · exact ⟨filled, absent⟩
      · exact ih piece later

variable [DecidableEq α]

def runs (mark : α) (s : List α) : List (List α) :=
  (s.splitOn mark).filter fun piece => piece ≠ []

theorem runs_cut (mark : α) (before after : List α) (absent : mark ∉ before) :
    runs mark (before ++ mark :: after) =
      if before = [] then runs mark after else before :: runs mark after := by
  rw [runs, List.splitOn_append_cons_self_of_not_mem absent, List.filter_cons]
  by_cases empty : before = []
  · simp [empty, runs]
  · simp [empty, runs]

theorem runs_last (mark : α) (s : List α) (absent : mark ∉ s) :
    runs mark s = if s = [] then [] else [s] := by
  rw [runs, List.splitOn_eq_singleton absent, List.filter_singleton]
  by_cases empty : s = []
  · simp [empty]
  · simp [empty]

theorem maximalRuns_runs (mark : α) (s : List α) : MaximalRuns mark s (runs mark s) := by
  induction size : s.length using Nat.strong_induction_on generalizing s with
  | _ length ih =>
      by_cases occurs : mark ∈ s
      · obtain ⟨before, after, rfl, absent⟩ := List.eq_append_cons_of_mem occurs
        have shorter : after.length < length := by
          rw [← size, List.length_append, List.length_cons]
          omega
        have rest := ih _ shorter after rfl
        rw [runs_cut mark before after absent]
        by_cases empty : before = []
        · rw [if_pos empty, empty]
          exact rest.mark
        · rw [if_neg empty]
          exact rest.run empty absent
      · rw [runs_last mark s occurs]
        by_cases empty : s = []
        · rw [if_pos empty, empty]
          exact .nil
        · rw [if_neg empty]
          exact .last empty occurs

/-- There is one way only to cut a list into its runs. -/
theorem MaximalRuns.eq_runs {mark : α} {s : List α} {pieces : List (List α)}
    (maximal : MaximalRuns mark s pieces) : pieces = runs mark s := by
  induction maximal with
  | nil => simp [runs]
  | mark _ ih =>
      rw [ih]
      exact (runs_cut mark [] _ List.not_mem_nil).symm
  | last filled absent => rw [runs_last _ _ absent, if_neg filled]
  | run filled absent _ ih => rw [runs_cut _ _ _ absent, if_neg filled, ih]

theorem maximalRuns_iff (mark : α) (s : List α) (pieces : List (List α)) :
    MaximalRuns mark s pieces ↔ pieces = runs mark s := by
  constructor
  · exact MaximalRuns.eq_runs
  · rintro rfl
    exact maximalRuns_runs mark s

end EChainLib.Runs
