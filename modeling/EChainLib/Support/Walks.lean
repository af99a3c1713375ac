import Mathlib

/-! Walks from place to place, by the steps of a relation. -/

namespace EChainLib.Walks

open Relation (TransGen)

variable {Place : Type*} {Step : Place → Place → Prop} {places : Set Place}

/-- No step leaves the places. -/
def Closed (Step : Place → Place → Prop) (places : Set Place) : Prop :=
  ∀ first ∈ places, ∀ next, Step first next → next ∈ places

theorem falls_along (measure : Place → Nat) (closed : Closed Step places)
    (falls : ∀ first ∈ places, ∀ next, Step first next → measure next < measure first)
    {first last : Place} (inside : first ∈ places) (walk : TransGen Step first last) :
    last ∈ places ∧ measure last < measure first := by
  induction walk with
  | single step => exact ⟨closed _ inside _ step, falls _ inside _ step⟩
  | tail _ step ih =>
      obtain ⟨middle, less⟩ := ih
      exact ⟨closed _ middle _ step, (falls _ middle _ step).trans less⟩

theorem no_return_of_falls (measure : Place → Nat) (closed : Closed Step places)
    (falls : ∀ first ∈ places, ∀ next, Step first next → measure next < measure first)
    {place : Place} (inside : place ∈ places) : ¬ TransGen Step place place :=
  fun walk => Nat.lt_irrefl _ (falls_along measure closed falls inside walk).2

/-- Where there are finitely many places and none is come back to, every walk ends. -/
theorem acc_of_no_return (finite : places.Finite) (closed : Closed Step places)
    (no_return : ∀ place ∈ places, ¬ TransGen Step place place) {place : Place}
    (inside : place ∈ places) : Acc (fun next first => Step first next) place := by
  let ahead : places → places → Prop := fun next first => TransGen Step first.1 next.1
  have transitive : IsTrans places ahead := ⟨fun _ _ _ later earlier => earlier.trans later⟩
  have irreflexive : Std.Irrefl ahead := ⟨fun place walk => no_return _ place.2 walk⟩
  have finite_places : Finite places := finite
  have founded : WellFounded ahead := Finite.wellFounded_of_trans_of_irrefl ahead
  -- by induction on the place among the finitely many, whose steps stay among them
  have each : ∀ place : places, Acc (fun next first => Step first next) place.1 := by
    intro place
    induction place using founded.induction with
    | _ place ih =>
        refine Acc.intro _ fun next step => ?_
        exact ih ⟨next, closed _ place.2 _ step⟩ (TransGen.single step)
  exact each ⟨place, inside⟩

end EChainLib.Walks
