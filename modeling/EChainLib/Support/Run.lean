import Mathlib

/-! Runs of a deterministic transition function. A run is the list of its
labels; the states it passes through are recomputed from the start state. -/

namespace EChainLib.Run

variable {State Label : Type*}

def final (step : State → Label → State) (start : State) (labels : List Label) : State :=
  labels.foldl step start

/-- The states a run passes through, its start and its end included. -/
def states (step : State → Label → State) : State → List Label → List State
  | start, [] => [start]
  | start, label :: rest => start :: states step (step start label) rest

/-- Every label of the run meets `condition` at the state it is taken in. -/
def Meets (step : State → Label → State) (condition : State → Label → Prop) :
    State → List Label → Prop
  | _, [] => True
  | start, label :: rest =>
      condition start label ∧ Meets step condition (step start label) rest

instance decidableMeets (step : State → Label → State) (condition : State → Label → Prop)
    [∀ state label, Decidable (condition state label)] :
    (start : State) → (labels : List Label) → Decidable (Meets step condition start labels)
  | _, [] => .isTrue trivial
  | start, label :: rest =>
      have := decidableMeets step condition (step start label) rest
      inferInstanceAs (Decidable (condition start label ∧
        Meets step condition (step start label) rest))

theorem final_append (step : State → Label → State) (start : State) (before after : List Label) :
    final step start (before ++ after) = final step (final step start before) after :=
  List.foldl_append

theorem meets_append (step : State → Label → State) (condition : State → Label → Prop)
    (start : State) (before after : List Label) :
    Meets step condition start (before ++ after) ↔
      Meets step condition start before ∧
        Meets step condition (final step start before) after := by
  induction before generalizing start with
  | nil => simp [Meets, final]
  | cons label rest ih =>
      rw [List.cons_append, Meets, Meets, ih (step start label), and_assoc]
      rfl

theorem meets_true (step : State → Label → State) (start : State) (labels : List Label) :
    Meets step (fun _ _ => True) start labels := by
  induction labels generalizing start with
  | nil => trivial
  | cons label rest ih => exact ⟨trivial, ih (step start label)⟩

theorem meets_of_forall (step : State → Label → State) (allowed : Label → Prop) (start : State)
    (labels : List Label) (all : ∀ label ∈ labels, allowed label) :
    Meets step (fun _ label => allowed label) start labels := by
  induction labels generalizing start with
  | nil => trivial
  | cons label rest ih =>
      obtain ⟨here, later⟩ := List.forall_mem_cons.mp all
      exact ⟨here, ih (step start label) later⟩

theorem start_mem_states (step : State → Label → State) (start : State) (labels : List Label) :
    start ∈ states step start labels := by
  cases labels <;> simp [states]

theorem final_mem_states (step : State → Label → State) (start : State) (labels : List Label) :
    final step start labels ∈ states step start labels := by
  induction labels generalizing start with
  | nil => simp [final, states]
  | cons label rest ih => exact List.mem_cons_of_mem start (ih (step start label))

/-- The invariant rule for runs whose steps meet a condition. -/
theorem invariant_along (step : State → Label → State) (condition : State → Label → Prop)
    (invariant : State → Prop)
    (preserved : ∀ state label, invariant state → condition state label →
      invariant (step state label))
    (start : State) (labels : List Label) (initial : invariant start)
    (meets : Meets step condition start labels) :
    ∀ state ∈ states step start labels, invariant state := by
  induction labels generalizing start with
  | nil => simpa [states] using initial
  | cons label rest ih =>
      intro state member
      rcases List.mem_cons.mp member with same | later
      · exact same ▸ initial
      · exact ih (step start label) (preserved start label initial meets.1) meets.2 state later

theorem final_along (step : State → Label → State) (condition : State → Label → Prop)
    (invariant : State → Prop)
    (preserved : ∀ state label, invariant state → condition state label →
      invariant (step state label))
    (start : State) (labels : List Label) (initial : invariant start)
    (meets : Meets step condition start labels) : invariant (final step start labels) :=
  invariant_along step condition invariant preserved start labels initial meets _
    (final_mem_states step start labels)

/-- What a step does where an invariant and a condition hold, along a run. -/
theorem meets_of_invariant (step : State → Label → State)
    (condition property : State → Label → Prop) (invariant : State → Prop)
    (preserved : ∀ state label, invariant state → condition state label →
      invariant (step state label))
    (holds : ∀ state label, invariant state → condition state label → property state label)
    (start : State) (labels : List Label) (initial : invariant start)
    (meets : Meets step condition start labels) : Meets step property start labels := by
  induction labels generalizing start with
  | nil => trivial
  | cons label rest ih =>
      exact ⟨holds start label initial meets.1,
        ih (step start label) (preserved start label initial meets.1) meets.2⟩

/-- A property that holds as long as the steps meet a condition, and fails right
after the first step that does not, holds along exactly the runs that meet it. -/
theorem property_iff_meets (step : State → Label → State)
    (admissible condition : State → Label → Prop) (invariant property : State → Prop)
    (holds : ∀ state, invariant state → property state)
    (preserved : ∀ state label, invariant state → admissible state label →
      condition state label → invariant (step state label))
    (breaks : ∀ state label, invariant state → admissible state label →
      ¬ condition state label → ¬ property (step state label))
    (start : State) (labels : List Label) (initial : invariant start)
    (admitted : Meets step admissible start labels) :
    (∀ state ∈ states step start labels, property state) ↔ Meets step condition start labels := by
  induction labels generalizing start with
  | nil => simpa [states, Meets] using holds start initial
  | cons label rest ih =>
      by_cases ok : condition start label
      · have later := ih (step start label) (preserved start label initial admitted.1 ok) admitted.2
        simp only [states, List.forall_mem_cons, Meets, holds start initial, ok, true_and]
        exact later
      · have broken := breaks start label initial admitted.1 ok
        constructor
        · intro always
          exact absurd (always _ (List.mem_cons_of_mem start (start_mem_states step _ rest))) broken
        · intro meets
          exact absurd meets.1 ok

/-- Where the condition is exactly what one step needs, it is exactly what the
whole run needs. -/
theorem invariant_iff_meets (step : State → Label → State) (condition : State → Label → Prop)
    (invariant : State → Prop)
    (exact_step : ∀ state label, invariant state →
      (invariant (step state label) ↔ condition state label))
    (start : State) (labels : List Label) (initial : invariant start) :
    (∀ state ∈ states step start labels, invariant state) ↔
      Meets step condition start labels := by
  refine property_iff_meets step (fun _ _ => True) condition invariant invariant
    (fun _ ok => ok) (fun state label ok _ => (exact_step state label ok).mpr)
    (fun state label ok _ => (exact_step state label ok).not.mpr) start labels initial ?_
  exact meets_true step start labels

end EChainLib.Run
