import Mathlib
import EChainLib.Support.Effects

/-! Two stateful calls side by side. From related states they return related values
and stay in related states, or they stop in one of the ways allowed. -/

namespace EChainLib.Simulation

open Effects (bind_of_ok bind_of_error)

variable {Error Error' State State' Value Value' Other Other' : Type}

/-- How the two may stop: one of them with an error of its own, or both. -/
structure Stops (Error State Error' State' : Type) where
  left : Error → Prop
  right : Error' → Prop
  both : Error → State → Error' → State' → Prop

def Matched (stops : Stops Error State Error' State') (values : Value → State → Value' → State' → Prop) :
    EStateM.Result Error State Value → EStateM.Result Error' State' Value' → Prop
  | .ok value state, .ok value' state' => values value state value' state'
  | .ok _ _, .error error' _ => stops.right error'
  | .error error _, .ok _ _ => stops.left error
  | .error error state, .error error' state' =>
      stops.left error ∨ stops.right error' ∨ stops.both error state error' state'

def Simulates (stops : Stops Error State Error' State') (states : State → State' → Prop)
    (values : Value → Value' → Prop) (call : EStateM Error State Value)
    (call' : EStateM Error' State' Value') : Prop :=
  ∀ start start', states start start' →
    Matched stops (fun value state value' state' => values value value' ∧ states state state')
      (call start) (call' start')

variable {stops : Stops Error State Error' State'} {states : State → State' → Prop}
  {values : Value → Value' → Prop} {others : Other → Other' → Prop}

theorem simulates_pure {value : Value} {value' : Value'} (related : values value value') :
    Simulates stops states values (pure value) (pure value') :=
  fun _ _ agree => ⟨related, agree⟩

theorem simulates_throw {error : Error} {error' : Error'}
    (stop : ∀ state state', states state state' →
      stops.left error ∨ stops.right error' ∨ stops.both error state error' state') :
    Simulates stops states values (throw error) (throw error') :=
  fun start start' agree => stop start start' agree

theorem simulates_bind {call : EStateM Error State Value} {call' : EStateM Error' State' Value'}
    {next : Value → EStateM Error State Other} {next' : Value' → EStateM Error' State' Other'}
    (first : Simulates stops states values call call')
    (rest : ∀ value value', values value value' →
      Simulates stops states others (next value) (next' value')) :
    Simulates stops states others (call >>= next) (call' >>= next') := by
  intro start start' agree
  have step := first start start' agree
  cases outcome : call start with
  | ok value state =>
      rw [bind_of_ok outcome]
      cases outcome' : call' start' with
      | ok value' state' =>
          rw [bind_of_ok outcome']
          rw [outcome, outcome'] at step
          exact rest value value' step.1 state state' step.2
      | error error' state' =>
          rw [bind_of_error outcome']
          rw [outcome, outcome'] at step
          have stop : stops.right error' := step
          cases next value state with
          | ok other final => exact stop
          | error error final => exact Or.inr (Or.inl stop)
  | error error state =>
      rw [bind_of_error outcome]
      cases outcome' : call' start' with
      | ok value' state' =>
          rw [bind_of_ok outcome']
          rw [outcome, outcome'] at step
          have stop : stops.left error := step
          cases next' value' state' with
          | ok other' final' => exact stop
          | error error' final' => exact Or.inl stop
      | error error' state' =>
          rw [bind_of_error outcome']
          rw [outcome, outcome'] at step
          exact step

end EChainLib.Simulation
