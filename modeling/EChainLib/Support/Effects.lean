import Mathlib

/-! What a stateful call can do to the state, whether it returns or raises, and
what it guarantees when it returns. -/

namespace EChainLib.Effects

universe u

variable {Error State Value Other : Type u}

/-- The state a call leaves behind. -/
def last (call : EStateM Error State Value) (start : State) : State :=
  match call start with
  | .ok _ state => state
  | .error _ state => state

/-- A kind of change that can be made zero or more times. -/
structure Change (State : Type u) where
  rel : State → State → Prop
  refl : ∀ state, rel state state
  trans : ∀ first second third, rel first second → rel second third → rel first third

/-- Whatever its outcome, the call changes the state by `change` at most. -/
def Within (change : Change State) (call : EStateM Error State Value) : Prop :=
  ∀ start, change.rel start (last call start)

section Rules

variable {change : Change State}

theorem within_pure (value : Value) :
    Within change (pure value : EStateM Error State Value) :=
  fun start => change.refl start

theorem within_throw (error : Error) :
    Within change (throw error : EStateM Error State Value) :=
  fun start => change.refl start

theorem within_get : Within change (get : EStateM Error State State) :=
  fun start => change.refl start

/-- The rule for a sequence whose second part is small for the values that the
first part can return. -/
theorem within_bind_of {call : EStateM Error State Value}
    {next : Value → EStateM Error State Other} (first : Within change call)
    (rest : ∀ start value state, call start = .ok value state →
      change.rel state (last (next value) state)) : Within change (call >>= next) := by
  intro start
  have step := first start
  show change.rel start (last (EStateM.bind call next) start)
  unfold last EStateM.bind at *
  cases outcome : call start with
  | ok value state =>
      rw [outcome] at step
      exact change.trans _ _ _ step (rest start value state outcome)
  | error error state =>
      rw [outcome] at step
      exact step

theorem within_bind {call : EStateM Error State Value}
    {next : Value → EStateM Error State Other} (first : Within change call)
    (rest : ∀ value, Within change (next value)) : Within change (call >>= next) :=
  within_bind_of first fun _ value state _ => rest value state

end Rules

theorem bind_of_ok {call : EStateM Error State Value} {start state : State} {value : Value}
    (outcome : call start = .ok value state) (next : Value → EStateM Error State Other) :
    (call >>= next) start = next value state := by
  show EStateM.bind call next start = next value state
  rw [EStateM.bind, outcome]

theorem bind_of_error {call : EStateM Error State Value} {start state : State} {error : Error}
    (outcome : call start = .error error state) (next : Value → EStateM Error State Other) :
    (call >>= next) start = .error error state := by
  show EStateM.bind call next start = .error error state
  rw [EStateM.bind, outcome]

theorem last_bind_of_ok {call : EStateM Error State Value} {start state : State} {value : Value}
    (outcome : call start = .ok value state) (next : Value → EStateM Error State Other) :
    last (call >>= next) start = last (next value) state := by
  rw [last, bind_of_ok outcome]
  rfl

/-- What holds of the start, the value and the end of every run that returns. -/
def Returns (call : EStateM Error State Value) (post : State → Value → State → Prop) : Prop :=
  ∀ start value state, call start = .ok value state → post start value state

theorem returns_pure (value : Value) :
    Returns (pure value : EStateM Error State Value)
      (fun start result state => result = value ∧ state = start) := by
  intro start result state outcome
  cases outcome
  exact ⟨rfl, rfl⟩

theorem returns_throw (error : Error) (post : State → Value → State → Prop) :
    Returns (throw error : EStateM Error State Value) post := by
  intro start result state outcome
  cases outcome

/-- A returning sequence returns in both of its parts. -/
theorem ok_of_bind {call : EStateM Error State Value} {next : Value → EStateM Error State Other}
    {start final : State} {result : Other} (outcome : (call >>= next) start = .ok result final) :
    ∃ value state, call start = .ok value state ∧ next value state = .ok result final := by
  replace outcome : EStateM.bind call next start = .ok result final := outcome
  unfold EStateM.bind at outcome
  cases found : call start with
  | ok value state =>
      rw [found] at outcome
      exact ⟨value, state, rfl, outcome⟩
  | error error state =>
      rw [found] at outcome
      cases outcome

theorem found_of_bind {result : Except Error Value} {next : Value → Except Error Other}
    {last : Other} (outcome : result >>= next = .ok last) :
    ∃ found, result = .ok found ∧ next found = .ok last := by
  cases result with
  | ok found => exact ⟨found, rfl, outcome⟩
  | error error => cases outcome

theorem returns_bind {call : EStateM Error State Value}
    {next : Value → EStateM Error State Other} {middle : State → Value → State → Prop}
    {post : State → Other → State → Prop} (first : Returns call middle)
    (rest : ∀ start value state, middle start value state →
      ∀ result final, next value state = .ok result final → post start result final) :
    Returns (call >>= next) post := by
  intro start result final outcome
  obtain ⟨value, state, returned, after⟩ := ok_of_bind outcome
  exact rest start value state (first start value state returned) result final after

theorem returns_of_within {change : Change State} {call : EStateM Error State Value}
    (bounded : Within change call) :
    Returns call (fun start _ state => change.rel start state) := by
  intro start value state outcome
  have small := bounded start
  unfold last at small
  rw [outcome] at small
  exact small

/-- A postcondition that absorbs a kind of change needs no more than that of the
calls made first. -/
theorem returns_after {change : Change State} {call : EStateM Error State Value}
    {next : Value → EStateM Error State Other} {post : State → Other → State → Prop}
    (absorbs : ∀ start middle value final, change.rel start middle → post middle value final →
      post start value final)
    (bounded : Within change call) (rest : ∀ value, Returns (next value) post) :
    Returns (call >>= next) post :=
  returns_bind (returns_of_within bounded) fun start value middle small result final outcome =>
    absorbs start middle result final small (rest value middle result final outcome)

/-! A run from one start, whether it returns or raises. -/

def Ends (call : EStateM Error State Value) (start : State) (returned : Value → State → Prop)
    (raised : Error → State → Prop) : Prop :=
  match call start with
  | .ok value state => returned value state
  | .error error state => raised error state

section Ends

variable {call : EStateM Error State Value} {start : State} {returned : Value → State → Prop}
  {raised : Error → State → Prop}

theorem ends_pure (value : Value) (holds : returned value start) :
    Ends (pure value) start returned raised := holds

theorem ends_of_ok {value : Value} {state : State} (outcome : call start = .ok value state)
    (holds : returned value state) : Ends call start returned raised := by
  unfold Ends
  rw [outcome]
  exact holds

theorem ends_mono {weaker : Value → State → Prop} {weakerRaised : Error → State → Prop}
    (ends : Ends call start returned raised)
    (returns : ∀ value state, returned value state → weaker value state)
    (raises : ∀ error state, raised error state → weakerRaised error state) :
    Ends call start weaker weakerRaised := by
  unfold Ends at *
  cases outcome : call start with
  | ok value state =>
      rw [outcome] at ends
      exact returns value state ends
  | error error state =>
      rw [outcome] at ends
      exact raises error state ends

theorem ends_bind {next : Value → EStateM Error State Other} {final : Other → State → Prop}
    (middle : Value → State → Prop) (first : Ends call start middle raised)
    (rest : ∀ value state, middle value state → Ends (next value) state final raised) :
    Ends (call >>= next) start final raised := by
  unfold Ends at first
  cases outcome : call start with
  | ok value state =>
      rw [outcome] at first
      unfold Ends
      rw [bind_of_ok outcome]
      exact rest value state first
  | error error state =>
      rw [outcome] at first
      unfold Ends
      rw [bind_of_error outcome]
      exact first

theorem ends_of_within {change : Change State} (bounded : Within change call) :
    Ends call start (fun _ state => change.rel start state) (fun _ state => change.rel start state) := by
  have small := bounded start
  unfold last at small
  unfold Ends
  cases outcome : call start with
  | ok value state =>
      rw [outcome] at small
      exact small
  | error error state =>
      rw [outcome] at small
      exact small

theorem last_of_ends {property : State → Prop}
    (ends : Ends call start (fun _ => property) fun _ => property) : property (last call start) := by
  unfold Ends at ends
  unfold last
  cases outcome : call start with
  | ok value state =>
      rw [outcome] at ends
      exact ends
  | error error state =>
      rw [outcome] at ends
      exact ends

/-- A change since an earlier state goes on. -/
theorem ends_since {change : Change State} {origin : State} (since : change.rel origin start)
    (bounded : Within change call) :
    Ends call start (fun _ => change.rel origin) fun _ => change.rel origin :=
  ends_mono (ends_of_within bounded) (fun _ state => change.trans origin start state since)
    fun _ state => change.trans origin start state since

end Ends

end EChainLib.Effects
