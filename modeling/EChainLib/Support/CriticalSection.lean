import EChainLib.Support.Run
import EChainLib.Support.Slots

/-! Calls whose bodies run under one lock, any number of them at a time. Between two accesses of
a body the other calls go on. -/

namespace EChainLib.CriticalSection

open Slots (getElem?_changed)

/-- A body, access by access. What follows an access may depend on what it found. -/
inductive Body (S R : Type) where
  | done (result : R)
  | access (effect : S → S) (next : S → Body S R)

variable {S R Op W : Type}

/-- The body without interruption. -/
def Body.run : Body S R → S → S × R
  | .done result, shared => (shared, result)
  | .access effect next, shared => (next shared).run (effect shared)

/-- A lock with its word in memory. A failed attempt leaves the word as it is. -/
structure Lock (W : Type) where
  tryLock : W → Option W
  unlock : W → W
  held : W → Bool
  locks : ∀ word next, tryLock word = some next → held word = false ∧ held next = true
  refuses : ∀ word, tryLock word = none → held word = true
  unlocks : ∀ word, held word = true → held (unlock word) = false

inductive Call (Op S R : Type) where
  | waiting (op : Op)
  | inside (op : Op) (body : Body S R)
  | returned (op : Op) (result : R)

structure State (Op S R W : Type) where
  word : W
  shared : S
  calls : List (Call Op S R)

inductive Label (Op : Type) where
  | invoke (op : Op)
  | advance (i : Nat)

section
variable (lock : Lock W) (body : Op → Body S R)

def advance (state : State Op S R W) (i : Nat) : State Op S R W :=
  match state.calls[i]? with
  | some (.waiting op) =>
      match lock.tryLock state.word with
      -- round again
      | none => state
      | some word => { state with word := word, calls := state.calls.set i (.inside op (body op)) }
  | some (.inside op (.access effect next)) =>
      { state with
        shared := effect state.shared
        calls := state.calls.set i (.inside op (next state.shared)) }
  | some (.inside op (.done result)) =>
      { state with
        word := lock.unlock state.word
        calls := state.calls.set i (.returned op result) }
  | _ => state

def step (state : State Op S R W) : Label Op → State Op S R W
  | .invoke op => { state with calls := state.calls ++ [.waiting op] }
  | .advance i => advance lock body state i

/-- The call that returns at a step. -/
def returning (state : State Op S R W) : Label Op → List Nat
  | .invoke _ => []
  | .advance i =>
      match state.calls[i]? with
      | some (.inside _ (.done _)) => [i]
      | _ => []

/-- The calls that return along a run, in their order. -/
def order (state : State Op S R W) : List (Label Op) → List Nat
  | [] => []
  | label :: rest => returning state label ++ order (step lock body state label) rest

end

/-- Operations one after another, with their results. -/
inductive Sequential (apply : Op → S → S × R) : S → List (Op × R) → S → Prop
  | nil (shared : S) : Sequential apply shared [] shared
  | cons (op : Op) (shared : S) {rest : List (Op × R)} {last : S}
      (later : Sequential apply (apply op shared).1 rest last) :
      Sequential apply shared ((op, (apply op shared).2) :: rest) last

def Call.answer : Call Op S R → Option (Op × R)
  | .returned op result => some (op, result)
  | _ => none

def Call.isInside : Call Op S R → Bool
  | .inside _ _ => true
  | _ => false

/-- The answers of the calls in this order. -/
def answers (state : State Op S R W) (order : List Nat) : List (Op × R) :=
  order.filterMap fun i => state.calls[i]?.bind Call.answer

/-- The calls that have returned are those of the order, and they answer as if each had run
alone, one after the other. With none inside, the shared state is the one they leave. -/
structure Linearized (apply : Op → S → S × R) (start : S) (state : State Op S R W)
    (order : List Nat) : Prop where
  nodup : order.Nodup
  returned : ∀ i, i ∈ order ↔ ∃ op result, state.calls[i]? = some (.returned op result)
  legal : ∃ last, Sequential apply start (answers state order) last ∧
    ((∀ call ∈ state.calls, call.isInside = false) → state.shared = last)

theorem Sequential.append {apply : Op → S → S × R} {first last : S} {answers : List (Op × R)}
    (sequential : Sequential apply first answers last) (op : Op) :
    Sequential apply first (answers ++ [(op, (apply op last).2)]) (apply op last).1 := by
  induction sequential with
  | nil shared => exact .cons op shared (.nil _)
  | cons op' shared later ih => exact .cons op' shared ih

section
variable {lock : Lock W} {body : Op → Body S R} {state : State Op S R W}

theorem order_append (first later : List (Label Op)) :
    order lock body state (first ++ later) = order lock body state first ++
      order lock body (Run.final (step lock body) state first) later := by
  induction first generalizing state with
  | nil => rfl
  | cons label rest ih =>
      rw [List.cons_append, order, order, ih, List.append_assoc]
      rfl

/-! The invariant: what is left of the body inside does the same as the whole body would have
done at the entrance. -/

inductive Within (lock : Lock W) (body : Op → Body S R) (state : State Op S R W) (last : S) : Prop
  | free (unheld : lock.held state.word = false)
      (none_inside : ∀ (i : Nat) op rest, state.calls[i]? ≠ some (.inside op rest))
      (same : state.shared = last)
  | taken (i : Nat) (op : Op) (rest : Body S R) (held : lock.held state.word = true)
      (here : state.calls[i]? = some (.inside op rest))
      (alone : ∀ (j : Nat) op' rest', state.calls[j]? = some (.inside op' rest') → j = i)
      (continues : rest.run state.shared = (body op).run last)

structure Invariant (lock : Lock W) (body : Op → Body S R) (start : S) (state : State Op S R W)
    (order : List Nat) : Prop where
  nodup : order.Nodup
  returned : ∀ i, i ∈ order ↔ ∃ op result, state.calls[i]? = some (.returned op result)
  legal : ∃ last, Sequential (fun op => (body op).run) start (answers state order) last ∧
    Within lock body state last

variable {start : S} {sequence : List Nat}

theorem answers_congr {other : State Op S R W}
    (same : ∀ i ∈ sequence, other.calls[i]? = state.calls[i]?) :
    answers other sequence = answers state sequence :=
  List.filterMap_congr fun i member => by rw [same i member]

theorem getElem?_invoked (calls : List (Call Op S R)) (op : Op) (i : Nat) (call : Call Op S R)
    (entered : call ≠ .waiting op) :
    (calls ++ [.waiting op])[i]? = some call ↔ calls[i]? = some call := by
  rw [List.getElem?_append]
  split_ifs with old
  · rfl
  · rw [List.getElem?_eq_none (not_lt.mp old), List.getElem?_singleton]
    split_ifs
    · simpa using entered.symm
    · simp

/-- A call that has not returned moves on without returning. -/
theorem Invariant.moved (invariant : Invariant lock body start state sequence) {i : Nat}
    {old new : Call Op S R} (here : state.calls[i]? = some old)
    (old_running : old.answer = none) (new_running : new.answer = none) (word : W) (shared : S)
    (within : ∀ last, Within lock body state last →
      Within lock body ⟨word, shared, state.calls.set i new⟩ last) :
    Invariant lock body start ⟨word, shared, state.calls.set i new⟩ sequence := by
  have apart : i ∉ sequence := by
    intro member
    obtain ⟨op, result, there⟩ := (invariant.returned i).mp member
    obtain rfl := Option.some.inj (here.symm.trans there)
    cases old_running
  have kept : ∀ j ∈ sequence, (state.calls.set i new)[j]? = state.calls[j]? := by
    intro j member
    rw [getElem?_changed here, if_neg]
    rintro rfl
    exact apart member
  obtain ⟨last, sequential, stands⟩ := invariant.legal
  refine ⟨invariant.nodup, fun j => ?_, last, ?_, within last stands⟩
  · rw [invariant.returned, getElem?_changed here]
    split_ifs with same
    · subst same
      rw [here]
      constructor
      · rintro ⟨op, result, there⟩
        obtain rfl := Option.some.inj there
        cases old_running
      · rintro ⟨op, result, there⟩
        obtain rfl := Option.some.inj there
        cases new_running
    · rfl
  · rwa [answers_congr kept]

theorem Invariant.invoked (invariant : Invariant lock body start state sequence) (op : Op) :
    Invariant lock body start { state with calls := state.calls ++ [.waiting op] } sequence := by
  have same : ∀ (i : Nat) (call : Call Op S R), call ≠ .waiting op →
      ((state.calls ++ [.waiting op])[i]? = some call ↔ state.calls[i]? = some call) :=
    fun i call => getElem?_invoked state.calls op i call
  have kept : ∀ i ∈ sequence, (state.calls ++ [.waiting op])[i]? = state.calls[i]? := by
    intro i member
    obtain ⟨op', result, there⟩ := (invariant.returned i).mp member
    rw [there, same i _ (by simp), there]
  obtain ⟨last, sequential, stands⟩ := invariant.legal
  refine ⟨invariant.nodup, fun i => ?_, last, ?_, ?_⟩
  · rw [invariant.returned]
    simp only [same i (.returned _ _) (by simp)]
  · rwa [answers_congr kept]
  · cases stands with
    | free unheld none_inside shared_eq =>
        refine .free unheld (fun i op' rest => ?_) shared_eq
        rw [Ne, same i _ (by simp)]
        exact none_inside i op' rest
    | taken i op' rest held here alone continues =>
        refine .taken i op' rest held ((same i _ (by simp)).mpr here) (fun j op₁ rest₁ there => ?_)
          continues
        exact alone j op₁ rest₁ ((same j _ (by simp)).mp there)

/-- An attempt that finds the lock free. -/
theorem Invariant.entered (invariant : Invariant lock body start state sequence) {i : Nat} {op : Op}
    (here : state.calls[i]? = some (.waiting op)) {word : W}
    (taken : lock.tryLock state.word = some word) :
    Invariant lock body start
      ⟨word, state.shared, state.calls.set i (.inside op (body op))⟩ sequence := by
  obtain ⟨unheld, held⟩ := lock.locks _ _ taken
  refine invariant.moved here rfl rfl word state.shared fun last stands => ?_
  cases stands with
  | free _ none_inside same =>
      refine .taken i op (body op) held (by rw [getElem?_changed here, if_pos rfl]) ?_ (by rw [same])
      intro j op' rest' there
      rw [getElem?_changed here] at there
      split_ifs at there with this_one
      · exact this_one
      · exact absurd there (none_inside j op' rest')
  | taken _ _ _ already => exact absurd already (by rw [unheld]; exact Bool.false_ne_true)

/-- The body inside makes an access. -/
theorem Invariant.accessed (invariant : Invariant lock body start state sequence) {i : Nat}
    {op : Op} {effect : S → S} {next : S → Body S R}
    (here : state.calls[i]? = some (.inside op (.access effect next))) :
    Invariant lock body start
      ⟨state.word, effect state.shared, state.calls.set i (.inside op (next state.shared))⟩
      sequence := by
  refine invariant.moved here rfl rfl state.word (effect state.shared) fun last stands => ?_
  cases stands with
  | free _ none_inside _ => exact absurd here (none_inside i op _)
  | taken j op' rest held there alone continues =>
      obtain rfl := alone i op _ here
      obtain ⟨rfl, rfl⟩ : op' = op ∧ rest = .access effect next := by
        simpa using there.symm.trans here
      refine .taken i op' _ held (by rw [getElem?_changed here, if_pos rfl]) ?_ continues
      intro j op₁ rest₁ inside
      rw [getElem?_changed here] at inside
      split_ifs at inside with this_one
      · exact this_one
      · exact alone j op₁ rest₁ inside

/-- The call inside returns. -/
theorem Invariant.left (invariant : Invariant lock body start state sequence) {i : Nat}
    {op : Op} {result : R} (here : state.calls[i]? = some (.inside op (.done result))) :
    Invariant lock body start
      ⟨lock.unlock state.word, state.shared, state.calls.set i (.returned op result)⟩
      (sequence ++ [i]) := by
  have apart : i ∉ sequence := by
    intro member
    obtain ⟨op', result', there⟩ := (invariant.returned i).mp member
    cases here.symm.trans there
  have kept : ∀ j ∈ sequence,
      (state.calls.set i (.returned op result))[j]? = state.calls[j]? := by
    intro j member
    rw [getElem?_changed here, if_neg]
    rintro rfl
    exact apart member
  have new_here : (state.calls.set i (.returned op result))[i]? = some (.returned op result) := by
    rw [getElem?_changed here, if_pos rfl]
  obtain ⟨last, sequential, stands⟩ := invariant.legal
  refine ⟨?_, fun j => ?_, ?_⟩
  · exact List.nodup_append.mpr
      ⟨invariant.nodup, List.nodup_singleton i, fun j member k single => by
        rw [List.mem_singleton.mp single]
        rintro rfl
        exact apart member⟩
  · rw [List.mem_append, List.mem_singleton, invariant.returned, getElem?_changed here]
    split_ifs with same
    · exact iff_of_true (.inr same) ⟨op, result, rfl⟩
    · simp [same]
  -- the call that leaves was the one inside, and what it did from the last state is its whole
  -- body
  · cases stands with
    | free _ none_inside _ => exact absurd here (none_inside i op _)
    | taken j op' rest held there alone continues =>
        obtain rfl := alone i op _ here
        obtain ⟨rfl, rfl⟩ : op' = op ∧ rest = .done result := by
          simpa using there.symm.trans here
        have parts : ((body op').run last).1 = state.shared ∧ ((body op').run last).2 = result := by
          rw [← continues]
          exact ⟨rfl, rfl⟩
        refine ⟨((body op').run last).1, ?_, .free (lock.unlocks _ held) ?_ parts.1.symm⟩
        · have longer := sequential.append op'
          rw [parts.2] at longer
          rw [answers, List.filterMap_append]
          have last_answer : [i].filterMap (fun j =>
              (state.calls.set i (.returned op' result))[j]?.bind Call.answer) = [(op', result)] := by
            simp [new_here, Call.answer]
          rw [last_answer]
          have same_answers : answers (⟨lock.unlock state.word, state.shared,
              state.calls.set i (.returned op' result)⟩ : State Op S R W) sequence =
                answers state sequence := answers_congr kept
          rwa [← same_answers] at longer
        · intro j op₁ rest₁ inside
          rw [getElem?_changed here] at inside
          split_ifs at inside with this_one
          · cases inside
          · exact this_one (alone j op₁ rest₁ inside)

theorem Invariant.step (invariant : Invariant lock body start state sequence) (label : Label Op) :
    Invariant lock body start (CriticalSection.step lock body state label)
      (sequence ++ returning state label) := by
  cases label with
  | invoke op =>
      rw [returning, List.append_nil]
      exact invariant.invoked op
  | advance i =>
      rw [returning, CriticalSection.step, advance]
      cases here : state.calls[i]? with
      | none => simpa using invariant
      | some call =>
          cases call with
          | waiting op =>
              cases taken : lock.tryLock state.word with
              | none => simpa [taken] using invariant
              | some word => simpa [taken] using invariant.entered here taken
          | inside op rest =>
              cases rest with
              | done result => exact invariant.left here
              | access effect next => simpa using invariant.accessed here
          | returned op result => simpa using invariant

theorem Invariant.run (invariant : Invariant lock body start state sequence)
    (labels : List (Label Op)) :
    Invariant lock body start (Run.final (CriticalSection.step lock body) state labels)
      (sequence ++ order lock body state labels) := by
  induction labels generalizing state sequence with
  | nil => simpa [order, Run.final] using invariant
  | cons label rest ih =>
      have later := ih (invariant.step label)
      rw [order, ← List.append_assoc]
      exact later

theorem Invariant.linearized (invariant : Invariant lock body start state sequence) :
    Linearized (fun op => (body op).run) start state sequence := by
  refine ⟨invariant.nodup, invariant.returned, ?_⟩
  obtain ⟨last, sequential, stands⟩ := invariant.legal
  refine ⟨last, sequential, fun quiet => ?_⟩
  cases stands with
  | free _ _ same => exact same
  | taken i op rest _ here => cases quiet _ (List.mem_of_getElem? here)

/-! No call blocks the others for good. -/

theorem inside_returns (lock : Lock W) (body : Op → Body S R) (i : Nat) (op : Op)
    (rest : Body S R) (state : State Op S R W)
    (here : state.calls[i]? = some (.inside op rest)) :
    ∃ (turns : List Nat) (word : W) (shared : S) (result : R),
      Run.final (CriticalSection.step lock body) state (turns.map .advance) =
        ⟨word, shared, state.calls.set i (.returned op result)⟩ := by
  induction rest generalizing state with
  | done result =>
      exact ⟨[i], lock.unlock state.word, state.shared, result, by
        simp [Run.final, CriticalSection.step, advance, here]⟩
  | access effect next ih =>
      have there : (state.calls.set i (.inside op (next state.shared)))[i]? =
          some (.inside op (next state.shared)) := by
        rw [getElem?_changed here, if_pos rfl]
      obtain ⟨turns, word, shared, result, done⟩ :=
        ih state.shared ⟨state.word, effect state.shared, _⟩ there
      rw [List.set_set] at done
      refine ⟨i :: turns, word, shared, result, ?_⟩
      rw [← done]
      simp [Run.final, CriticalSection.step, advance, here]

theorem Invariant.one_returns (invariant : Invariant lock body start state sequence) {i : Nat}
    {call : Call Op S R} (here : state.calls[i]? = some call) (running : call.answer = none) :
    ∃ (turns : List Nat) (word : W) (shared : S) (j : Nat) (old : Call Op S R) (op : Op) (result : R),
      state.calls[j]? = some old ∧ old.answer = none ∧
        Run.final (CriticalSection.step lock body) state (turns.map .advance) =
          ⟨word, shared, state.calls.set j (.returned op result)⟩ := by
  obtain ⟨last, -, stands⟩ := invariant.legal
  cases stands with
  | taken j op rest _ there =>
      obtain ⟨turns, word, shared, result, done⟩ := inside_returns lock body j op rest state there
      exact ⟨turns, word, shared, j, _, op, result, there, rfl, done⟩
  | free unheld none_inside _ =>
      cases call with
      | returned op result => cases running
      | inside op rest => exact absurd here (none_inside i op rest)
      | waiting op =>
          cases taken : lock.tryLock state.word with
          | none => exact absurd (lock.refuses _ taken) (by rw [unheld]; exact Bool.false_ne_true)
          | some word =>
              have there : (state.calls.set i (.inside op (body op)))[i]? =
                  some (.inside op (body op)) := by
                rw [getElem?_changed here, if_pos rfl]
              obtain ⟨turns, last_word, shared, result, done⟩ :=
                inside_returns lock body i op (body op) ⟨word, state.shared, _⟩ there
              rw [List.set_set] at done
              refine ⟨i :: turns, last_word, shared, i, _, op, result, here, rfl, ?_⟩
              rw [← done]
              simp [Run.final, CriticalSection.step, advance, here, taken]

theorem Invariant.completes (count : Nat) (state : State Op S R W) (sequence : List Nat)
    (invariant : Invariant lock body start state sequence)
    (few : state.calls.countP (fun call => call.answer.isNone) = count) :
    ∃ turns : List Nat, ∀ call ∈ (Run.final (CriticalSection.step lock body) state
      (turns.map .advance)).calls, ∃ op result, call = .returned op result := by
  induction count generalizing state sequence with
  | zero =>
      refine ⟨[], fun call member => ?_⟩
      have returned := List.countP_eq_zero.mp few call member
      cases call with
      | waiting op => simp [Call.answer] at returned
      | inside op rest => simp [Call.answer] at returned
      | returned op result => exact ⟨op, result, rfl⟩
  | succ count ih =>
      have some_left : 0 < state.calls.countP fun call => call.answer.isNone := by
        rw [few]
        exact Nat.succ_pos count
      obtain ⟨call, member, running⟩ := List.countP_pos_iff.mp some_left
      obtain ⟨i, here⟩ := List.getElem?_of_mem member
      obtain ⟨turns, word, shared, j, old, op, result, there, old_running, done⟩ :=
        invariant.one_returns here (Option.isNone_iff_eq_none.mp running)
      have next := invariant.run (turns.map .advance)
      rw [done] at next
      obtain ⟨inside, at_j⟩ := List.getElem?_eq_some_iff.mp there
      have fewer : (state.calls.set j (.returned op result)).countP
          (fun call => call.answer.isNone) = count := by
        rw [List.countP_set inside, few, at_j, old_running]
        simp [Call.answer]
      obtain ⟨later, all⟩ := ih _ _ next fewer
      refine ⟨turns ++ later, ?_⟩
      rw [List.map_append, Run.final, List.foldl_append, ← Run.final, ← Run.final, done]
      exact all

end

end EChainLib.CriticalSection
