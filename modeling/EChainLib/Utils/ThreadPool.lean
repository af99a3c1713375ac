import EChainLib.Support.Run

/-! `ThreadPool` of `thread.cpp`. The operations of its queue are atomic, and everything else
interleaves. A task is known by the number of the call that put it in the queue. -/

namespace EChainLib.Utils

open EChainLib.Run (states Meets property_iff_meets)

/-- Where a worker is in `ThreadPool::Run`, and behind it in `threadProc`. -/
inductive Worker where
  | testing
  | getting
  | starting (task : Nat)
  | running (task : Nat)
  | leaving
  /-- `handle_` is `INVALID_HANDLE`. -/
  | detached
  /-- `running_` is false. -/
  | stopped
  deriving DecidableEq

def Worker.held : Worker → List Nat
  | .starting task => [task]
  | .running task => [task]
  | _ => []

/-- `IsObjectValid`. -/
def Worker.isObjectValid : Worker → Bool
  | .detached => false
  | .stopped => false
  | _ => true

inductive WaiterState where
  | polling
  | stopping
  /-- In front of `JoinWithStop` of a thread, and in its loop. -/
  | checking (i : Nat)
  | joining (i : Nat)
  | returned
  deriving DecidableEq

/-- A call of `WaitAndJoin`, or of `WaitTaskComplete`, which does not join. -/
structure Waiter where
  joins : Bool
  /-- The number of the tasks added before the call. -/
  before : Nat
  state : WaiterState
  deriving DecidableEq

structure Pool where
  tasks_ : List Nat
  threads_ : List Worker
  enabled_ : Bool
  waiters : List Waiter
  /-- What has been added, taken and finished so far. -/
  added : Nat
  taken : List Nat
  finished : List Nat

namespace Pool

/-- A pool with its workers, behind `Init`. -/
def initial (threadNum : Nat) : Pool := ⟨[], List.replicate threadNum .testing, true, [], 0, [], []⟩

/-- `Put`, which does not take a null pointer. -/
def addTask (pool : Pool) (task : Bool) : Pool :=
  if task then { pool with tasks_ := pool.tasks_ ++ [pool.added], added := pool.added + 1 } else pool

/-- `ThreadTaskQueue::Size`, an `int`. -/
def size (pool : Pool) : Int32 := Int32.ofNat pool.tasks_.length

def setWorker (pool : Pool) (i : Nat) (worker : Worker) : Pool :=
  { pool with threads_ := pool.threads_.set i worker }

@[simp] theorem setWorker_taken (pool : Pool) (i : Nat) (worker : Worker) :
    (pool.setWorker i worker).taken = pool.taken := rfl

@[simp] theorem setWorker_finished (pool : Pool) (i : Nat) (worker : Worker) :
    (pool.setWorker i worker).finished = pool.finished := rfl

def workerStep (pool : Pool) (i : Nat) : Pool :=
  match pool.threads_[i]? with
  | none => pool
  | some .testing => pool.setWorker i (if pool.enabled_ then .getting else .leaving)
  | some .getting =>
      match pool.tasks_ with
      -- `Sleep(1)` and round again
      | [] => pool.setWorker i .testing
      | task :: rest =>
          { pool.setWorker i (.starting task) with tasks_ := rest, taken := pool.taken ++ [task] }
  | some (.starting task) => pool.setWorker i (.running task)
  | some (.running task) =>
      { pool.setWorker i .testing with finished := pool.finished ++ [task] }
  | some .leaving => pool.setWorker i .detached
  | some .detached => pool.setWorker i .stopped
  | some .stopped => pool

def setWaiter (pool : Pool) (j : Nat) (waiter : Waiter) (state : WaiterState) : Pool :=
  { pool with waiters := pool.waiters.set j { waiter with state := state } }

def waiterStep (pool : Pool) (j : Nat) : Pool :=
  match pool.waiters[j]? with
  | none => pool
  | some waiter =>
      match waiter.state with
      | .polling =>
          if pool.size > 0 then pool
          else pool.setWaiter j waiter (if waiter.joins then .stopping else .returned)
      | .stopping => { pool.setWaiter j waiter (.checking 0) with enabled_ := false }
      | .checking i =>
          match pool.threads_[i]? with
          | none => pool.setWaiter j waiter .returned
          | some worker =>
              if worker.isObjectValid then pool.setWaiter j waiter (.joining i)
              else pool.setWaiter j waiter (.checking (i + 1))
      | .joining i =>
          if pool.threads_[i]? = some .stopped then pool.setWaiter j waiter (.checking (i + 1))
          else pool
      | .returned => pool

inductive Label where
  | addTask (task : Bool)
  | wait (joins : Bool)
  /-- `Exit`, whose joins change nothing. -/
  | exit
  | worker (i : Nat)
  | waiter (j : Nat)

def step (pool : Pool) : Label → Pool
  | .addTask task => pool.addTask task
  | .wait joins => { pool with waiters := pool.waiters ++ [⟨joins, pool.added, .polling⟩] }
  | .exit => { pool with enabled_ := false }
  | .worker i => pool.workerStep i
  | .waiter j => pool.waiterStep j

/-- The tasks are taken in their order, none runs twice, and the waiting calls that have
returned waited for every task added before. -/
structure Correct (pool : Pool) : Prop where
  fifo : pool.taken ++ pool.tasks_ = List.range pool.added
  once : pool.finished.Nodup
  sound : ∀ task ∈ pool.finished, task ∈ pool.taken
  completed : ∀ waiter ∈ pool.waiters, waiter.state = .returned →
    ∀ task < waiter.before, task ∈ pool.finished

/-- The queue has none of the tasks added before a call. -/
def Dequeued (pool : Pool) (waiter : Waiter) : Prop := ∀ task ∈ pool.tasks_, waiter.before ≤ task

/-- When `WaitTaskComplete` finds a size that is not positive, no task added before its call is queued
or with a worker; when `WaitAndJoin` is through with the threads, none is queued. -/
def PollsIdle (pool : Pool) : Label → Prop
  | .waiter j => ∀ waiter, pool.waiters[j]? = some waiter →
      (waiter.joins = false → waiter.state = .polling → ¬ pool.size > 0 →
        pool.Dequeued waiter ∧
          ∀ worker ∈ pool.threads_, ∀ task ∈ worker.held, waiter.before ≤ task) ∧
      ∀ i, waiter.state = .checking i → pool.threads_[i]? = none → pool.Dequeued waiter
  | _ => True

/-! Every taken task is finished or with one worker. -/

def inFlight (pool : Pool) : List Nat := pool.threads_.flatMap Worker.held

/-- The threads up to one have left `ThreadPool::Run`. -/
def LeftBefore (pool : Pool) (i : Nat) : Prop :=
  ∀ k < i, ∀ worker, pool.threads_[k]? = some worker → worker.isObjectValid = false

def WaiterInvariant (pool : Pool) (waiter : Waiter) : Prop :=
  waiter.before ≤ pool.added ∧
    match waiter.state with
    | .polling => True
    | .stopping => True
    | .checking i => pool.LeftBefore i
    | .joining i => pool.LeftBefore i
    | .returned => ∀ task < waiter.before, task ∈ pool.finished

structure Invariant (pool : Pool) : Prop where
  fifo : pool.taken ++ pool.tasks_ = List.range pool.added
  accounted : (pool.finished ++ pool.inFlight).Perm pool.taken
  waiters : ∀ waiter ∈ pool.waiters, pool.WaiterInvariant waiter

theorem taken_range (pool : Pool) (fifo : pool.taken ++ pool.tasks_ = List.range pool.added) :
    pool.taken = List.range pool.taken.length := by
  have front := congrArg (List.take pool.taken.length) fifo
  have short : pool.taken.length ≤ pool.added := by
    have length := congrArg List.length fifo
    rw [List.length_append, List.length_range] at length
    omega
  rwa [List.take_left, List.take_range, min_eq_left short] at front

theorem mem_taken_iff (pool : Pool) (fifo : pool.taken ++ pool.tasks_ = List.range pool.added)
    (task : Nat) : task ∈ pool.taken ↔ task < pool.taken.length := by
  rw [← List.mem_range, ← taken_range pool fifo]

theorem Invariant.apart {pool : Pool} (invariant : pool.Invariant) :
    (pool.finished ++ pool.inFlight).Nodup := by
  rw [invariant.accounted.nodup_iff, taken_range pool invariant.fifo]
  exact List.nodup_range

/-- What a worker holds changes what is in flight. -/
theorem inFlight_setWorker (pool : Pool) (i : Nat) (old new : Worker)
    (here : pool.threads_[i]? = some old) :
    ((pool.setWorker i new).inFlight ++ old.held).Perm (pool.inFlight ++ new.held) := by
  obtain ⟨inside, found⟩ := List.getElem?_eq_some_iff.mp here
  obtain ⟨front, back, whole, _, changed⟩ : ∃ front back,
      pool.threads_ = front ++ pool.threads_[i] :: back ∧ front.length = i ∧
        pool.threads_.set i new = front ++ new :: back := List.exists_of_set inside
  rw [found] at whole
  have before : pool.inFlight = front.flatMap Worker.held ++ (old.held ++ back.flatMap Worker.held) := by
    rw [inFlight, whole, List.flatMap_append, List.flatMap_cons]
  have after : (pool.setWorker i new).inFlight =
      front.flatMap Worker.held ++ (new.held ++ back.flatMap Worker.held) := by
    rw [inFlight, setWorker, changed, List.flatMap_append, List.flatMap_cons]
  refine List.perm_iff_count.mpr fun task => ?_
  rw [before, after]
  simp only [List.count_append]
  omega

/-- What waiting calls rely on is not undone. -/
structure Grows (pool pool' : Pool) : Prop where
  added : pool.added ≤ pool'.added
  finished : ∀ task ∈ pool.finished, task ∈ pool'.finished
  left : ∀ i, pool.LeftBefore i → pool'.LeftBefore i

theorem WaiterInvariant.grows {pool pool' : Pool} {waiter : Waiter}
    (holds : pool.WaiterInvariant waiter) (grows : pool.Grows pool') :
    pool'.WaiterInvariant waiter := by
  obtain ⟨before, at_state⟩ := holds
  refine ⟨before.trans grows.added, ?_⟩
  cases place : waiter.state with
  | polling => trivial
  | stopping => trivial
  | checking i =>
      rw [place] at at_state
      exact grows.left i at_state
  | joining i =>
      rw [place] at at_state
      exact grows.left i at_state
  | returned =>
      rw [place] at at_state
      exact fun task inside => grows.finished task (at_state task inside)

theorem left_setWorker (pool : Pool) (i bound : Nat) (old new : Worker)
    (here : pool.threads_[i]? = some old)
    (stays : old.isObjectValid = false → new.isObjectValid = false) (left : pool.LeftBefore bound) :
    (pool.setWorker i new).LeftBefore bound := by
  intro k inside worker found
  rw [setWorker, List.getElem?_set] at found
  split_ifs at found with own
  · subst own
    rw [← Option.some.inj found]
    exact stays (left i inside old here)
  · exact left k inside worker found

/-- A step of a worker that only changes the worker. -/
theorem setWorker_invariant (pool : Pool) (i : Nat) (old new : Worker) (invariant : pool.Invariant)
    (here : pool.threads_[i]? = some old) (same : new.held = old.held)
    (stays : old.isObjectValid = false → new.isObjectValid = false) :
    (pool.setWorker i new).Invariant where
  fifo := invariant.fifo
  accounted := by
    have moved := inFlight_setWorker pool i old new here
    rw [same] at moved
    exact (((List.perm_append_right_iff _).mp moved).append_left _).trans invariant.accounted
  waiters := fun waiter member => (invariant.waiters waiter member).grows
    ⟨le_rfl, fun _ done => done, fun bound => left_setWorker pool i bound old new here stays⟩

/-- `Get`. -/
theorem get_invariant (pool : Pool) (i task : Nat) (rest : List Nat) (invariant : pool.Invariant)
    (here : pool.threads_[i]? = some .getting) (queue : pool.tasks_ = task :: rest) :
    { pool.setWorker i (.starting task) with
      tasks_ := rest, taken := pool.taken ++ [task] }.Invariant := by
  have fifo := invariant.fifo
  have moved := inFlight_setWorker pool i .getting (.starting task) here
  rw [queue] at fifo
  constructor
  · exact (List.append_assoc _ _ _).trans fifo
  · refine List.perm_iff_count.mpr fun other => ?_
    have before := invariant.accounted.count_eq other
    have after := moved.count_eq other
    simp only [Worker.held, List.append_nil, List.count_append, setWorker_finished] at before after ⊢
    change _ + List.count other (pool.setWorker i (.starting task)).inFlight = _
    omega
  · intro waiter member
    exact (invariant.waiters waiter member).grows ⟨le_rfl, fun _ done => done, fun bound =>
      left_setWorker pool i bound .getting _ here nofun⟩

/-- The end of a task. -/
theorem finish_invariant (pool : Pool) (i task : Nat) (invariant : pool.Invariant)
    (here : pool.threads_[i]? = some (.running task)) :
    { pool.setWorker i .testing with finished := pool.finished ++ [task] }.Invariant := by
  have moved := inFlight_setWorker pool i (.running task) .testing here
  constructor
  · exact invariant.fifo
  · refine List.perm_iff_count.mpr fun other => ?_
    have before := invariant.accounted.count_eq other
    have after := moved.count_eq other
    simp only [Worker.held, List.append_nil, List.count_append, setWorker_taken] at before after ⊢
    change _ + List.count other (pool.setWorker i .testing).inFlight = _
    omega
  · intro waiter member
    exact (invariant.waiters waiter member).grows ⟨le_rfl,
      fun other done => List.mem_append_left _ done, fun bound =>
        left_setWorker pool i bound (.running task) _ here nofun⟩

theorem worker_invariant (pool : Pool) (i : Nat) (invariant : pool.Invariant) :
    (pool.workerStep i).Invariant := by
  unfold workerStep
  cases here : pool.threads_[i]? with
  | none => exact invariant
  | some old =>
      cases old with
      | testing =>
          apply setWorker_invariant pool i .testing _ invariant here
          · split_ifs <;> rfl
          · nofun
      | getting =>
          cases queue : pool.tasks_ with
          | nil => exact setWorker_invariant pool i .getting _ invariant here rfl nofun
          | cons task rest => exact get_invariant pool i task rest invariant here queue
      | starting task => exact setWorker_invariant pool i (.starting task) _ invariant here rfl nofun
      | running task => exact finish_invariant pool i task invariant here
      | leaving => exact setWorker_invariant pool i .leaving _ invariant here rfl nofun
      | detached => exact setWorker_invariant pool i .detached _ invariant here rfl fun _ => rfl
      | stopped => exact invariant

/-! The steps of waiting calls. -/

/-- When every thread has left, every task taken has finished. -/
theorem Invariant.all_finished {pool : Pool} (invariant : pool.Invariant) (i : Nat)
    (left : pool.LeftBefore i) (last : pool.threads_[i]? = none) :
    ∀ task < pool.taken.length, task ∈ pool.finished := by
  have idle : pool.inFlight = [] := by
    refine List.flatMap_eq_nil_iff.mpr fun worker member => ?_
    obtain ⟨k, found⟩ := List.mem_iff_getElem?.mp member
    have inside : k < pool.threads_.length := (List.getElem?_eq_some_iff.mp found).1
    have invalid := left k (inside.trans_le (List.getElem?_eq_none_iff.mp last)) worker found
    cases worker <;> first | rfl | cases invalid
  have accounted := invariant.accounted
  rw [idle, List.append_nil] at accounted
  exact fun task inside => accounted.mem_iff.mpr ((mem_taken_iff pool invariant.fifo task).mpr inside)

/-- What was added and is not queued has been taken. -/
theorem Invariant.dequeued_taken {pool : Pool} (invariant : pool.Invariant) {waiter : Waiter}
    (added : waiter.before ≤ pool.added) (dequeued : pool.Dequeued waiter) :
    ∀ task < waiter.before, task ∈ pool.taken := by
  intro task inside
  have here : task ∈ pool.taken ++ pool.tasks_ := by
    rw [invariant.fifo, List.mem_range]
    exact inside.trans_le added
  rcases List.mem_append.mp here with taken | queued
  · exact taken
  · exact absurd (dequeued task queued) (Nat.not_le_of_lt inside)

/-- What is with no worker either has finished. -/
theorem Invariant.idle_finished {pool : Pool} (invariant : pool.Invariant) {waiter : Waiter}
    (added : waiter.before ≤ pool.added) (dequeued : pool.Dequeued waiter)
    (idle : ∀ worker ∈ pool.threads_, ∀ task ∈ worker.held, waiter.before ≤ task) :
    ∀ task < waiter.before, task ∈ pool.finished := by
  intro task inside
  have taken := invariant.dequeued_taken added dequeued task inside
  rcases List.mem_append.mp (invariant.accounted.mem_iff.mpr taken) with done | held
  · exact done
  · obtain ⟨worker, member, own⟩ := List.mem_flatMap.mp held
    exact absurd (idle worker member task own) (Nat.not_le_of_lt inside)

theorem setWaiter_invariant (pool : Pool) (j : Nat) (waiter : Waiter) (state : WaiterState)
    (invariant : pool.Invariant)
    (moved : pool.WaiterInvariant { waiter with state := state }) :
    (pool.setWaiter j waiter state).Invariant where
  fifo := invariant.fifo
  accounted := invariant.accounted
  waiters := fun other member => by
    rcases List.mem_or_eq_of_mem_set member with old | new
    · exact invariant.waiters other old
    · exact new ▸ moved

theorem left_succ (pool : Pool) (i : Nat) (worker : Worker) (left : pool.LeftBefore i)
    (here : pool.threads_[i]? = some worker) (invalid : worker.isObjectValid = false) :
    pool.LeftBefore (i + 1) := by
  intro k inside other found
  rcases Nat.lt_or_eq_of_le (Nat.le_of_lt_succ inside) with earlier | same
  · exact left k earlier other found
  · rw [same, here] at found
    exact Option.some.inj found ▸ invalid

theorem waiter_invariant (pool : Pool) (j : Nat) (invariant : pool.Invariant)
    (polls_idle : pool.PollsIdle (.waiter j)) : (pool.waiterStep j).Invariant := by
  unfold waiterStep
  -- what a poll or a join has seen of the threads is kept, and a return needs all that came before
  cases here : pool.waiters[j]? with
  | none => exact invariant
  | some waiter =>
      obtain ⟨before, at_state⟩ := invariant.waiters waiter (List.mem_of_getElem? here)
      obtain ⟨joins, count, state⟩ := waiter
      cases state with
      | polling =>
          dsimp only
          split_ifs with some_task joined
          · exact invariant
          · exact setWaiter_invariant pool j _ .stopping invariant ⟨before, trivial⟩
          · obtain ⟨dequeued, idle⟩ :=
              (polls_idle _ here).1 (by simpa using joined) rfl some_task
            have finished := invariant.idle_finished before dequeued idle
            exact setWaiter_invariant pool j _ .returned invariant ⟨before, finished⟩
      | stopping =>
          have moved := setWaiter_invariant pool j ⟨joins, count, .stopping⟩ (.checking 0) invariant
            ⟨before, fun k inside => absurd inside (Nat.not_lt_zero k)⟩
          exact ⟨moved.fifo, moved.accounted, moved.waiters⟩
      | checking i =>
          dsimp only
          cases thread : pool.threads_[i]? with
          | none =>
              have dequeued := (polls_idle _ here).2 i rfl thread
              have finished : ∀ task < count, task ∈ pool.finished := fun task inside =>
                invariant.all_finished i at_state thread task
                  ((mem_taken_iff pool invariant.fifo task).mp
                    (invariant.dequeued_taken before dequeued task inside))
              exact setWaiter_invariant pool j _ .returned invariant ⟨before, finished⟩
          | some worker =>
              dsimp only
              split_ifs with valid
              · exact setWaiter_invariant pool j _ (.joining i) invariant ⟨before, at_state⟩
              · have left := left_succ pool i worker at_state thread (by simpa using valid)
                exact setWaiter_invariant pool j _ (.checking (i + 1)) invariant ⟨before, left⟩
      | joining i =>
          dsimp only
          split_ifs with stopped
          · have left := left_succ pool i .stopped at_state stopped rfl
            exact setWaiter_invariant pool j _ (.checking (i + 1)) invariant ⟨before, left⟩
          · exact invariant
      | returned => exact invariant

theorem step_invariant (pool : Pool) (label : Label) (invariant : pool.Invariant)
    (polls_idle : pool.PollsIdle label) : (pool.step label).Invariant := by
  cases label with
  | addTask task =>
      cases task with
      | false => exact invariant
      | true =>
          constructor
          · have fifo := invariant.fifo
            exact (List.append_assoc _ _ _).symm.trans
              ((congrArg (· ++ [pool.added]) fifo).trans List.range_succ.symm)
          · exact invariant.accounted
          · exact fun waiter member => (invariant.waiters waiter member).grows
              ⟨Nat.le_succ _, fun _ done => done, fun _ left => left⟩
  | wait joins =>
      refine ⟨invariant.fifo, invariant.accounted, fun waiter member => ?_⟩
      rcases List.mem_append.mp member with old | new
      · exact invariant.waiters waiter old
      · rw [List.mem_singleton.mp new]
        exact ⟨le_rfl, trivial⟩
  | exit => exact ⟨invariant.fifo, invariant.accounted, invariant.waiters⟩
  | worker i => exact worker_invariant pool i invariant
  | waiter j => exact waiter_invariant pool j invariant polls_idle

theorem initial_invariant (threadNum : Nat) : (initial threadNum).Invariant := by
  refine ⟨rfl, ?_, fun waiter member => absurd member List.not_mem_nil⟩
  have idle : (initial threadNum).inFlight = [] := by
    refine List.flatMap_eq_nil_iff.mpr fun worker member => ?_
    rw [List.eq_of_mem_replicate member]
    rfl
  rw [idle]
  exact List.Perm.refl _

theorem Invariant.correct {pool : Pool} (invariant : pool.Invariant) : pool.Correct where
  fifo := invariant.fifo
  once := (List.nodup_append.mp invariant.apart).1
  sound := fun _ done => invariant.accounted.mem_iff.mp (List.mem_append_left _ done)
  completed := fun waiter member place => by
    have holds := (invariant.waiters waiter member).2
    rwa [place] at holds

/-- A task that is queued or with a worker has not finished. -/
theorem Invariant.unfinished {pool : Pool} (invariant : pool.Invariant) (task : Nat)
    (open_task : task ∈ pool.tasks_ ∨ ∃ worker ∈ pool.threads_, task ∈ worker.held) :
    task ∉ pool.finished := by
  intro done
  rcases open_task with queued | ⟨worker, member, held⟩
  · have apart : (pool.taken ++ pool.tasks_).Nodup := by
      rw [invariant.fifo]
      exact List.nodup_range
    have taken := invariant.accounted.mem_iff.mp (List.mem_append_left _ done)
    exact (List.nodup_append.mp apart).2.2 task taken task queued rfl
  · have apart := List.nodup_append.mp invariant.apart
    exact apart.2.2 task done task (List.mem_flatMap.mpr ⟨worker, member, held⟩) rfl

/-- A call that returns while a task from before is open. -/
theorem returns_early (pool : Pool) (j task : Nat) (waiter : Waiter) (invariant : pool.Invariant)
    (here : pool.waiters[j]? = some waiter) (early : task < waiter.before)
    (open_task : task ∈ pool.tasks_ ∨ ∃ worker ∈ pool.threads_, task ∈ worker.held) :
    ¬ (pool.setWaiter j waiter .returned).Correct := by
  intro correct
  have inside := (List.getElem?_eq_some_iff.mp here).1
  have done := correct.completed _ (List.mem_set inside _) rfl task early
  exact invariant.unfinished task open_task done

theorem busy_incorrect (pool : Pool) (label : Label) (invariant : pool.Invariant)
    (busy : ¬ pool.PollsIdle label) : ¬ (pool.step label).Correct := by
  cases label with
  | waiter j =>
      simp only [PollsIdle, not_forall] at busy
      obtain ⟨waiter, here, wrong⟩ := busy
      rcases not_and_or.mp wrong with polls | ends
      · simp only [not_forall] at polls
        obtain ⟨alone, place, stops, wrong⟩ := polls
        have returns : pool.step (.waiter j) = pool.setWaiter j waiter .returned := by
          simp [step, waiterStep, here, place, stops, alone]
        rw [returns]
        rcases not_and_or.mp wrong with queued | busy
        · simp only [Dequeued, not_forall, not_le] at queued
          obtain ⟨task, queued, early⟩ := queued
          exact returns_early pool j task waiter invariant here early (.inl queued)
        · simp only [not_forall, not_le] at busy
          obtain ⟨worker, member, task, held, early⟩ := busy
          exact returns_early pool j task waiter invariant here early
            (.inr ⟨worker, member, held⟩)
      · simp only [Dequeued, not_forall, not_le] at ends
        obtain ⟨i, place, last, task, queued, early⟩ := ends
        have returns : pool.step (.waiter j) = pool.setWaiter j waiter .returned := by
          simp [step, waiterStep, here, place, last]
        rw [returns]
        exact returns_early pool j task waiter invariant here early (.inl queued)
  | addTask task => exact absurd trivial busy
  | wait joins => exact absurd trivial busy
  | exit => exact absurd trivial busy
  | worker i => exact absurd trivial busy

/-! With a queue that an `int` can count. -/

theorem size_pos_iff (pool : Pool) (short : pool.tasks_.length < 2 ^ 31) :
    pool.size > 0 ↔ pool.tasks_ ≠ [] := by
  have counted : pool.size.toInt = pool.tasks_.length := Int32.toInt_ofNat_of_lt short
  rw [gt_iff_lt, Int32.lt_iff_toInt_lt, counted, ← List.length_pos_iff_ne_nil]
  exact Nat.cast_pos

/-- A poll finds fewer than 2^31 tasks; one of `WaitTaskComplete` that finds none finds no worker with
a task added before its call. -/
def PollsSmall (pool : Pool) : Label → Prop
  | .waiter j => ∀ waiter, pool.waiters[j]? = some waiter → waiter.state = .polling →
      pool.tasks_.length < 2 ^ 31 ∧ (waiter.joins = false → pool.tasks_ = [] →
        ∀ worker ∈ pool.threads_, ∀ task ∈ worker.held, waiter.before ≤ task)
  | _ => True

/-- Behind its polling a call has nothing to wait for in the queue. -/
def PolledOut (pool : Pool) : Prop :=
  ∀ waiter ∈ pool.waiters, waiter.state ≠ .polling → pool.Dequeued waiter

theorem PolledOut.polls_idle {pool : Pool} (polled : pool.PolledOut) (label : Label)
    (small : pool.PollsSmall label) : pool.PollsIdle label := by
  cases label with
  | waiter j =>
      intro waiter here
      refine ⟨fun alone place stops => ?_, fun i place _ => ?_⟩
      · obtain ⟨short, idle⟩ := small waiter here place
        have empty : pool.tasks_ = [] := by
          rwa [pool.size_pos_iff short, not_not] at stops
        refine ⟨fun task queued => ?_, idle alone empty⟩
        rw [empty] at queued
        cases queued
      · exact polled waiter (List.mem_of_getElem? here) (by simp [place])
  | addTask task => trivial
  | wait joins => trivial
  | exit => trivial
  | worker i => trivial

theorem PolledOut.fewer {pool pool' : Pool} (polled : pool.PolledOut)
    (waiters : pool'.waiters = pool.waiters) (fewer : ∀ task ∈ pool'.tasks_, task ∈ pool.tasks_) :
    pool'.PolledOut := by
  intro waiter member place task queued
  exact polled waiter (waiters ▸ member) place task (fewer task queued)

theorem PolledOut.set {pool : Pool} (polled : pool.PolledOut) (j : Nat) (waiter : Waiter)
    (state : WaiterState) (dequeued : pool.Dequeued waiter) :
    (pool.setWaiter j waiter state).PolledOut := by
  intro other member place
  rcases List.mem_or_eq_of_mem_set member with old | new
  · exact polled other old place
  · exact new ▸ dequeued

theorem PolledOut.waiter_step {pool : Pool} (polled : pool.PolledOut) (j : Nat)
    (small : pool.PollsSmall (.waiter j)) : (pool.waiterStep j).PolledOut := by
  unfold waiterStep
  cases here : pool.waiters[j]? with
  | none => exact polled
  | some waiter =>
      have member := List.mem_of_getElem? here
      obtain ⟨joins, before, state⟩ := waiter
      cases state with
      | polling =>
          dsimp only
          by_cases some_task : pool.size > 0
          · rw [if_pos some_task]
            exact polled
          · rw [if_neg some_task]
            have empty : pool.tasks_ = [] := by
              rwa [pool.size_pos_iff (small _ here rfl).1, not_not] at some_task
            refine polled.set j _ _ fun task queued => ?_
            rw [empty] at queued
            cases queued
      | stopping =>
          exact (polled.set j _ _ (polled _ member nofun)).fewer rfl fun _ queued => queued
      | checking i =>
          have dequeued := polled _ member nofun
          dsimp only
          split
          · exact polled.set j _ _ dequeued
          · split_ifs <;> exact polled.set j _ _ dequeued
      | joining i =>
          dsimp only
          split_ifs
          · exact polled.set j _ _ (polled _ member nofun)
          · exact polled
      | returned => exact polled

theorem PolledOut.worker_step {pool : Pool} (polled : pool.PolledOut) (i : Nat) :
    (pool.workerStep i).PolledOut := by
  unfold workerStep
  split
  case h_3 =>
    split
    · exact polled.fewer rfl fun _ queued => queued
    · rename_i task rest queue
      refine polled.fewer rfl fun other queued => ?_
      rw [queue]
      exact List.mem_cons_of_mem task queued
  all_goals exact polled.fewer rfl fun _ queued => queued

theorem polledOut_step (pool : Pool) (label : Label) (invariant : pool.Invariant)
    (polled : pool.PolledOut) (small : pool.PollsSmall label) : (pool.step label).PolledOut := by
  cases label with
  | addTask task =>
      cases task with
      | false => exact polled
      | true =>
          intro waiter member place task queued
          rcases List.mem_append.mp queued with old | new
          · exact polled waiter member place task old
          · rw [List.mem_singleton.mp new]
            exact (invariant.waiters waiter member).1
  | wait joins =>
      intro waiter member place
      rcases List.mem_append.mp member with old | new
      · exact polled waiter old place
      · rw [List.mem_singleton.mp new] at place
        exact absurd rfl place
  | exit => exact polled.fewer rfl fun _ queued => queued
  | worker i => exact polled.worker_step i
  | waiter j => exact polled.waiter_step j small

/-- `WaitAndJoin` then waits in every run. -/
theorem meets_of_small (threadNum : Nat) (labels : List Label)
    (small : Meets step PollsSmall (initial threadNum) labels) :
    Meets step PollsIdle (initial threadNum) labels :=
  Run.meets_of_invariant step PollsSmall PollsIdle (fun pool => pool.Invariant ∧ pool.PolledOut)
    (fun pool label both small => ⟨step_invariant pool label both.1 (both.2.polls_idle label small),
      polledOut_step pool label both.1 both.2 small⟩)
    (fun _ label both small => both.2.polls_idle label small) (initial threadNum) labels
    ⟨initial_invariant threadNum, fun _ member => absurd member List.not_mem_nil⟩ small

/-- In every run the tasks are taken in their order, each once; the waiting calls wait for those added
before exactly if none of these is open when `WaitTaskComplete` stops polling, or queued when
`WaitAndJoin` is through with the threads. -/
theorem runs_every_task_once_iff (threadNum : Nat) (labels : List Label) :
    (∀ pool ∈ states step (initial threadNum) labels, pool.Correct) ↔
      Meets step PollsIdle (initial threadNum) labels :=
  property_iff_meets step (fun _ _ => True) PollsIdle Invariant Correct
    (fun _ invariant => invariant.correct)
    (fun pool label invariant _ polls_idle => step_invariant pool label invariant polls_idle)
    (fun pool label invariant _ busy => busy_incorrect pool label invariant busy)
    (initial threadNum) labels (initial_invariant threadNum)
    (Run.meets_true step (initial threadNum) labels)

/-- One worker has taken the one task, and has not started it. -/
def earlyReturn : List Label := [.addTask true, .worker 0, .worker 0, .wait false, .waiter 0]

theorem returns_before_task_finished :
    (Run.final step (initial 1) earlyReturn).waiters = [⟨false, 1, .returned⟩] ∧
      (Run.final step (initial 1) earlyReturn).finished = [] ∧
      ¬ (Run.final step (initial 1) earlyReturn).Correct := by
  refine ⟨by decide, by decide, fun correct => ?_⟩
  have returned : (⟨false, 1, .returned⟩ : Waiter) ∈
      (Run.final step (initial 1) earlyReturn).waiters := by decide
  have done := correct.completed _ returned rfl 0 Nat.zero_lt_one
  revert done
  decide

end Pool

end EChainLib.Utils
