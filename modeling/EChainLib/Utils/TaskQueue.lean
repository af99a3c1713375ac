import EChainLib.Support.CriticalSection
import EChainLib.Utils.ThreadPool

/-! `SpinLock` and `ThreadTaskQueue` of `thread.h` and `thread.cpp`, any number of calls at a
time. An access to `tasks_` reads or writes it; changing the list takes one of each. -/

namespace EChainLib.Utils

open CriticalSection

/-- `BUBI_CAS`: what is in memory behind it, and what was there. -/
def bubiCas (mem with_ cmp : UInt32) : UInt32 × UInt32 := (if mem = cmp then with_ else mem, mem)

def spinlockFree : UInt32 := 0

def spinlockBusy : UInt32 := 1

structure SpinLock where
  m_busy : UInt32
  valid : m_busy = spinlockFree ∨ m_busy = spinlockBusy

namespace SpinLock

def new : SpinLock := ⟨spinlockFree, .inl rfl⟩

theorem valid_cas (spinLock : SpinLock) {with_ cmp : UInt32}
    (known : with_ = spinlockFree ∨ with_ = spinlockBusy) :
    (bubiCas spinLock.m_busy with_ cmp).1 = spinlockFree ∨
      (bubiCas spinLock.m_busy with_ cmp).1 = spinlockBusy := by
  rw [bubiCas]
  split_ifs
  · exact known
  · exact spinLock.valid

/-- One turn of `Lock`; `none` goes round again. -/
def tryLock (spinLock : SpinLock) : Option SpinLock :=
  if (bubiCas spinLock.m_busy spinlockBusy spinlockFree).2 = spinlockBusy then none
  else some ⟨(bubiCas spinLock.m_busy spinlockBusy spinlockFree).1, spinLock.valid_cas (.inr rfl)⟩

def unlock (spinLock : SpinLock) : SpinLock :=
  ⟨(bubiCas spinLock.m_busy spinlockFree spinlockBusy).1, spinLock.valid_cas (.inl rfl)⟩

def lock : Lock SpinLock where
  tryLock := tryLock
  unlock := unlock
  held spinLock := spinLock.m_busy = spinlockBusy
  locks spinLock next taken := by
    rw [tryLock] at taken
    split_ifs at taken with busy
    obtain rfl := Option.some.inj taken
    have free : spinLock.m_busy = spinlockFree := spinLock.valid.resolve_right busy
    exact ⟨decide_eq_false busy, by simp [bubiCas, free]⟩
  refuses spinLock refused := by
    rw [tryLock] at refused
    split_ifs at refused with busy
    exact decide_eq_true busy
  unlocks spinLock held := by
    have busy : spinLock.m_busy = spinlockBusy := of_decide_eq_true held
    have freed : spinLock.unlock.m_busy = spinlockFree := if_pos busy
    rw [freed]
    rfl

end SpinLock

variable {Task : Type}

/-- The calls of a `ThreadTaskQueue`; a null pointer is `none`. -/
inductive QueueCall (Task : Type) where
  | putFront (task : Option Task)
  | put (task : Option Task)
  | size
  | get

inductive QueueAnswer (Task : Type) where
  | ret (size : Int32)
  | task (task : Option Task)

/-- `ret = tasks_.size()`. -/
def readSize : Body (List Task) (QueueAnswer Task) :=
  .access id fun tasks => .done (.ret (Int32.ofNat tasks.length))

/-- What stands between `Lock` and `Unlock`. -/
def QueueCall.body : QueueCall Task → Body (List Task) (QueueAnswer Task)
  | .putFront none => readSize
  | .putFront (some task) =>
      .access id fun tasks => .access (fun _ => task :: tasks) fun _ => readSize
  | .put none => readSize
  | .put (some task) =>
      .access id fun tasks => .access (fun _ => tasks ++ [task]) fun _ => readSize
  | .size => readSize
  | .get =>
      .access id fun tasks =>
        if tasks.length > 0 then
          .access id fun front => .access id fun tasks =>
            .access (fun _ => tasks.tail) fun _ => .done (.task front.head?)
        else .done (.task none)

/-- What a call is for: one operation on the queue. -/
def QueueCall.apply : QueueCall Task → List Task → List Task × QueueAnswer Task
  | .putFront task, tasks =>
      let tasks := task.toList ++ tasks
      (tasks, .ret (Int32.ofNat tasks.length))
  | .put task, tasks =>
      let tasks := tasks ++ task.toList
      (tasks, .ret (Int32.ofNat tasks.length))
  | .size, tasks => (tasks, .ret (Int32.ofNat tasks.length))
  | .get, tasks => (tasks.tail, .task tasks.head?)

theorem QueueCall.body_run (call : QueueCall Task) (tasks : List Task) :
    call.body.run tasks = call.apply tasks := by
  cases call with
  | putFront task => cases task <;> rfl
  | put task =>
      cases task with
      | none => simp [QueueCall.body, readSize, QueueCall.apply, Body.run]
      | some task => rfl
  | size => rfl
  | get => cases tasks <;> rfl

abbrev TaskQueue (Task : Type) :=
  State (QueueCall Task) (List Task) (QueueAnswer Task) SpinLock

/-- `ThreadTaskQueue::ThreadTaskQueue`. -/
def taskQueueNew : TaskQueue Task := ⟨.new, [], []⟩

def taskQueueStep : TaskQueue Task → Label (QueueCall Task) → TaskQueue Task :=
  CriticalSection.step SpinLock.lock QueueCall.body

/-- Whichever way the calls interleave, there is an order of those that have returned, which only
grows, so that it keeps the order of calls that did not overlap; each answers as in that order.
No call keeps the others from returning. -/
theorem taskQueue_linearizable :
    ∃ order : List (Label (QueueCall Task)) → List Nat,
      (∀ run later, order run <+: order (run ++ later)) ∧
        ∀ run, Linearized QueueCall.apply [] (Run.final taskQueueStep taskQueueNew run) (order run) ∧
          ∃ turns : List Nat,
            ∀ call ∈ (Run.final taskQueueStep taskQueueNew (run ++ turns.map .advance)).calls,
              ∃ op answer, call = .returned op answer := by
  have start : Invariant SpinLock.lock QueueCall.body [] (taskQueueNew : TaskQueue Task) [] := by
    refine ⟨List.nodup_nil, fun i => by simp [taskQueueNew], [], .nil _, ?_⟩
    exact .free rfl (fun i op rest => by simp [taskQueueNew]) rfl
  have same : (fun call : QueueCall Task => call.body.run) = QueueCall.apply :=
    funext fun call => funext call.body_run
  refine ⟨order SpinLock.lock QueueCall.body taskQueueNew, fun run later => ?_, fun run => ?_⟩
  · rw [order_append]
    exact List.prefix_append _ _
  · have here := start.run run
    rw [List.nil_append] at here
    have linearized := here.linearized
    rw [same] at linearized
    obtain ⟨turns, all⟩ := Invariant.completes _ _ _ here rfl
    refine ⟨linearized, turns, ?_⟩
    rw [Run.final_append]
    exact all

/-! The operations of `ThreadPool` on its queue are those of `ThreadTaskQueue`. -/

theorem addTask_applies (pool : Pool) (task : Bool) :
    (pool.addTask task).tasks_ =
      ((QueueCall.put (if task then some pool.added else none)).apply pool.tasks_).1 := by
  cases task <;> simp [Pool.addTask, QueueCall.apply]

theorem getting_applies (pool : Pool) (i : Nat) (getting : pool.threads_[i]? = some .getting) :
    (pool.workerStep i).tasks_ = (QueueCall.get.apply pool.tasks_).1 ∧
      (pool.workerStep i).taken = pool.taken ++ pool.tasks_.head?.toList := by
  rw [Pool.workerStep, getting]
  cases waiting : pool.tasks_ <;> simp [QueueCall.apply, Pool.setWorker, waiting]

end EChainLib.Utils
