import EChainLib.Support.Run
import EChainLib.Support.Slots

/-! `Mutex`, which is recursive, and `ReadWriteLock` of `thread.h` and `thread.cpp` with its two
guards, for any number of threads. A guard is released by the thread that holds it. -/

namespace EChainLib.Utils

/-- The owner of a recursive mutex, and how often it locked again. -/
inductive Mutex where
  | unlocked
  | locked (owner again : Nat)
  deriving DecidableEq

namespace Mutex

/-- `Lock`; `none` waits. -/
def lock (thread : Nat) : Mutex → Option Mutex
  | unlocked => some (locked thread 0)
  | locked owner again => if owner = thread then some (locked owner (again + 1)) else none

def unlock (thread : Nat) : Mutex → Mutex
  | unlocked => unlocked
  | locked owner again =>
      if owner = thread then (if again = 0 then unlocked else locked owner (again - 1))
      else locked owner again

/-- How often a thread has it locked. -/
def holds (mutex : Mutex) (thread : Nat) : Nat :=
  match mutex with
  | unlocked => 0
  | locked owner again => if owner = thread then again + 1 else 0

@[simp] theorem holds_unlocked (thread : Nat) : unlocked.holds thread = 0 := rfl

theorem holds_lock {mutex next : Mutex} {thread : Nat} (locks : mutex.lock thread = some next)
    (other : Nat) : next.holds other = mutex.holds other + if other = thread then 1 else 0 := by
  cases mutex with
  | unlocked =>
      obtain rfl := Option.some.inj locks
      simp [holds, eq_comm]
  | locked owner again =>
      rw [lock] at locks
      split_ifs at locks with own
      obtain rfl := Option.some.inj locks
      subst own
      by_cases same : other = owner
      · simp [holds, same]
      · simp [holds, same, Ne.symm same]

theorem holds_unlock {mutex : Mutex} {thread : Nat} (held : 0 < mutex.holds thread) (other : Nat) :
    (mutex.unlock thread).holds other = mutex.holds other - if other = thread then 1 else 0 := by
  cases mutex with
  | unlocked => simp [holds] at held
  | locked owner again =>
      rw [holds] at held
      split_ifs at held with own
      · subst own
        rw [unlock, if_pos rfl]
        by_cases same : other = owner
        · rw [if_pos same]
          by_cases last : again = 0
          · simp [holds, last, same]
          · rw [if_neg last, holds, holds, if_pos same.symm, if_pos same.symm]
            omega
        · rw [if_neg same]
          split_ifs <;> simp [holds, Ne.symm same]
      · exact absurd held (lt_irrefl 0)

/-- Only one thread can have it locked. -/
theorem owner_unique {mutex : Mutex} {thread other : Nat} (held : 0 < mutex.holds thread)
    (also : 0 < mutex.holds other) : thread = other := by
  cases mutex with
  | unlocked => simp [holds] at held
  | locked owner again =>
      rw [holds] at held also
      split_ifs at held also with own own'
      · exact own.symm.trans own'
      · exact absurd also (lt_irrefl 0)
      · exact absurd held (lt_irrefl 0)
      · exact absurd held (lt_irrefl 0)

theorem locks_of_free {mutex : Mutex} (free : ∀ other, mutex.holds other = 0) (thread : Nat) :
    ∃ next, mutex.lock thread = some next := by
  cases mutex with
  | unlocked => exact ⟨_, rfl⟩
  | locked owner again =>
      have := free owner
      simp [holds] at this

theorem locks_again {mutex : Mutex} {thread : Nat} (held : 0 < mutex.holds thread) :
    ∃ next, mutex.lock thread = some next := by
  cases mutex with
  | unlocked => exact ⟨_, rfl⟩
  | locked owner again =>
      rw [holds] at held
      split_ifs at held with own
      · exact ⟨_, if_pos own⟩
      · exact absurd held (lt_irrefl 0)

theorem waits_for_other {mutex : Mutex} {owner thread : Nat} (held : 0 < mutex.holds owner)
    (other : thread ≠ owner) : mutex.lock thread = none := by
  cases locks : mutex.lock thread with
  | none => rfl
  | some next =>
      cases mutex with
      | unlocked => simp [holds] at held
      | locked real again =>
          rw [lock] at locks
          split_ifs at locks with own
          rw [holds] at held
          split_ifs at held with same
          · exact absurd (own.symm.trans same) other
          · exact absurd held (lt_irrefl 0)

end Mutex

/-- Where a thread is in `ReadLock`, and in `WriteLock`. -/
inductive Place where
  | outside
  | entering
  | counting
  | leaving
  | claiming
  | spinning
  deriving DecidableEq

/-- How often a thread that is there has locked `_enterLock` in its present call. -/
def Place.locks : Place → Nat
  | .counting => 1
  | .leaving => 1
  | .spinning => 1
  | _ => 0

/-- Behind `AtomicInc`, with the call not yet returned. -/
def Place.counted : Place → Nat
  | .leaving => 1
  | _ => 0

/-- A thread with the numbers of its guards. -/
structure GuardedThread where
  place : Place
  reads : Nat
  writes : Nat
  deriving DecidableEq

/-- What it has added to `_reads`. -/
def GuardedThread.counts (thread : GuardedThread) : Nat := thread.reads + thread.place.counted

def GuardedThread.locks (thread : GuardedThread) : Nat := thread.writes + thread.place.locks

/-- The steps that are left until a thread is outside. -/
def Place.work : Place → Nat
  | .outside => 0
  | .entering => 4
  | .counting => 3
  | .leaving => 2
  | .claiming => 3
  | .spinning => 2

def GuardedThread.work (thread : GuardedThread) : Nat :=
  thread.reads + thread.writes + thread.place.work

structure ReadWriteLock where
  _reads : Int
  _enterLock : Mutex
  threads : List GuardedThread

namespace ReadWriteLock

def new (threads : Nat) : ReadWriteLock :=
  ⟨0, .unlocked, List.replicate threads ⟨.outside, 0, 0⟩⟩

inductive Label where
  | readLock (i : Nat)
  | writeLock (i : Nat)
  | readUnlock (i : Nat)
  | writeUnlock (i : Nat)
  | advance (i : Nat)

/-- The next step of a thread in a call. -/
def advance (lock : ReadWriteLock) (i : Nat) (thread : GuardedThread) : ReadWriteLock :=
  match thread.place with
  | .outside => lock
  | .entering =>
      match lock._enterLock.lock i with
      | none => lock
      | some _enterLock =>
          ⟨lock._reads, _enterLock, lock.threads.set i { thread with place := .counting }⟩
  | .counting =>
      ⟨lock._reads + 1, lock._enterLock, lock.threads.set i { thread with place := .leaving }⟩
  | .leaving =>
      ⟨lock._reads, lock._enterLock.unlock i,
        lock.threads.set i ⟨.outside, thread.reads + 1, thread.writes⟩⟩
  | .claiming =>
      match lock._enterLock.lock i with
      | none => lock
      | some _enterLock =>
          ⟨lock._reads, _enterLock, lock.threads.set i { thread with place := .spinning }⟩
  | .spinning =>
      -- `Sleep(0)` and round again
      if lock._reads > 0 then lock
      else
        ⟨lock._reads, lock._enterLock,
          lock.threads.set i ⟨.outside, thread.reads, thread.writes + 1⟩⟩

def call (lock : ReadWriteLock) (i : Nat) (act : GuardedThread → ReadWriteLock) : ReadWriteLock :=
  match lock.threads[i]? with
  | none => lock
  | some thread => act thread

/-- What is not possible where a thread is changes nothing. -/
def step (lock : ReadWriteLock) : Label → ReadWriteLock
  | .readLock i => lock.call i fun thread =>
      if thread.place = .outside then
        { lock with threads := lock.threads.set i { thread with place := .entering } }
      else lock
  | .writeLock i => lock.call i fun thread =>
      if thread.place = .outside then
        { lock with threads := lock.threads.set i { thread with place := .claiming } }
      else lock
  | .readUnlock i => lock.call i fun thread =>
      if thread.place = .outside ∧ thread.reads > 0 then
        ⟨lock._reads - 1, lock._enterLock,
          lock.threads.set i { thread with reads := thread.reads - 1 }⟩
      else lock
  | .writeUnlock i => lock.call i fun thread =>
      if thread.place = .outside ∧ thread.writes > 0 then
        ⟨lock._reads, lock._enterLock.unlock i,
          lock.threads.set i { thread with writes := thread.writes - 1 }⟩
      else lock
  | .advance i => lock.call i (lock.advance i)

/-- A thread with a write guard keeps the others from having guards, and `_reads` counts the read
guards, those of calls that are about to return included. -/
structure Excludes (lock : ReadWriteLock) : Prop where
  counted : lock._reads = ((lock.threads.map GuardedThread.counts).sum : Nat)
  alone : ∀ (i j : Nat) (writer other : GuardedThread), lock.threads[i]? = some writer →
    lock.threads[j]? = some other → 0 < writer.writes → j ≠ i → other.reads = 0 ∧ other.writes = 0

structure Invariant (lock : ReadWriteLock) : Prop where
  counted : lock._reads = ((lock.threads.map GuardedThread.counts).sum : Nat)
  locked : ∀ i, lock._enterLock.holds i = (lock.threads[i]?.map GuardedThread.locks).getD 0
  apart : ∀ (i j : Nat) (writer other : GuardedThread), lock.threads[i]? = some writer →
    lock.threads[j]? = some other → 0 < writer.writes → j ≠ i → other.reads = 0

variable {lock : ReadWriteLock} {i j : Nat} {thread other : GuardedThread}

theorem call_some (here : lock.threads[i]? = some thread)
    (act : GuardedThread → ReadWriteLock) : lock.call i act = act thread := by
  rw [call, here]

theorem call_rule (property : ReadWriteLock → Prop) {act : GuardedThread → ReadWriteLock}
    (nobody : property lock)
    (acts : ∀ thread, lock.threads[i]? = some thread → property (act thread)) :
    property (lock.call i act) := by
  rw [call]
  cases here : lock.threads[i]? with
  | none => exact nobody
  | some thread => exact acts thread here

theorem invariant_new (threads : Nat) : (new threads).Invariant := by
  have idle : ∀ (i : Nat) (thread : GuardedThread), (new threads).threads[i]? = some thread →
      thread = ⟨.outside, 0, 0⟩ := fun i thread here =>
    List.eq_of_mem_replicate (List.mem_of_getElem? here)
  refine ⟨?_, fun i => ?_, fun i j writer other _ there _ _ => ?_⟩
  · rw [Slots.total_eq_zero GuardedThread.counts fun i thread here => by rw [idle i thread here]; rfl]
    rfl
  · cases here : (new threads).threads[i]? with
    | none => rfl
    | some thread =>
        rw [idle i thread here]
        rfl
  · rw [idle j other there]

namespace Invariant

theorem holds_eq (invariant : lock.Invariant) (here : lock.threads[i]? = some thread) :
    lock._enterLock.holds i = thread.locks := by
  rw [invariant.locked, here]
  rfl

/-- At most one thread is behind `_enterLock`. -/
theorem one_owner (invariant : lock.Invariant) (here : lock.threads[i]? = some thread)
    (there : lock.threads[j]? = some other) (owns : 0 < thread.locks) (apart : j ≠ i) :
    other.locks = 0 := by
  by_contra also
  rw [← invariant.holds_eq here] at owns
  rw [← invariant.holds_eq there] at also
  exact apart (Mutex.owner_unique (Nat.pos_of_ne_zero also) owns)

theorem excludes (invariant : lock.Invariant) : lock.Excludes := by
  refine ⟨invariant.counted, fun i j writer other here there writes apart => ?_⟩
  have owns : 0 < writer.locks := Nat.add_pos_left writes _
  have none_locked := invariant.one_owner here there owns apart
  exact ⟨invariant.apart i j writer other here there writes apart,
    (Nat.add_eq_zero_iff.mp none_locked).1⟩

/-- One thread takes a step. -/
theorem changed (invariant : lock.Invariant) (here : lock.threads[i]? = some thread)
    (new : GuardedThread) (_reads : Int) (_enterLock : Mutex)
    (count : _reads + thread.counts = lock._reads + new.counts)
    (locks : ∀ j, _enterLock.holds j = if j = i then new.locks else lock._enterLock.holds j)
    (writes : 0 < new.writes → 0 < thread.writes ∨
      ∀ j other, lock.threads[j]? = some other → j ≠ i → other.reads = 0)
    (reads : 0 < new.reads → 0 < thread.reads ∨
      ∀ j other, lock.threads[j]? = some other → j ≠ i → other.writes = 0) :
    Invariant ⟨_reads, _enterLock, lock.threads.set i new⟩ := by
  refine ⟨?_, fun j => ?_, fun j k writer other at_j at_k writes_j apart => ?_⟩
  · have total := Slots.total_changed GuardedThread.counts here new
    have counted := invariant.counted
    have sum : _reads = (((lock.threads.set i new).map GuardedThread.counts).sum : Nat) := by omega
    exact sum
  · rw [locks, Slots.getElem?_changed here]
    split_ifs
    · rfl
    · exact invariant.locked j
  · rw [Slots.getElem?_changed here] at at_j at_k
    split_ifs at at_j at_k with j_here k_here k_here
    · exact absurd (k_here.trans j_here.symm) apart
    · obtain rfl := Option.some.inj at_j
      rcases writes writes_j with before | nobody
      · exact invariant.apart i k thread other here at_k before k_here
      · exact nobody k other at_k k_here
    · obtain rfl := Option.some.inj at_k
      by_contra reads_k
      rcases reads (Nat.pos_of_ne_zero reads_k) with before | nobody
      · have apart_i : i ≠ j := fun same => j_here same.symm
        exact absurd (invariant.apart j i writer thread at_j here writes_j apart_i) before.ne'
      · exact absurd (nobody j writer at_j j_here) writes_j.ne'
    · exact invariant.apart j k writer other at_j at_k writes_j apart

theorem locked_by (invariant : lock.Invariant) (here : lock.threads[i]? = some thread)
    {_enterLock : Mutex} (locks : lock._enterLock.lock i = some _enterLock) (new : GuardedThread)
    (more : new.locks = thread.locks + 1) (j : Nat) :
    _enterLock.holds j = if j = i then new.locks else lock._enterLock.holds j := by
  rw [Mutex.holds_lock locks]
  by_cases same : j = i
  · rw [if_pos same, if_pos same, same, invariant.holds_eq here, more]
  · rw [if_neg same, if_neg same, Nat.add_zero]

theorem unlocked_by (invariant : lock.Invariant) (here : lock.threads[i]? = some thread)
    (new : GuardedThread) (fewer : new.locks + 1 = thread.locks) (j : Nat) :
    (lock._enterLock.unlock i).holds j = if j = i then new.locks else lock._enterLock.holds j := by
  have holds := invariant.holds_eq here
  rw [Mutex.holds_unlock (by omega)]
  by_cases same : j = i
  · rw [if_pos same, if_pos same, same, holds]
    omega
  · rw [if_neg same, if_neg same, Nat.sub_zero]

theorem kept_by (invariant : lock.Invariant) (here : lock.threads[i]? = some thread)
    (new : GuardedThread) (same_locks : new.locks = thread.locks) (j : Nat) :
    lock._enterLock.holds j = if j = i then new.locks else lock._enterLock.holds j := by
  split_ifs with same
  · rw [same, invariant.holds_eq here, same_locks]
  · rfl

theorem advance (invariant : lock.Invariant) (here : lock.threads[i]? = some thread) :
    (lock.advance i thread).Invariant := by
  obtain ⟨place, reads, writes⟩ := thread
  cases place with
  | outside => exact invariant
  | entering =>
      rw [ReadWriteLock.advance]
      cases locks : lock._enterLock.lock i with
      | none => exact invariant
      | some _enterLock =>
          exact invariant.changed here _ _ _ rfl (invariant.locked_by here locks _ rfl) .inl .inl
  | counting =>
      refine invariant.changed here _ _ _ ?_ (invariant.kept_by here _ rfl) .inl .inl
      simp only [GuardedThread.counts, Place.counted]
      omega
  | leaving =>
      refine invariant.changed here _ _ _ ?_ (invariant.unlocked_by here _ rfl) .inl fun _ => ?_
      · simp only [GuardedThread.counts, Place.counted]
      · refine .inr fun j other there apart => ?_
        have none_locked := invariant.one_owner here there (Nat.succ_pos _) apart
        exact (Nat.add_eq_zero_iff.mp none_locked).1
  | claiming =>
      rw [ReadWriteLock.advance]
      cases locks : lock._enterLock.lock i with
      | none => exact invariant
      | some _enterLock =>
          exact invariant.changed here _ _ _ rfl (invariant.locked_by here locks _ rfl) .inl .inl
  | spinning =>
      rw [ReadWriteLock.advance]
      split_ifs with busy
      · exact invariant
      · refine invariant.changed here _ _ _ rfl (invariant.kept_by here _ rfl) (fun _ => ?_) .inl
        -- nobody is counted
        refine .inr fun j other there _ => ?_
        have counted := invariant.counted
        have within := Slots.le_total GuardedThread.counts there
        have parts : other.reads ≤ other.counts := Nat.le_add_right _ _
        omega

theorem step (invariant : lock.Invariant) (label : Label) : (lock.step label).Invariant := by
  cases label with
  | readLock i =>
      refine call_rule Invariant invariant fun thread here => ?_
      obtain ⟨place, reads, writes⟩ := thread
      split_ifs with outside
      · subst outside
        exact invariant.changed here _ _ _ rfl (invariant.kept_by here _ rfl) .inl .inl
      · exact invariant
  | writeLock i =>
      refine call_rule Invariant invariant fun thread here => ?_
      obtain ⟨place, reads, writes⟩ := thread
      split_ifs with outside
      · subst outside
        exact invariant.changed here _ _ _ rfl (invariant.kept_by here _ rfl) .inl .inl
      · exact invariant
  | readUnlock i =>
      refine call_rule Invariant invariant fun thread here => ?_
      split_ifs with guarded
      · refine invariant.changed here _ _ _ ?_ (invariant.kept_by here _ rfl) .inl
          fun _ => .inl guarded.2
        simp only [GuardedThread.counts]
        omega
      · exact invariant
  | writeUnlock i =>
      refine call_rule Invariant invariant fun thread here => ?_
      split_ifs with guarded
      · refine invariant.changed here _ _ _ rfl (invariant.unlocked_by here _ ?_)
          (fun _ => .inl guarded.2) .inl
        simp only [GuardedThread.locks]
        omega
      · exact invariant
  | advance i => exact call_rule Invariant invariant fun thread here => invariant.advance here

theorem run (threads : Nat) (labels : List Label) :
    (Run.final ReadWriteLock.step (new threads) labels).Invariant :=
  Run.final_along ReadWriteLock.step (fun _ _ => True) Invariant
    (fun _ label invariant _ => invariant.step label) _ labels (invariant_new threads)
    (Run.meets_true _ _ _)

end Invariant

theorem readWriteLock_excludes (threads : Nat) (labels : List Label) :
    (Run.final step (new threads) labels).Excludes :=
  (Invariant.run threads labels).excludes

/-! Deadlocks. -/

def Idle (lock : ReadWriteLock) : Prop := ∀ thread ∈ lock.threads, thread = ⟨.outside, 0, 0⟩

/-- No thread waits in `WriteLock` with a read guard of its own, or in `ReadLock` with one while
`WriteLock` spins. -/
structure Drainable (lock : ReadWriteLock) : Prop where
  upgrade : ∀ thread ∈ lock.threads, 0 < thread.reads →
    thread.place ≠ .claiming ∧ thread.place ≠ .spinning
  nested : ∀ reader ∈ lock.threads, ∀ writer ∈ lock.threads, 0 < reader.reads →
    reader.place = .entering → writer.place ≠ .spinning

theorem Drainable.changed (drainable : lock.Drainable) (new : GuardedThread) (_reads : Int)
    (_enterLock : Mutex) (outer : new.place ≠ .entering)
    (upgrade : 0 < new.reads → new.place ≠ .claiming ∧ new.place ≠ .spinning)
    (spins : new.place = .spinning → ∀ reader ∈ lock.threads, 0 < reader.reads →
      reader.place ≠ .entering) :
    Drainable ⟨_reads, _enterLock, lock.threads.set i new⟩ := by
  constructor
  · intro thread member
    rcases List.mem_or_eq_of_mem_set member with old | rfl
    · exact drainable.upgrade thread old
    · exact upgrade
  · intro reader reader_member writer writer_member reads entering spinning
    rcases List.mem_or_eq_of_mem_set reader_member with old | rfl
    · rcases List.mem_or_eq_of_mem_set writer_member with old' | rfl
      · exact drainable.nested reader old writer old' reads entering spinning
      · exact spins spinning reader old reads entering
    · exact outer entering

/-- What is left to do gets less. -/
def Drains (lock : ReadWriteLock) : Prop :=
  ∃ label, (lock.step label).Drainable ∧
    ((lock.step label).threads.map GuardedThread.work).sum <
      (lock.threads.map GuardedThread.work).sum

theorem Drainable.moves (drainable : lock.Drainable) (here : lock.threads[i]? = some thread)
    (label : Label) (_reads : Int) (_enterLock : Mutex) (new : GuardedThread)
    (stepped : lock.step label = ⟨_reads, _enterLock, lock.threads.set i new⟩)
    (less : new.work < thread.work) (outer : new.place ≠ .entering)
    (upgrade : 0 < new.reads → new.place ≠ .claiming ∧ new.place ≠ .spinning)
    (spins : new.place = .spinning → ∀ reader ∈ lock.threads, 0 < reader.reads →
      reader.place ≠ .entering) : lock.Drains := by
  refine ⟨label, ?_, ?_⟩
  · rw [stepped]
    exact drainable.changed new _ _ outer upgrade spins
  · have total := Slots.total_changed GuardedThread.work here new
    rw [stepped]
    have fewer : ((lock.threads.set i new).map GuardedThread.work).sum <
        (lock.threads.map GuardedThread.work).sum := by omega
    exact fewer

theorem step_advance (here : lock.threads[i]? = some thread) :
    lock.step (.advance i) = lock.advance i thread := call_some here _

/-- The owner of the mutex can go on. -/
theorem Drainable.owner_drains (drainable : lock.Drainable) (invariant : lock.Invariant)
    (here : lock.threads[i]? = some thread) (owns : 0 < thread.locks)
    (no_reader : ∀ thread ∈ lock.threads, thread.place = .outside → thread.reads = 0) :
    lock.Drains := by
  have member := List.mem_of_getElem? here
  have held : 0 < lock._enterLock.holds i := by rwa [invariant.holds_eq here]
  obtain ⟨again, locks⟩ := Mutex.locks_again held
  obtain ⟨place, reads, writes⟩ := thread
  cases place with
  | outside =>
      have guarded : writes > 0 := owns
      refine drainable.moves here (.writeUnlock i) lock._reads (lock._enterLock.unlock i)
        ⟨.outside, reads, writes - 1⟩ ?_ ?_ ?_ ?_ ?_
      · rw [step, call_some here]
        exact if_pos ⟨rfl, guarded⟩
      · simp only [GuardedThread.work]
        omega
      all_goals simp
  | entering =>
      refine drainable.moves here (.advance i) lock._reads again ⟨.counting, reads, writes⟩
        ?_ ?_ ?_ ?_ ?_
      · rw [step_advance here, ReadWriteLock.advance, locks]
      · simp [GuardedThread.work, Place.work]
      all_goals simp
  | counting =>
      refine drainable.moves here (.advance i) (lock._reads + 1) lock._enterLock
        ⟨.leaving, reads, writes⟩ (step_advance here) ?_ ?_ ?_ ?_
      · simp [GuardedThread.work, Place.work]
      all_goals simp
  | leaving =>
      refine drainable.moves here (.advance i) lock._reads (lock._enterLock.unlock i)
        ⟨.outside, reads + 1, writes⟩ (step_advance here) ?_ ?_ ?_ ?_
      · simp only [GuardedThread.work, Place.work]
        omega
      all_goals simp
  | claiming =>
      have writer : 0 < writes := owns
      have no_reads : reads = 0 := by
        by_contra some_reads
        exact (drainable.upgrade _ member (Nat.pos_of_ne_zero some_reads)).1 rfl
      refine drainable.moves here (.advance i) lock._reads again ⟨.spinning, reads, writes⟩
        ?_ ?_ ?_ ?_ ?_
      · rw [step_advance here, ReadWriteLock.advance, locks]
      · simp [GuardedThread.work, Place.work]
      · simp
      · intro some_reads
        exact absurd no_reads some_reads.ne'
      · intro _ reader reader_member reader_reads
        obtain ⟨j, there⟩ := List.getElem?_of_mem reader_member
        by_cases same : j = i
        · rw [same, here] at there
          obtain rfl := Option.some.inj there
          exact absurd no_reads reader_reads.ne'
        · exact absurd (invariant.apart i j _ reader here there writer same) reader_reads.ne'
  | spinning =>
      -- whoever has a read guard is outside, and there is no such thread
      have nobody : (lock.threads.map GuardedThread.counts).sum = 0 := by
        refine Slots.total_eq_zero _ fun j other there => ?_
        have other_member := List.mem_of_getElem? there
        have counted : other.place.counted = 0 := by
          by_cases same : j = i
          · rw [same, here] at there
            obtain rfl := Option.some.inj there
            rfl
          · have none_locked := invariant.one_owner here there owns same
            cases other_place : other.place <;>
              simp [GuardedThread.locks, Place.locks, Place.counted, other_place] at none_locked ⊢
        have no_reads : other.reads = 0 := by
          by_contra some_reads
          have reads_pos := Nat.pos_of_ne_zero some_reads
          cases other_place : other.place with
          | outside => exact some_reads (no_reader other other_member other_place)
          | entering => exact drainable.nested other other_member _ member reads_pos other_place rfl
          | claiming => exact (drainable.upgrade other other_member reads_pos).1 other_place
          | spinning => exact (drainable.upgrade other other_member reads_pos).2 other_place
          | counting | leaving =>
              by_cases same : j = i
              · rw [same, here] at there
                obtain rfl := Option.some.inj there
                cases other_place
              · have none_locked := invariant.one_owner here there owns same
                simp [GuardedThread.locks, Place.locks, other_place] at none_locked
        rw [GuardedThread.counts, counted, no_reads]
      have free : ¬ lock._reads > 0 := by
        rw [invariant.counted, nobody]
        decide
      refine drainable.moves here (.advance i) lock._reads lock._enterLock
        ⟨.outside, reads, writes + 1⟩ ?_ ?_ ?_ ?_ ?_
      · rw [step_advance here]
        exact if_neg free
      · simp only [GuardedThread.work, Place.work]
        omega
      all_goals simp

theorem Drainable.drains (drainable : lock.Drainable) (invariant : lock.Invariant)
    (busy : ¬ lock.Idle) : lock.Drains := by
  -- whoever can always move goes first: a reader outside, the owner of the mutex, a thread that is
  -- to take it
  by_cases reader : ∃ thread ∈ lock.threads, thread.place = .outside ∧ 0 < thread.reads
  · obtain ⟨thread, member, outside, reads⟩ := reader
    obtain ⟨i, here⟩ := List.getElem?_of_mem member
    refine drainable.moves here (.readUnlock i) (lock._reads - 1) lock._enterLock
      { thread with reads := thread.reads - 1 } ?_ ?_ ?_ ?_ ?_
    · rw [step, call_some here]
      exact if_pos ⟨outside, reads⟩
    · simp only [GuardedThread.work]
      omega
    all_goals simp [outside]
  have no_reader : ∀ thread ∈ lock.threads, thread.place = .outside → thread.reads = 0 := by
    intro thread member outside
    by_contra some_reads
    exact reader ⟨thread, member, outside, Nat.pos_of_ne_zero some_reads⟩
  by_cases owned : ∃ thread ∈ lock.threads, 0 < thread.locks
  · obtain ⟨thread, member, owns⟩ := owned
    obtain ⟨i, here⟩ := List.getElem?_of_mem member
    exact drainable.owner_drains invariant here owns no_reader
  have none_locked : ∀ thread ∈ lock.threads, thread.locks = 0 := by
    intro thread member
    by_contra some_locks
    exact owned ⟨thread, member, Nat.pos_of_ne_zero some_locks⟩
  have free : ∀ i, lock._enterLock.holds i = 0 := by
    intro i
    rw [invariant.locked]
    cases here : lock.threads[i]? with
    | none => rfl
    | some thread => exact none_locked thread (List.mem_of_getElem? here)
  by_cases entering : ∃ thread ∈ lock.threads, thread.place = .entering
  · obtain ⟨thread, member, enters⟩ := entering
    obtain ⟨i, here⟩ := List.getElem?_of_mem member
    obtain ⟨next, locks⟩ := Mutex.locks_of_free free i
    refine drainable.moves here (.advance i) lock._reads next { thread with place := .counting }
      ?_ ?_ ?_ ?_ ?_
    · rw [step_advance here, ReadWriteLock.advance, enters]
      simp only [locks]
    · simp [GuardedThread.work, Place.work, enters]
    all_goals simp
  obtain ⟨thread, member, not_idle⟩ : ∃ thread ∈ lock.threads, thread ≠ ⟨.outside, 0, 0⟩ := by
    by_contra all
    push Not at all
    exact busy all
  obtain ⟨i, here⟩ := List.getElem?_of_mem member
  obtain ⟨next, locks⟩ := Mutex.locks_of_free free i
  have unlocked := none_locked thread member
  obtain ⟨place, reads, writes⟩ := thread
  cases place with
  | outside =>
      have no_reads : reads = 0 := no_reader _ member rfl
      have no_writes : writes = 0 := unlocked
      exact absurd (by rw [no_reads, no_writes]) not_idle
  | entering => exact absurd ⟨_, member, rfl⟩ entering
  | claiming =>
      refine drainable.moves here (.advance i) lock._reads next ⟨.spinning, reads, writes⟩
        ?_ ?_ ?_ ?_ ?_
      · rw [step_advance here, ReadWriteLock.advance, locks]
      · simp [GuardedThread.work, Place.work]
      · simp
      · intro some_reads
        exact absurd rfl (drainable.upgrade _ member some_reads).1
      · intro _ reader reader_member _ enters
        exact entering ⟨reader, reader_member, enters⟩
  | counting | leaving | spinning => simp [GuardedThread.locks, Place.locks] at unlocked

theorem Drainable.idles (count : Nat) (lock : ReadWriteLock) (invariant : lock.Invariant)
    (drainable : lock.Drainable) (few : (lock.threads.map GuardedThread.work).sum ≤ count) :
    ∃ more, (Run.final step lock more).Idle := by
  induction count generalizing lock with
  | zero =>
      by_cases idle : lock.Idle
      · exact ⟨[], idle⟩
      · obtain ⟨label, -, less⟩ := drainable.drains invariant idle
        omega
  | succ count ih =>
      by_cases idle : lock.Idle
      · exact ⟨[], idle⟩
      · obtain ⟨label, next, less⟩ := drainable.drains invariant idle
        obtain ⟨more, done⟩ := ih _ (invariant.step label) next (by omega)
        exact ⟨label :: more, done⟩

def Label.index : Label → Nat
  | .readLock i => i
  | .writeLock i => i
  | .readUnlock i => i
  | .writeUnlock i => i
  | .advance i => i

/-- The other threads stay as they are. -/
theorem step_other (label : Label) (apart : label.index ≠ j) :
    (lock.step label).threads[j]? = lock.threads[j]? := by
  cases label with
  | readLock i | writeLock i | readUnlock i | writeUnlock i =>
      refine call_rule (fun next => next.threads[j]? = lock.threads[j]?) rfl fun _ _ => ?_
      split_ifs
      · exact List.getElem?_set_ne apart
      · rfl
  | advance i =>
      refine call_rule (fun next => next.threads[j]? = lock.threads[j]?) rfl fun thread _ => ?_
      obtain ⟨place, reads, writes⟩ := thread
      cases place with
      | outside => rfl
      | counting | leaving => exact List.getElem?_set_ne apart
      | entering | claiming =>
          rw [ReadWriteLock.advance]
          cases lock._enterLock.lock i with
          | none => rfl
          | some next => exact List.getElem?_set_ne apart
      | spinning =>
          rw [ReadWriteLock.advance]
          split_ifs
          · rfl
          · exact List.getElem?_set_ne apart

/-- Whoever is in a call can only go on with it. -/
theorem step_inside (here : lock.threads[i]? = some thread) (inside : thread.place ≠ .outside)
    (label : Label) : (lock.step label).threads[i]? = some thread ∨ label = .advance i := by
  by_cases own : label.index = i
  · subst own
    cases label with
    | advance i => exact .inr rfl
    | readLock i | writeLock i =>
        rw [Label.index] at here ⊢
        rw [step, call_some here, if_neg inside]
        exact .inl here
    | readUnlock i | writeUnlock i =>
        rw [Label.index] at here ⊢
        rw [step, call_some here, if_neg fun both => inside both.1]
        exact .inl here
  · exact .inl ((step_other label own).trans here)

theorem Invariant.busy (invariant : lock.Invariant) (here : lock.threads[i]? = some thread)
    (reads : 0 < thread.reads) : lock._reads > 0 := by
  have within := Slots.le_total GuardedThread.counts here
  have parts : thread.reads ≤ thread.counts := Nat.le_add_right _ _
  have counted := invariant.counted
  omega

theorem spinning_stays (here : lock.threads[i]? = some thread) (spins : thread.place = .spinning)
    (busy : lock._reads > 0) (label : Label) : (lock.step label).threads[i]? = some thread := by
  have inside : thread.place ≠ .outside := by simp [spins]
  rcases step_inside here inside label with same | rfl
  · exact same
  · have stepped : lock.advance i thread = lock := by
      rw [ReadWriteLock.advance, spins]
      exact if_pos busy
    rw [step_advance here, stepped]
    exact here

theorem entering_stays (here : lock.threads[i]? = some thread) (enters : thread.place = .entering)
    (waits : lock._enterLock.lock i = none) (label : Label) :
    (lock.step label).threads[i]? = some thread := by
  have inside : thread.place ≠ .outside := by simp [enters]
  rcases step_inside here inside label with same | rfl
  · exact same
  · have stepped : lock.advance i thread = lock := by
      rw [ReadWriteLock.advance, enters]
      simp only [waits]
    rw [step_advance here, stepped]
    exact here

inductive Stuck (lock : ReadWriteLock) : Prop
  | upgrading (i : Nat) (thread : GuardedThread) (here : lock.threads[i]? = some thread)
      (reads : 0 < thread.reads) (waits : thread.place = .claiming ∨ thread.place = .spinning)
  | nested (i j : Nat) (writer reader : GuardedThread) (here : lock.threads[i]? = some writer)
      (there : lock.threads[j]? = some reader) (spins : writer.place = .spinning)
      (reads : 0 < reader.reads) (enters : reader.place = .entering)

theorem Stuck.step (stuck : lock.Stuck) (invariant : lock.Invariant) (label : Label) :
    (lock.step label).Stuck := by
  cases stuck with
  | upgrading i thread here reads waits =>
      rcases waits with claims | spins
      · have inside : thread.place ≠ .outside := by simp [claims]
        rcases step_inside here inside label with same | rfl
        · exact .upgrading i thread same reads (.inl claims)
        · cases locks : lock._enterLock.lock i with
          | none =>
              have stepped : lock.advance i thread = lock := by
                rw [ReadWriteLock.advance, claims]
                simp only [locks]
              rw [step_advance here, stepped]
              exact .upgrading i thread here reads (.inl claims)
          | some next =>
              have stepped : lock.advance i thread =
                  ⟨lock._reads, next, lock.threads.set i { thread with place := .spinning }⟩ := by
                rw [ReadWriteLock.advance, claims]
                simp only [locks]
              rw [step_advance here, stepped]
              refine .upgrading i { thread with place := .spinning } ?_ reads (.inr rfl)
              exact (Slots.getElem?_changed here _ i).trans (if_pos rfl)
      · exact .upgrading i thread (spinning_stays here spins (invariant.busy here reads) label) reads
          (.inr spins)
  | nested i j writer reader here there spins reads enters =>
      have apart : j ≠ i := by
        rintro rfl
        obtain rfl := Option.some.inj (here.symm.trans there)
        simp [spins] at enters
      have owns : 0 < lock._enterLock.holds i := by
        rw [invariant.holds_eq here, GuardedThread.locks, spins]
        exact Nat.succ_pos _
      exact .nested i j writer reader (spinning_stays here spins (invariant.busy there reads) label)
        (entering_stays there enters (Mutex.waits_for_other owns apart) label) spins reads enters

theorem Stuck.run (stuck : lock.Stuck) (invariant : lock.Invariant) (labels : List Label) :
    (Run.final ReadWriteLock.step lock labels).Stuck := by
  induction labels generalizing lock with
  | nil => exact stuck
  | cons label rest ih => exact ih (stuck.step invariant label) (invariant.step label)

theorem Stuck.not_idle (stuck : lock.Stuck) : ¬ lock.Idle := by
  intro idle
  cases stuck with
  | upgrading i thread here reads _ =>
      rw [idle thread (List.mem_of_getElem? here)] at reads
      exact absurd reads (lt_irrefl 0)
  | nested _ j _ reader _ there _ reads _ =>
      rw [idle reader (List.mem_of_getElem? there)] at reads
      exact absurd reads (lt_irrefl 0)

theorem drainable_of_not_stuck (moves : ¬ lock.Stuck) : lock.Drainable := by
  constructor
  · intro thread member reads
    obtain ⟨i, here⟩ := List.getElem?_of_mem member
    exact ⟨fun claims => moves (.upgrading i thread here reads (.inl claims)),
      fun spins => moves (.upgrading i thread here reads (.inr spins))⟩
  · intro reader reader_member writer writer_member reads enters spins
    obtain ⟨i, here⟩ := List.getElem?_of_mem writer_member
    obtain ⟨j, there⟩ := List.getElem?_of_mem reader_member
    exact moves (.nested i j writer reader here there spins reads enters)

/-- The threads can still come to rest, whatever they did before, as long as none of these waits
has begun; a thread in one of them never returns. -/
theorem readWriteLock_drains_iff (threads : Nat) (labels : List Label) :
    (∃ more, (Run.final step (new threads) (labels ++ more)).Idle) ↔
      (Run.final step (new threads) labels).Drainable := by
  have invariant := Invariant.run threads labels
  simp only [Run.final_append]
  constructor
  · rintro ⟨more, idle⟩
    exact drainable_of_not_stuck fun stuck => (stuck.run invariant more).not_idle idle
  · intro drainable
    exact Drainable.idles _ _ invariant drainable le_rfl

end ReadWriteLock

end EChainLib.Utils
