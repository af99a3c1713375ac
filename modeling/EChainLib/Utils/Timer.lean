import EChainLib.Support.Run
import EChainLib.Support.DueQueue

/-! `Timer` of `timer.cpp`. A callback is a call from the loop of `OnTimer`, and may add and
delete timers itself; so the loop is taken one element at a time, with any calls in between. -/

namespace EChainLib.Utils

open EChainLib.DueQueue (Ordered enqueue split)
open EChainLib.Log (Always always_nil always_append)

structure TimerElement (Func : Type) where
  func_ : Func
  id_ : Int
  data_ : Int
  expire_time_ : Int
  deriving DecidableEq

structure Timer (Func : Type) where
  /-- A `multimap`, by the times. -/
  time_ele_ : List (Int × TimerElement Func)
  exeute_list_ : List (TimerElement Func)
  global_element_id_ : Int
  check_interval_ : Int
  last_check_time_ : Int

/-- A sum of `int64_t`s. -/
def int64 (value : Int) : Int := value.bmod (2 ^ 64)

theorem int64_of_inside {value : Int} (lower : -2 ^ 63 ≤ value) (upper : value < 2 ^ 63) :
    int64 value = value := by
  unfold int64
  exact Int.bmod_eq_of_le (by omega) (by omega)

variable {Func : Type}

namespace Timer

def initial : Timer Func where
  time_ele_ := []
  exeute_list_ := []
  global_element_id_ := 1
  check_interval_ := 100 * 1000
  last_check_time_ := 0

/-- `AddTimer` at the time `now`: the element, whose id is returned. -/
def addTimer (timer : Timer Func) (now micro_time data : Int) (func : Func) :
    TimerElement Func × Timer Func :=
  let expire_time := int64 (now + micro_time)
  let element : TimerElement Func := ⟨func, timer.global_element_id_, data, expire_time⟩
  (element, { timer with
    time_ele_ := enqueue (expire_time, element) timer.time_ele_
    global_element_id_ := int64 (timer.global_element_id_ + 1) })

def delTimer (timer : Timer Func) (index : Int) : Bool × Timer Func :=
  if timer.time_ele_.any fun entry => entry.2.id_ == index then
    (true, { timer with time_ele_ := timer.time_ele_.eraseP fun entry => entry.2.id_ == index })
  else (false, timer)

def checkExpire (timer : Timer Func) (cur_time : Int) : Timer Func :=
  { timer with
    time_ele_ := (split cur_time timer.time_ele_).2
    exeute_list_ := timer.exeute_list_ ++ (split cur_time timer.time_ele_).1.map Prod.snd }

/-- The interval gate of `OnTimer`. -/
def passes (timer : Timer Func) (current_time : Int) : Bool :=
  current_time > int64 (timer.last_check_time_ + timer.check_interval_)

/-- The end of `OnTimer`, behind the loop. -/
def finish (timer : Timer Func) (current_time : Int) : Timer Func :=
  { timer with exeute_list_ := [], last_check_time_ := current_time }

end Timer

/-! Runs. -/

/-- What is seen from outside. The second argument of `added` is the time at which the timer is
to run, as a number of any size. -/
inductive Event (Func : Type) where
  | added (element : TimerElement Func) (expiry : Int)
  | deleted (index : Int)
  | missed (index : Int)
  | skipped (current_time : Int)
  | began (current_time : Int)
  | fired (element : TimerElement Func)
  | ended (current_time : Int)

inductive Call (Func : Type) where
  | addTimer (now micro_time data : Int) (func : Func)
  | delTimer (index : Int)
  | onTimer (current_time : Int)
  /-- The loop of a running `OnTimer` comes to the next element, or to its end. -/
  | proceed

/-- `executing` is the time of a running `OnTimer`, with the elements from `iter` on. -/
structure System (Func : Type) where
  timer : Timer Func
  executing : Option (Int × List (TimerElement Func))
  log : List (Event Func)

namespace System

def initial : System Func := ⟨.initial, none, []⟩

/-- A call that cannot come now changes nothing: `OnTimer` does not run in itself. -/
def step (s : System Func) : Call Func → System Func
  | .addTimer now micro_time data func =>
      let added := s.timer.addTimer now micro_time data func
      { s with timer := added.2, log := s.log ++ [.added added.1 (now + micro_time)] }
  | .delTimer index =>
      let deleted := s.timer.delTimer index
      { s with
        timer := deleted.2
        log := s.log ++ [if deleted.1 then .deleted index else .missed index] }
  | .onTimer current_time =>
      match s.executing with
      | some _ => s
      | none =>
          if s.timer.passes current_time then
            let timer := s.timer.checkExpire current_time
            -- what callbacks add waits in the `multimap`: the list is whole from here on
            ⟨timer, some (current_time, timer.exeute_list_), s.log ++ [.began current_time]⟩
          else { s with log := s.log ++ [.skipped current_time] }
  | .proceed =>
      match s.executing with
      | none => s
      | some (current_time, element :: rest) =>
          { s with executing := some (current_time, rest), log := s.log ++ [.fired element] }
      | some (current_time, []) =>
          ⟨s.timer.finish current_time, none, s.log ++ [.ended current_time]⟩

end System

/-! What is asked of a log. -/

def addedIds (log : List (Event Func)) : List Int :=
  log.filterMap fun
    | .added element _ => some element.id_
    | _ => none

def firedIds (log : List (Event Func)) : List Int :=
  log.filterMap fun
    | .fired element => some element.id_
    | _ => none

def deletedIds (log : List (Event Func)) : List Int :=
  log.filterMap fun
    | .deleted index => some index
    | _ => none

theorem addedIds_same (log : List (Event Func)) {event : Event Func} (none : addedIds [event] = []) :
    addedIds (log ++ [event]) = addedIds log := by
  rw [addedIds, List.filterMap_append, ← addedIds, ← addedIds, none, List.append_nil]

theorem firedIds_same (log : List (Event Func)) {event : Event Func} (none : firedIds [event] = []) :
    firedIds (log ++ [event]) = firedIds log := by
  rw [firedIds, List.filterMap_append, ← firedIds, ← firedIds, none, List.append_nil]

theorem deletedIds_same (log : List (Event Func)) {event : Event Func}
    (none : deletedIds [event] = []) : deletedIds (log ++ [event]) = deletedIds log := by
  rw [deletedIds, List.filterMap_append, ← deletedIds, ← deletedIds, none, List.append_nil]

/-- The log ends in an `OnTimer` that is not over. -/
structure InTick (log : List (Event Func)) (current_time : Int) (past since : List (Event Func)) :
    Prop where
  whole : log = past ++ .began current_time :: since
  running : ∀ other, .ended other ∉ since

/-- A callback runs as its timer was added, in time, in order, once, and not after `DelTimer`
returned true. -/
def RightFiring (log : List (Event Func)) (element : TimerElement Func) : Prop :=
  ∃ current_time past since expiry, InTick log current_time past since ∧
    .added element expiry ∈ log ∧ expiry ≤ current_time ∧
    (∀ earlier other, .fired earlier ∈ since → .added earlier other ∈ log → other ≤ expiry) ∧
    element.id_ ∉ firedIds log ∧ element.id_ ∉ deletedIds log

/-- Every timer added before the `OnTimer` with its time come has run or is deleted. -/
def RightEnd (log : List (Event Func)) (current_time : Int) : Prop :=
  ∃ past since, InTick log current_time past since ∧
    ∀ element expiry, .added element expiry ∈ past → expiry ≤ current_time →
      element.id_ ∈ firedIds log ∨ element.id_ ∈ deletedIds log

def Right (log : List (Event Func)) : Event Func → Prop
  | .added element _ => element.id_ ∉ addedIds log
  | .fired element => RightFiring log element
  | .ended current_time => RightEnd log current_time
  | _ => True

structure FiresAsScheduled (log : List (Event Func)) : Prop where
  ids_new : (addedIds log).Nodup
  fired_once : (firedIds log).Nodup
  right : Always Right log

/-- No `int64_t` overflows: the time is one, and so is the next id. -/
def Fits (s : System Func) : Call Func → Prop
  | .addTimer now micro_time _ _ => -2 ^ 63 ≤ now + micro_time ∧ now + micro_time < 2 ^ 63 ∧
      s.timer.global_element_id_ < 2 ^ 63 - 1
  | _ => True

/-! Where a timer is: waiting in the `multimap`, queued in the list, or out in the log. -/

namespace System

def waiting (s : System Func) : List Int := s.timer.time_ele_.map fun entry => entry.2.id_

def queue (s : System Func) : List (TimerElement Func) :=
  match s.executing with
  | none => []
  | some (_, rest) => rest

def queued (s : System Func) : List Int := s.queue.map TimerElement.id_

end System

/-- The running `OnTimer` has before it what was due, in order, and behind it nothing later than
that; what it has not taken was not due. -/
structure Ticking (s : System Func) (current_time : Int) (rest : List (TimerElement Func))
    (past since : List (Event Func)) : Prop where
  inside : InTick s.log current_time past since
  due : ∀ element ∈ rest, element.expire_time_ ≤ current_time
  sorted : rest.Pairwise fun earlier later => earlier.expire_time_ ≤ later.expire_time_
  reached : ∀ earlier, .fired earlier ∈ since → ∀ element ∈ rest,
    earlier.expire_time_ ≤ element.expire_time_
  taken : ∀ element expiry, .added element expiry ∈ past → expiry ≤ current_time →
    element.id_ ∉ s.waiting

/-- The invariant. Every timer that was added is in exactly one place. -/
structure Good (s : System Func) : Prop where
  right : Always Right s.log
  positive : 1 ≤ s.timer.global_element_id_
  below : ∀ id ∈ addedIds s.log, id < s.timer.global_element_id_
  once : (addedIds s.log).Nodup
  conserved : (addedIds s.log).Perm
    (s.waiting ++ (s.queued ++ (firedIds s.log ++ deletedIds s.log)))
  stored : ∀ element expiry, .added element expiry ∈ s.log → element.expire_time_ = expiry
  keyed : ∀ entry ∈ s.timer.time_ele_, .added entry.2 entry.1 ∈ s.log
  ordered : Ordered s.timer.time_ele_
  listed : ∀ element ∈ s.queue, .added element element.expire_time_ ∈ s.log
  idle : s.executing = none → s.timer.exeute_list_ = []
  ticking : ∀ current_time rest, s.executing = some (current_time, rest) →
    ∃ past since, Ticking s current_time rest past since

theorem good_initial : Good (System.initial : System Func) where
  right := always_nil Right
  positive := Int.le_refl 1
  below := by simp [System.initial, addedIds]
  once := List.nodup_nil
  conserved := .refl _
  stored := by simp [System.initial]
  keyed := by simp [System.initial, Timer.initial]
  ordered := List.Pairwise.nil
  listed := by simp [System.initial, System.queue]
  idle _ := rfl
  ticking := by simp [System.initial]

theorem mem_addedIds {log : List (Event Func)} {element : TimerElement Func} {expiry : Int}
    (member : .added element expiry ∈ log) : element.id_ ∈ addedIds log :=
  List.mem_filterMap.mpr ⟨_, member, rfl⟩

/-- An id tells which timer was added. -/
theorem added_unique {log : List (Event Func)} (once : (addedIds log).Nodup)
    {element other : TimerElement Func} {expiry expiry' : Int}
    (member : .added element expiry ∈ log) (member' : .added other expiry' ∈ log)
    (same : element.id_ = other.id_) : element = other ∧ expiry = expiry' := by
  induction log with
  | nil => cases member
  | cons event rest ih =>
      have rest_once : (addedIds rest).Nodup := once.sublist (by
        rw [addedIds, addedIds, List.filterMap_cons]
        split
        · exact List.Sublist.refl _
        · exact List.sublist_cons_self _ _)
      rcases List.mem_cons.mp member with rfl | later
      · rcases List.mem_cons.mp member' with shape | later'
        · cases shape
          exact ⟨rfl, rfl⟩
        · have head := (List.nodup_cons.mp once).1
          exact absurd (same ▸ mem_addedIds later') head
      · rcases List.mem_cons.mp member' with rfl | later'
        · have head := (List.nodup_cons.mp once).1
          exact absurd (same ▸ mem_addedIds later) head
        · exact ih rest_once later later'

theorem to_the_queue (due later queued out : List Int) :
    (due ++ later ++ (queued ++ out)).Perm (later ++ (due ++ queued ++ out)) := by
  rw [List.append_assoc due queued, ← List.append_assoc later]
  exact List.perm_append_comm.append_right _

theorem to_the_end (waiting queued fired deleted : List Int) (index : Int) :
    (index :: waiting ++ (queued ++ (fired ++ deleted))).Perm
      (waiting ++ (queued ++ (fired ++ (deleted ++ [index])))) := by
  have last : waiting ++ (queued ++ (fired ++ (deleted ++ [index]))) =
      waiting ++ (queued ++ (fired ++ deleted)) ++ [index] := by
    simp only [List.append_assoc]
  rw [last]
  exact (List.perm_append_singleton index _).symm

/-- A firing goes from the front of the queue to the end of what has fired. -/
theorem to_the_fired (waiting queued fired deleted : List Int) (index : Int) :
    (waiting ++ (index :: queued ++ (fired ++ deleted))).Perm
      (waiting ++ (queued ++ ((fired ++ [index]) ++ deleted))) := by
  refine .append_left waiting ?_
  rw [List.cons_append, List.append_assoc fired, List.singleton_append, ← List.append_assoc queued,
    ← List.append_assoc queued]
  exact List.perm_middle.symm

section Good

variable {s : System Func} (good : Good s)

include good

theorem places_nodup :
    (s.waiting ++ (s.queued ++ (firedIds s.log ++ deletedIds s.log))).Nodup :=
  good.conserved.nodup_iff.mp good.once

/-- A queued timer has neither run nor been deleted. -/
theorem queued_pending {element : TimerElement Func} (member : element ∈ s.queue) :
    element.id_ ∉ firedIds s.log ∧ element.id_ ∉ deletedIds s.log := by
  have later := (List.nodup_append.mp (places_nodup good)).2.1
  have apart := (List.nodup_append.mp later).2.2
  have here : element.id_ ∈ s.queued := List.mem_map_of_mem member
  constructor
  · exact fun fired => apart _ here _ (List.mem_append_left _ fired) rfl
  · exact fun deleted => apart _ here _ (List.mem_append_right _ deleted) rfl

omit good in
theorem mem_past {current_time : Int} {past since : List (Event Func)} {event : Event Func}
    (inside : InTick s.log current_time past since) (member : event ∈ past) : event ∈ s.log := by
  rw [inside.whole]
  exact List.mem_append_left _ member

omit good in
theorem inTick_append {log : List (Event Func)} {current_time : Int} {past since : List (Event Func)}
    (inside : InTick log current_time past since) {event : Event Func}
    (goes_on : ∀ other, event ≠ .ended other) :
    InTick (log ++ [event]) current_time past (since ++ [event]) where
  whole := by rw [inside.whole, List.append_assoc, List.cons_append]
  running other member := by
    rcases List.mem_append.mp member with earlier | last
    · exact inside.running other earlier
    · exact goes_on other (List.mem_singleton.mp last).symm

omit good in
/-- A call from a callback or from elsewhere leaves the loop where it is. -/
theorem ticking_append {current_time : Int} {rest : List (TimerElement Func)}
    {past since : List (Event Func)} (ticking : Ticking s current_time rest past since)
    {timer : Timer Func} {event : Event Func} (goes_on : ∀ other, event ≠ .ended other)
    (no_firing : ∀ element, event ≠ .fired element)
    (waits : ∀ id ∈ timer.time_ele_.map fun entry => entry.2.id_,
      id ∈ s.waiting ∨ id ∉ addedIds s.log) :
    Ticking { s with timer, log := s.log ++ [event] } current_time rest past (since ++ [event]) where
  inside := inTick_append ticking.inside goes_on
  due := ticking.due
  sorted := ticking.sorted
  reached earlier member := by
    rcases List.mem_append.mp member with before | last
    · exact ticking.reached earlier before
    · exact absurd (List.mem_singleton.mp last).symm (no_firing earlier)
  taken element expiry member time_come waits_still := by
    rcases waits element.id_ waits_still with here | new
    · exact ticking.taken element expiry member time_come here
    · exact new (mem_addedIds (mem_past ticking.inside member))

/-- Only an addition says when a timer is to run. -/
theorem stored_append {event : Event Func}
    (not_added : ∀ element expiry, event ≠ .added element expiry) :
    ∀ element expiry, .added element expiry ∈ s.log ++ [event] → element.expire_time_ = expiry := by
  intro element expiry member
  rcases List.mem_append.mp member with earlier | last
  · exact good.stored element expiry earlier
  · exact absurd (List.mem_singleton.mp last).symm (not_added element expiry)

theorem good_addTimer (now micro_time data : Int) (func : Func)
    (fits : Fits s (.addTimer now micro_time data func)) :
    Good (s.step (.addTimer now micro_time data func)) := by
  obtain ⟨lower, upper, next⟩ := fits
  have positive := good.positive
  have expiry : int64 (now + micro_time) = now + micro_time := int64_of_inside lower upper
  have counted : int64 (s.timer.global_element_id_ + 1) = s.timer.global_element_id_ + 1 :=
    int64_of_inside (by omega) (by omega)
  have fresh : s.timer.global_element_id_ ∉ addedIds s.log := fun member =>
    absurd (good.below _ member) (Int.lt_irrefl _)
  generalize shape : (⟨func, s.timer.global_element_id_, data, now + micro_time⟩ :
    TimerElement Func) = element
  have id : element.id_ = s.timer.global_element_id_ := by rw [← shape]
  have time : element.expire_time_ = now + micro_time := by rw [← shape]
  have after : s.step (.addTimer now micro_time data func) = { s with
      timer := { s.timer with
        time_ele_ := enqueue (now + micro_time, element) s.timer.time_ele_
        global_element_id_ := s.timer.global_element_id_ + 1 }
      log := s.log ++ [.added element (now + micro_time)] } := by
    simp only [System.step, Timer.addTimer, expiry, counted, shape]
  -- the log grows by one addition, with the id that the counter had
  have ids : addedIds (s.log ++ [.added element (now + micro_time)]) =
      addedIds s.log ++ [s.timer.global_element_id_] := by
    rw [addedIds, List.filterMap_append, ← id]
    rfl
  have fired : firedIds (s.log ++ [.added element (now + micro_time)]) =
      firedIds s.log := firedIds_same s.log rfl
  have deleted : deletedIds (s.log ++ [.added element (now + micro_time)]) =
      deletedIds s.log := deletedIds_same s.log rfl
  have waiting : ((enqueue (now + micro_time, element) s.timer.time_ele_).map
      fun entry => entry.2.id_).Perm (s.timer.global_element_id_ :: s.waiting) := by
    have moved := (DueQueue.enqueue_perm (now + micro_time, element) s.timer.time_ele_).map
      fun entry => entry.2.id_
    rw [List.map_cons, id] at moved
    exact moved
  rw [after]
  constructor
  · refine (always_append _ _ _).mpr ⟨good.right, ?_⟩
    rw [Right, id]
    exact fresh
  · exact (by omega : 1 ≤ s.timer.global_element_id_ + 1)
  · intro other member
    rw [ids, List.mem_append, List.mem_singleton] at member
    rcases member with earlier | rfl
    · exact (good.below other earlier).trans (Int.lt_succ _)
    · exact Int.lt_succ _
  · rw [ids]
    exact List.nodup_append.mpr ⟨good.once, List.nodup_singleton _, fun other member last same => by
      rintro rfl
      exact fresh (List.mem_singleton.mp same ▸ member)⟩
  -- the new id comes last in the log and is one of those waiting
  · rw [ids, fired, deleted]
    refine (List.perm_append_singleton _ _).trans (.trans (.cons _ good.conserved) ?_)
    rw [← List.cons_append]
    exact waiting.symm.append_right _
  · intro other other_expiry member
    rcases List.mem_append.mp member with earlier | last
    · exact good.stored other other_expiry earlier
    · cases List.mem_singleton.mp last
      exact time
  · intro entry member
    rcases (DueQueue.mem_enqueue _ _ _).mp member with rfl | earlier
    · exact List.mem_append_right _ (List.mem_singleton.mpr rfl)
    · exact List.mem_append_left _ (good.keyed entry earlier)
  · exact DueQueue.enqueue_ordered _ good.ordered
  · exact fun other member => List.mem_append_left _ (good.listed other member)
  · exact good.idle
  · intro current_time rest executing
    obtain ⟨past, since, ticking⟩ := good.ticking current_time rest executing
    refine ⟨past, _, ticking_append ticking nofun nofun fun other member => ?_⟩
    rcases List.mem_cons.mp (waiting.mem_iff.mp member) with rfl | here
    · exact .inr fresh
    · exact .inl here

/-- An event that moves no timer is only written down. -/
theorem good_noted (event : Event Func) (right : Right s.log event)
    (not_added : addedIds [event] = []) (not_fired : firedIds [event] = [])
    (not_deleted : deletedIds [event] = []) (goes_on : ∀ other, event ≠ .ended other) :
    Good { s with log := s.log ++ [event] } := by
  have ids : addedIds (s.log ++ [event]) = addedIds s.log := addedIds_same s.log not_added
  have fired : firedIds (s.log ++ [event]) = firedIds s.log := firedIds_same s.log not_fired
  have deleted : deletedIds (s.log ++ [event]) =
      deletedIds s.log := deletedIds_same s.log not_deleted
  have no_addition : ∀ element expiry, event ≠ .added element expiry := by
    rintro element expiry rfl
    cases not_added
  have no_firing : ∀ element, event ≠ .fired element := by
    rintro element rfl
    cases not_fired
  constructor
  · exact (always_append _ _ _).mpr ⟨good.right, right⟩
  · exact good.positive
  · rw [ids]
    exact good.below
  · rw [ids]
    exact good.once
  · rw [ids, fired, deleted]
    exact good.conserved
  · exact stored_append good no_addition
  · exact fun entry member => List.mem_append_left _ (good.keyed entry member)
  · exact good.ordered
  · exact fun element member => List.mem_append_left _ (good.listed element member)
  · exact good.idle
  · intro current_time rest executing
    obtain ⟨past, since, ticking⟩ := good.ticking current_time rest executing
    exact ⟨past, _, ticking_append ticking goes_on no_firing fun id member => .inl member⟩

theorem good_delTimer (index : Int) : Good (s.step (.delTimer index)) := by
  by_cases found : s.timer.time_ele_.any (fun entry => entry.2.id_ == index) = true
  · generalize hits_is : (fun entry : Int × TimerElement Func => entry.2.id_ == index) = hits
    rw [hits_is] at found
    obtain ⟨entry, member, same⟩ := List.any_eq_true.mp found
    obtain ⟨first, front, back, -, hit, whole, erased⟩ := List.exists_of_eraseP member same
    have id : first.2.id_ = index := by
      rw [← hits_is] at hit
      exact beq_iff_eq.mp hit
    have after : s.step (.delTimer index) = { s with
        timer := { s.timer with time_ele_ := front ++ back }
        log := s.log ++ [.deleted index] } := by
      simp only [System.step, Timer.delTimer, hits_is, found, if_true, erased]
    have ids : addedIds (s.log ++ [.deleted index]) = addedIds s.log := addedIds_same s.log rfl
    have fired : firedIds (s.log ++ [.deleted index]) = firedIds s.log := firedIds_same s.log rfl
    have deleted : deletedIds (s.log ++ [.deleted index]) = deletedIds s.log ++ [index] := by
      simp [deletedIds]
    have waiting : s.waiting.Perm (index :: (front ++ back).map fun entry => entry.2.id_) := by
      have middle : s.waiting = (front ++ first :: back).map fun entry => entry.2.id_ := by
        rw [System.waiting, whole]
      have moved : ((front ++ first :: back).map fun entry => entry.2.id_).Perm
          ((first :: (front ++ back)).map fun entry => entry.2.id_) := List.perm_middle.map _
      rw [List.map_cons, id] at moved
      rw [middle]
      exact moved
    have part : (front ++ back).Sublist s.timer.time_ele_ := by
      rw [whole]
      exact (List.sublist_cons_self first back).append_left front
    rw [after]
    constructor
    · exact (always_append _ _ _).mpr ⟨good.right, trivial⟩
    · exact good.positive
    · rw [ids]
      exact good.below
    · rw [ids]
      exact good.once
    · rw [ids, fired, deleted]
      exact good.conserved.trans ((waiting.append_right _).trans (to_the_end _ _ _ _ index))
    · exact stored_append good nofun
    · exact fun entry member => List.mem_append_left _ (good.keyed entry (part.subset member))
    · exact good.ordered.sublist part
    · exact fun element member => List.mem_append_left _ (good.listed element member)
    · exact good.idle
    · intro current_time rest executing
      obtain ⟨past, since, ticking⟩ := good.ticking current_time rest executing
      refine ⟨past, _, ticking_append ticking nofun nofun fun id member => .inl ?_⟩
      exact (part.map fun entry => entry.2.id_).subset member
  · have after : s.step (.delTimer index) = { s with log := s.log ++ [.missed index] } := by
      simp only [System.step, Timer.delTimer, if_neg found, Bool.false_eq_true, if_false]
    rw [after]
    exact good_noted good _ trivial rfl rfl rfl nofun

/-- The due part of the `multimap` becomes the queue of the tick. -/
theorem good_began {current_time : Int} (executing : s.executing = none)
    {due later : List (Int × TimerElement Func)} (whole : due ++ later = s.timer.time_ele_)
    (comes : ∀ entry ∈ due, entry.1 ≤ current_time)
    (waits : ∀ entry ∈ later, current_time < entry.1) :
    Good ⟨{ s.timer with time_ele_ := later, exeute_list_ := due.map Prod.snd },
      some (current_time, due.map Prod.snd), s.log ++ [.began current_time]⟩ := by
  have ids : addedIds (s.log ++ [.began current_time]) = addedIds s.log := addedIds_same s.log rfl
  have fired : firedIds (s.log ++ [.began current_time]) = firedIds s.log := firedIds_same s.log rfl
  have deleted : deletedIds (s.log ++ [.began current_time]) =
      deletedIds s.log := deletedIds_same s.log rfl
  have in_due : ∀ entry ∈ due, .added entry.2 entry.1 ∈ s.log := fun entry member =>
    good.keyed entry (whole ▸ List.mem_append_left _ member)
  have in_later : ∀ entry ∈ later, .added entry.2 entry.1 ∈ s.log := fun entry member =>
    good.keyed entry (whole ▸ List.mem_append_right _ member)
  have key : ∀ entry ∈ due, entry.2.expire_time_ = entry.1 := fun entry member =>
    good.stored _ _ (in_due entry member)
  have ordered : Ordered (due ++ later) := whole ▸ good.ordered
  have none_queued : s.queued = [] := by
    simp only [System.queued, System.queue, executing, List.map_nil]
  have places : s.waiting = (due.map Prod.snd).map TimerElement.id_ ++
      later.map fun entry => entry.2.id_ := by
    rw [System.waiting, ← whole, List.map_append, List.map_map]
    rfl
  constructor
  · exact (always_append _ _ _).mpr ⟨good.right, trivial⟩
  · exact good.positive
  · rw [ids]
    exact good.below
  · rw [ids]
    exact good.once
  -- nothing was queued before, so the due part is the queue
  · rw [ids, fired, deleted]
    refine good.conserved.trans ?_
    rw [none_queued, places]
    have moved := to_the_queue ((due.map Prod.snd).map TimerElement.id_)
      (later.map fun entry => entry.2.id_) [] (firedIds s.log ++ deletedIds s.log)
    rw [List.append_nil] at moved
    exact moved
  · exact stored_append good nofun
  · exact fun entry member => List.mem_append_left _ (in_later entry member)
  · exact (DueQueue.ordered_of_append ordered).2
  · intro element member
    obtain ⟨entry, here, rfl⟩ := List.mem_map.mp member
    rw [key entry here]
    exact List.mem_append_left _ (in_due entry here)
  · exact nofun
  · rintro _ _ ⟨⟩
    refine ⟨s.log, [], ⟨⟨rfl, nofun⟩, ?_, ?_, nofun, ?_⟩⟩
    · intro element member
      obtain ⟨entry, here, rfl⟩ := List.mem_map.mp member
      exact (key entry here).trans_le (comes entry here)
    · refine List.pairwise_map.mpr ((DueQueue.ordered_of_append ordered).1.imp_of_mem ?_)
      intro earlier other first second before
      rw [key earlier first, key other second]
      exact before
    -- a timer that is still waiting is one of the later part, by its id
    · rintro element expiry member time_come still
      obtain ⟨entry, here, same⟩ := List.mem_map.mp still
      obtain ⟨-, rfl⟩ := added_unique good.once member (in_later entry here) same.symm
      exact absurd time_come (not_le.mpr (waits entry here))

theorem good_onTimer (current_time : Int) : Good (s.step (.onTimer current_time)) := by
  cases executing : s.executing with
  | some running =>
      have after : s.step (.onTimer current_time) = s := by simp only [System.step, executing]
      rw [after]
      exact good
  | none =>
      by_cases passes : s.timer.passes current_time = true
      · have split_of := DueQueue.split_append current_time s.timer.time_ele_
        have comes := DueQueue.split_due current_time s.timer.time_ele_
        have waits := DueQueue.split_later current_time good.ordered
        generalize shape : split current_time s.timer.time_ele_ = parts at split_of comes waits
        obtain ⟨due, later⟩ := parts
        have after : s.step (.onTimer current_time) =
            ⟨{ s.timer with time_ele_ := later, exeute_list_ := due.map Prod.snd },
              some (current_time, due.map Prod.snd), s.log ++ [.began current_time]⟩ := by
          simp only [System.step, executing, passes, if_true, Timer.checkExpire, shape,
            good.idle executing, List.nil_append]
        rw [after]
        exact good_began good executing split_of comes waits
      · have after : s.step (.onTimer current_time) =
            { s with log := s.log ++ [.skipped current_time] } := by
          simp only [System.step, executing, if_neg passes]
        rw [after]
        exact good_noted good _ trivial rfl rfl rfl nofun

/-- The loop takes the next element. -/
theorem good_fired {current_time : Int} {element : TimerElement Func}
    {rest : List (TimerElement Func)} (executing : s.executing = some (current_time, element :: rest)) :
    Good ⟨s.timer, some (current_time, rest), s.log ++ [.fired element]⟩ := by
  obtain ⟨past, since, ticking⟩ := good.ticking _ _ executing
  have queue : s.queue = element :: rest := by simp only [System.queue, executing]
  have first : element ∈ s.queue := by
    rw [queue]
    exact List.mem_cons_self
  have ids : addedIds (s.log ++ [.fired element]) = addedIds s.log := addedIds_same s.log rfl
  have fired : firedIds (s.log ++ [.fired element]) = firedIds s.log ++ [element.id_] := by
    simp [firedIds]
  have deleted : deletedIds (s.log ++ [.fired element]) =
      deletedIds s.log := deletedIds_same s.log rfl
  have inside : InTick (s.log ++ [.fired element]) current_time past (since ++ [.fired element]) :=
    inTick_append ticking.inside nofun
  obtain ⟨before, sorted⟩ := List.pairwise_cons.mp ticking.sorted
  constructor
  · refine (always_append _ _ _).mpr ⟨good.right, ?_⟩
    -- `DelTimer` looks only among those waiting, and a queued timer is not there
    obtain ⟨not_fired, not_deleted⟩ := queued_pending good first
    refine ⟨current_time, past, since, element.expire_time_, ticking.inside,
      good.listed element first, ticking.due element List.mem_cons_self, ?_, not_fired, not_deleted⟩
    intro earlier other gone member
    rw [← good.stored earlier other member]
    exact ticking.reached earlier gone element List.mem_cons_self
  · exact good.positive
  · rw [ids]
    exact good.below
  · rw [ids]
    exact good.once
  · rw [ids, fired, deleted]
    have moved := good.conserved
    rw [System.queued, queue, List.map_cons] at moved
    exact moved.trans (to_the_fired _ _ _ _ element.id_)
  · exact stored_append good nofun
  · exact fun entry member => List.mem_append_left _ (good.keyed entry member)
  · exact good.ordered
  · intro other member
    have listed : other ∈ s.queue := by
      rw [queue]
      exact List.mem_cons_of_mem _ member
    exact List.mem_append_left _ (good.listed other listed)
  · exact nofun
  · rintro _ _ ⟨⟩
    refine ⟨past, since ++ [.fired element], inside, ?_, sorted, ?_, ticking.taken⟩
    · exact fun other member => ticking.due other (List.mem_cons_of_mem _ member)
    · intro earlier member other later
      rcases List.mem_append.mp member with gone | last
      · exact ticking.reached earlier gone other (List.mem_cons_of_mem _ later)
      -- the rest of the queue is behind the element that has just run
      · cases List.mem_singleton.mp last
        exact before other later

/-- The loop is over. -/
theorem good_ended {current_time : Int} (executing : s.executing = some (current_time, [])) :
    Good ⟨s.timer.finish current_time, none, s.log ++ [.ended current_time]⟩ := by
  obtain ⟨past, since, ticking⟩ := good.ticking _ _ executing
  have none_queued : s.queued = [] := by
    simp only [System.queued, System.queue, executing, List.map_nil]
  have ids : addedIds (s.log ++ [.ended current_time]) = addedIds s.log := addedIds_same s.log rfl
  have fired : firedIds (s.log ++ [.ended current_time]) = firedIds s.log := firedIds_same s.log rfl
  have deleted : deletedIds (s.log ++ [.ended current_time]) =
      deletedIds s.log := deletedIds_same s.log rfl
  constructor
  · refine (always_append _ _ _).mpr ⟨good.right, past, since, ticking.inside, ?_⟩
    intro element expiry member time_come
    -- it was added, so it is somewhere, and neither waiting nor queued
    have somewhere := good.conserved.mem_iff.mp (mem_addedIds (mem_past ticking.inside member))
    rw [none_queued, List.nil_append] at somewhere
    rcases List.mem_append.mp somewhere with waits | out
    · exact absurd waits (ticking.taken element expiry member time_come)
    · exact List.mem_append.mp out
  · exact good.positive
  · rw [ids]
    exact good.below
  · rw [ids]
    exact good.once
  · rw [ids, fired, deleted]
    have same := good.conserved
    rw [none_queued] at same
    exact same
  · exact stored_append good nofun
  · exact fun entry member => List.mem_append_left _ (good.keyed entry member)
  · exact good.ordered
  · exact nofun
  · exact fun _ => rfl
  · exact nofun

theorem good_proceed : Good (s.step .proceed) := by
  match executing : s.executing with
  | none =>
      have after : s.step .proceed = s := by simp only [System.step, executing]
      rw [after]
      exact good
  | some (current_time, []) =>
      have after : s.step .proceed =
          ⟨s.timer.finish current_time, none, s.log ++ [.ended current_time]⟩ := by
        simp only [System.step, executing]
      rw [after]
      exact good_ended good executing
  | some (current_time, element :: rest) =>
      have after : s.step .proceed =
          ⟨s.timer, some (current_time, rest), s.log ++ [.fired element]⟩ := by
        simp only [System.step, executing]
      rw [after]
      exact good_fired good executing

end Good

theorem good_step (s : System Func) (call : Call Func) (good : Good s) (fits : Fits s call) :
    Good (s.step call) := by
  cases call with
  | addTimer now micro_time data func => exact good_addTimer good now micro_time data func fits
  | delTimer index => exact good_delTimer good index
  | onTimer current_time => exact good_onTimer good current_time
  | proceed => exact good_proceed good

theorem good_fires {s : System Func} (good : Good s) : FiresAsScheduled s.log where
  ids_new := good.once
  fired_once := by
    have places := places_nodup good
    have out := (List.nodup_append.mp (List.nodup_append.mp places).2.1).2.1
    exact (List.nodup_append.mp out).1
  right := good.right

/-- With callbacks that call nothing, the loop runs the list and `OnTimer` is over. -/
theorem tick_ends (s : System Func) (current_time : Int) (rest : List (TimerElement Func))
    (executing : s.executing = some (current_time, rest)) :
    Run.final System.step s (List.replicate (rest.length + 1) .proceed) =
      ⟨s.timer.finish current_time, none, s.log ++ rest.map .fired ++ [.ended current_time]⟩ := by
  induction rest generalizing s with
  | nil =>
      have last : s.step .proceed =
          ⟨s.timer.finish current_time, none, s.log ++ [.ended current_time]⟩ := by
        simp only [System.step, executing]
      rw [List.map_nil, List.append_nil, ← last]
      rfl
  | cons element rest ih =>
      have next : s.step .proceed =
          { s with executing := some (current_time, rest), log := s.log ++ [.fired element] } := by
        simp only [System.step, executing]
      have goes_on := ih (s.step .proceed) (by rw [next])
      have log : (s.step .proceed).log ++ rest.map .fired =
          s.log ++ (element :: rest).map .fired := by
        rw [next, List.append_assoc, List.map_cons, List.singleton_append]
      rw [log, next] at goes_on
      rw [← goes_on, ← next]
      rfl

/-- While no `int64_t` overflows, whatever is called and from wherever, and at whatever times. -/
theorem timers_fire_as_scheduled (calls : List (Call Func))
    (fits : Run.Meets System.step Fits System.initial calls) :
    FiresAsScheduled (Run.final System.step System.initial calls).log :=
  good_fires (Run.final_along System.step Fits Good good_step System.initial calls good_initial fits)

/-- The first of two timers deletes the second, which is due with it, and adds a third; it is too
late for that, and too early for the third. -/
theorem timers_of_one_tick_fire :
    Run.Meets System.step Fits (System.initial : System Unit)
      [.addTimer 10 5 0 (), .addTimer 10 5 1 (), .onTimer 200000, .proceed, .delTimer 2,
        .addTimer 200000 0 2 (), .proceed, .proceed] ∧
    FiresAsScheduled (Run.final System.step (System.initial : System Unit)
      [.addTimer 10 5 0 (), .addTimer 10 5 1 (), .onTimer 200000, .proceed, .delTimer 2,
        .addTimer 200000 0 2 (), .proceed, .proceed]).log := by
  have fits : Run.Meets System.step Fits (System.initial : System Unit)
      [.addTimer 10 5 0 (), .addTimer 10 5 1 (), .onTimer 200000, .proceed, .delTimer 2,
        .addTimer 200000 0 2 (), .proceed, .proceed] := by
    refine ⟨⟨?_, ?_, ?_⟩, ⟨?_, ?_, ?_⟩, trivial, trivial, trivial, ⟨?_, ?_, ?_⟩, trivial, trivial,
      trivial⟩ <;> decide
  exact ⟨fits, timers_fire_as_scheduled _ fits⟩

/-- A timer that is to wait for ever runs at the next tick. -/
theorem endless_timer_fires :
    ¬ FiresAsScheduled (Run.final System.step (System.initial : System Unit)
      [.addTimer 1 (2 ^ 63 - 1) 0 (), .onTimer 200000, .proceed]).log := by
  have log : (Run.final System.step (System.initial : System Unit)
      [.addTimer 1 (2 ^ 63 - 1) 0 (), .onTimer 200000, .proceed]).log =
        [.added ⟨(), 1, 0, -2 ^ 63⟩ (2 ^ 63), .began 200000] ++ .fired ⟨(), 1, 0, -2 ^ 63⟩ :: [] := by
    rfl
  rintro ⟨-, -, right⟩
  obtain ⟨current_time, past, since, expiry, inside, member, time_come, -⟩ := right _ _ _ log
  -- the log has one addition and one `OnTimer`, so both numbers are known
  have expiry_is : expiry = 2 ^ 63 := by simpa using member
  have began : Event.began current_time ∈
      [Event.added ⟨(), 1, 0, -2 ^ 63⟩ (2 ^ 63), Event.began 200000] := by
    rw [inside.whole]
    exact List.mem_append_right _ List.mem_cons_self
  have time_is : current_time = 200000 := by simpa using began
  rw [expiry_is, time_is] at time_come
  exact absurd time_come (by decide)

end EChainLib.Utils
