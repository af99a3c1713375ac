import Mathlib
import EChainLib.Cache.WriteBack

/-! A cache with its parents and the store, read as one map. Each call is held
against what a map does, whatever the uninitialised action of the record it
loads; the calls that differ are the ones that delete a key of the cache's own
records, and the ones that take a loaded record for a deleted one. -/

namespace EChainLib.EntryCache

variable {Key Value : Type*} [LinearOrder Key]

/-- What the caller of one call is told. -/
def answer (loadValue : Key → Option Value) (parents : List (Entries Key))
    (cache : Cache Key Value) : Call Key Value → Bool
  | .getEntry junk key => (getEntry loadValue junk parents key cache).1.isSome
  | .addEntry junk key pval => (addEntry loadValue junk parents key pval cache).1
  | .deleteEntry junk key => (deleteEntry loadValue junk parents key cache).1
  | .edit _ _ => true

/-- The keys the chain shows from this cache. -/
def shows (loadValue : Key → Option Value) (parents : List (Entries Key))
    (cache : Cache Key Value) : Key → Bool :=
  visible loadValue (cache.entries_ :: parents)

def value (loadValue : Key → Option Value) (parents : List (Entries Key))
    (cache : Cache Key Value) : Key → Option Value :=
  view loadValue cache.heap (cache.entries_ :: parents)

/-- What a map does at `key`: the answer a call gets, and what it leaves there. -/
def ActsAsMap (loadValue : Key → Option Value) (parents : List (Entries Key))
    (cache : Cache Key Value) (call : Call Key Value) : Prop :=
  match call with
  | .getEntry junk key =>
      answer loadValue parents cache call = shows loadValue parents cache key ∧
        (∀ pointer, (getEntry loadValue junk parents key cache).1 = some pointer →
          value loadValue parents cache key =
            some ((perform loadValue parents cache call).heap.cell pointer)) ∧
        shows loadValue parents (perform loadValue parents cache call) =
          shows loadValue parents cache
  | .addEntry _ key pval =>
      answer loadValue parents cache call = !shows loadValue parents cache key ∧
        (answer loadValue parents cache call = true →
          value loadValue parents (perform loadValue parents cache call) key =
            some (cache.heap.cell pval)) ∧
        ∀ other, other ≠ key →
          shows loadValue parents (perform loadValue parents cache call) other =
            shows loadValue parents cache other
  | .deleteEntry _ key =>
      answer loadValue parents cache call = shows loadValue parents cache key ∧
        (answer loadValue parents cache call = true →
          shows loadValue parents (perform loadValue parents cache call) key = false) ∧
        ∀ other, other ≠ key →
          shows loadValue parents (perform loadValue parents cache call) other =
            shows loadValue parents cache other
  | .edit _ _ =>
      shows loadValue parents (perform loadValue parents cache call) =
        shows loadValue parents cache

/-- The record read from the store carries an action that says `DEL`. -/
def TakenForDeleted (loadValue : Key → Option Value) (parents : List (Entries Key))
    (cache : Cache Key Value) (junk : ChangeAction) (key : Key) : Prop :=
  cache.entries_[key]? = none ∧ junk = .del ∧ loads loadValue parents key = true

def Faithful (loadValue : Key → Option Value) (parents : List (Entries Key))
    (cache : Cache Key Value) : Call Key Value → Prop
  | .getEntry junk key | .addEntry junk key _ =>
      parents ≠ [] → ¬ TakenForDeleted loadValue parents cache junk key
  | .deleteEntry junk key =>
      (∀ r, cache.entries_[key]? = some r → r.action_ = .del) ∧
        ¬ TakenForDeleted loadValue parents cache junk key
  | .edit _ _ => True

section OneCall

variable (loadValue : Key → Option Value) (parents : List (Entries Key))

theorem visible_insert (entries : Entries Key) (key other : Key) (r : Record) :
    visible loadValue (entries.insert key r :: parents) other =
      if key = other then decide (r.action_ ≠ .del)
      else visible loadValue (entries :: parents) other := by
  by_cases same : key = other
  · simp [visible, same]
  · simp [visible, lookup_insert, same]

/-- Below a cache without a record, `GetRecord` misses exactly the keys whose
loaded record is taken for a deleted one. -/
theorem reported_iff (junk : ChangeAction) (caches : List (Entries Key)) (key : Key) :
    reported loadValue junk caches key = visible loadValue caches key ↔
      ¬ (junk = .del ∧ loads loadValue caches key = true) := by
  unfold reported
  by_cases loaded : loads loadValue caches key = true
  · have present := loads_visible loadValue caches key loaded
    by_cases deleted : junk = .del <;> simp [loaded, present, deleted]
  · simp [loaded]

theorem presentBelow_iff (junk : ChangeAction) (key : Key) :
    presentBelow loadValue junk parents key = visible loadValue parents key ↔
      (parents ≠ [] → ¬ (junk = .del ∧ loads loadValue parents key = true)) := by
  cases parents with
  | nil => simp [presentBelow, visible]
  | cons parent above => simpa [presentBelow] using reported_iff loadValue junk (parent :: above) key

theorem getEntry_answer (junk : ChangeAction) (key : Key) (cache : Cache Key Value) :
    (getEntry loadValue junk parents key cache).1.isSome =
      match cache.entries_[key]? with
      | some r => decide (r.action_ ≠ .del)
      | none => presentBelow loadValue junk parents key := by
  cases own : cache.entries_[key]? with
  | some r => by_cases deleted : r.action_ = .del <;> simp [getEntry, own, deleted]
  | none =>
      cases parents with
      | nil => cases found : loadValue key <;> simp [getEntry, own, presentBelow, found]
      | cons parent above =>
          have report := getRecord_reported loadValue junk (parent :: above) key cache.heap
          rcases answer : getRecord loadValue junk (parent :: above) key cache.heap with ⟨found, heap⟩
          cases found with
          | none => simp_all [getEntry, presentBelow]
          | some r => by_cases deleted : r.action_ = .del <;> simp_all [getEntry, presentBelow]

theorem addEntry_answer (junk : ChangeAction) (key : Key) (pval : Pointer)
    (cache : Cache Key Value) :
    (addEntry loadValue junk parents key pval cache).1 =
      match cache.entries_[key]? with
      | some r => decide (r.action_ = .del)
      | none => !presentBelow loadValue junk parents key := by
  cases own : cache.entries_[key]? with
  | some r => by_cases deleted : r.action_ = .del <;> simp [addEntry, own, deleted]
  | none =>
      cases parents with
      | nil => cases found : loadValue key <;> simp [addEntry, own, presentBelow, found]
      | cons parent above =>
          have report := getRecord_reported loadValue junk (parent :: above) key cache.heap
          rcases answer : getRecord loadValue junk (parent :: above) key cache.heap with ⟨found, heap⟩
          cases found with
          | none => simp_all [addEntry, presentBelow]
          | some r => by_cases deleted : r.action_ = .del <;> simp_all [addEntry, presentBelow]

/-- A record of its own is never deleted to the caller's knowledge: one that is
not `DEL` has just been marked when the lookup finds it. -/
theorem deleteEntry_answer (junk : ChangeAction) (key : Key) (cache : Cache Key Value) :
    (deleteEntry loadValue junk parents key cache).1 =
      match cache.entries_[key]? with
      | some _ => false
      | none => reported loadValue junk parents key := by
  cases own : cache.entries_[key]? with
  | some r =>
      by_cases deleted : r.action_ = .del
      · simp [deleteEntry, own, deleted]
      · simp [deleteEntry, deleteEntry.tail, own, deleted, getRecord]
  | none =>
      have report := getRecord_reported loadValue junk (cache.entries_ :: parents) key cache.heap
      rw [reported_of_absent loadValue junk cache.entries_ parents key own] at report
      rcases answer : getRecord loadValue junk (cache.entries_ :: parents) key cache.heap with
        ⟨found, heap⟩
      rw [answer] at report
      cases found with
      | none => simp_all [deleteEntry, deleteEntry.tail]
      | some r =>
          by_cases deleted : r.action_ = .del
          · simp_all [deleteEntry, deleteEntry.tail]
          · simp_all [deleteEntry, deleteEntry.tail]

/-- The record handed down from a level above holds the value the chain shows. -/
theorem getRecord_value (junk : ChangeAction) (caches : List (Entries Key)) (key : Key)
    (heap after : Heap Value) (r : Record)
    (found : getRecord loadValue junk caches key heap = (some r, after))
    (kept : r.action_ ≠ .del) : view loadValue heap caches key = some (after.cell r.value_) := by
  induction caches with
  | nil =>
      cases loaded : loadValue key with
      | none => simp [getRecord, loaded] at found
      | some v =>
          simp only [getRecord, loaded, Prod.mk.injEq, Option.some.injEq] at found
          obtain ⟨rfl, rfl⟩ := found
          simp [view, Overlay.stack, Heap.allocate, loaded]
  | cons entries above ih =>
      cases own : entries[key]? with
      | some x =>
          simp only [getRecord, own, Prod.mk.injEq, Option.some.injEq] at found
          obtain ⟨rfl, rfl⟩ := found
          simp [view, Overlay.stack, Overlay.overlay, layer, Record.shown, own, kept]
      | none =>
          rw [getRecord, own] at found
          simpa [view, Overlay.stack, Overlay.overlay, layer, own] using ih found

theorem getRecord_heap (junk : ChangeAction) (caches : List (Entries Key)) (key : Key)
    (heap : Heap Value) (stored : loads loadValue caches key = false) :
    (getRecord loadValue junk caches key heap).2 = heap := by
  induction caches with
  | nil =>
      have absent : loadValue key = none := by simpa [loads] using stored
      simp [getRecord, absent]
  | cons entries above ih =>
      cases own : entries[key]? with
      | some r => simp [getRecord, own]
      | none => simpa [getRecord, own] using ih (by simpa [loads, own] using stored)

theorem getEntry_value (junk : ChangeAction) (key : Key) (cache : Cache Key Value)
    (pointer : Pointer) (found : (getEntry loadValue junk parents key cache).1 = some pointer) :
    value loadValue parents cache key =
      some ((getEntry loadValue junk parents key cache).2.heap.cell pointer) := by
  unfold value
  cases own : cache.entries_[key]? with
  | some r =>
      by_cases deleted : r.action_ = .del
      · simp [getEntry, own, deleted] at found
      · simp only [getEntry, own, deleted, ne_eq, not_false_eq_true, if_true,
          Option.some.injEq] at found ⊢
        subst found
        simp [view, Overlay.stack, Overlay.overlay, layer, Record.shown, own, deleted]
  | none =>
      have below : view loadValue cache.heap (cache.entries_ :: parents) key =
          view loadValue cache.heap parents key := by
        simp [view, Overlay.stack, Overlay.overlay, layer, own]
      rw [below]
      cases parents with
      | nil =>
          cases loaded : loadValue key with
          | none => simp [getEntry, own, loaded] at found
          | some v =>
              simp only [getEntry, own, loaded, Option.some.injEq] at found ⊢
              subst found
              simp [view, Overlay.stack, Heap.allocate, loaded]
      | cons parent above =>
          rcases answer : getRecord loadValue junk (parent :: above) key cache.heap with ⟨hit, heap⟩
          cases hit with
          | none => simp [getEntry, own, answer] at found
          | some r =>
              by_cases deleted : r.action_ = .del
              · simp [getEntry, own, answer, deleted] at found
              · have shown := getRecord_value loadValue junk _ key _ heap r answer deleted
                simp only [getEntry, own, answer, deleted, ne_eq, not_false_eq_true, if_true,
                  Option.some.injEq] at found ⊢
                subst found
                simpa [Heap.allocate] using shown

theorem addEntry_heap (junk : ChangeAction) (key : Key) (pval : Pointer) (cache : Cache Key Value)
    (stored : loads loadValue (cache.entries_ :: parents) key = false) :
    (addEntry loadValue junk parents key pval cache).2.heap = cache.heap := by
  cases own : cache.entries_[key]? with
  | some r => by_cases deleted : r.action_ = .del <;> simp [addEntry, own, deleted]
  | none =>
      have below : loads loadValue parents key = false := by simpa [loads, own] using stored
      cases parents with
      | nil =>
          have absent : loadValue key = none := by simpa [loads] using below
          simp [addEntry, own, absent]
      | cons parent above =>
          have kept := getRecord_heap loadValue junk _ key cache.heap below
          rcases answer : getRecord loadValue junk (parent :: above) key cache.heap with ⟨hit, heap⟩
          rw [answer] at kept
          cases hit with
          | none => simpa [addEntry, own, answer] using kept
          | some r =>
              by_cases deleted : r.action_ = .del <;>
                simpa [addEntry, own, answer, deleted] using kept

/-- What the level below is asked agrees with what it shows. -/
theorem below_iff_faithful (junk : ChangeAction) (key : Key) (cache : Cache Key Value)
    (own : cache.entries_[key]? = none) :
    presentBelow loadValue junk parents key = shows loadValue parents cache key ↔
      (parents ≠ [] → ¬ TakenForDeleted loadValue parents cache junk key) := by
  unfold shows
  rw [visible_of_absent loadValue cache.entries_ parents key own, presentBelow_iff]
  simp [TakenForDeleted, own]

theorem below_shows (junk : ChangeAction) (key : Key)
    (present : presentBelow loadValue junk parents key = true) :
    visible loadValue parents key = true := by
  cases parents with
  | nil => exact present
  | cons parent above => exact (Bool.and_eq_true_iff.mp present).1

theorem getEntry_shows (junk : ChangeAction) (key : Key) (cache : Cache Key Value) :
    shows loadValue parents (getEntry loadValue junk parents key cache).2 =
      shows loadValue parents cache := by
  funext other
  obtain ⟨pointer, result⟩ := getEntry_entries loadValue junk parents key cache
  unfold shows
  rw [result]
  split
  case isFalse => rfl
  case isTrue hit =>
    obtain ⟨own, present⟩ := hit
    rw [visible_insert]
    split
    case isFalse => rfl
    case isTrue same =>
      subst same
      rw [visible_of_absent loadValue cache.entries_ parents key own]
      exact (below_shows loadValue parents junk key present).symm

theorem addEntry_others (junk : ChangeAction) (key other : Key) (pval : Pointer)
    (cache : Cache Key Value) (apart : other ≠ key) :
    shows loadValue parents (addEntry loadValue junk parents key pval cache).2 other =
      shows loadValue parents cache other := by
  unfold shows
  rw [addEntry_entries]
  have away : ∀ r, visible loadValue (cache.entries_.insert key r :: parents) other =
      visible loadValue (cache.entries_ :: parents) other := by
    intro r
    rw [visible_insert, if_neg apart.symm]
  split <;> split <;> simp [away]

theorem deleteEntry_others (junk : ChangeAction) (key other : Key) (cache : Cache Key Value)
    (apart : other ≠ key) :
    shows loadValue parents (deleteEntry loadValue junk parents key cache).2 other =
      shows loadValue parents cache other := by
  obtain ⟨pointer, result⟩ := deleteEntry_entries loadValue junk parents key cache
  unfold shows
  rw [result]
  have away : ∀ r, visible loadValue (cache.entries_.insert key r :: parents) other =
      visible loadValue (cache.entries_ :: parents) other := by
    intro r
    rw [visible_insert, if_neg apart.symm]
  split <;> split <;> simp [away]

theorem getEntry_map_iff (junk : ChangeAction) (key : Key) (cache : Cache Key Value) :
    ActsAsMap loadValue parents cache (.getEntry junk key) ↔
      Faithful loadValue parents cache (.getEntry junk key) := by
  have answered : answer loadValue parents cache (.getEntry junk key) =
      shows loadValue parents cache key ↔ Faithful loadValue parents cache (.getEntry junk key) := by
    simp only [answer, getEntry_answer, Faithful]
    cases own : cache.entries_[key]? with
    | some r =>
        simp [shows, visible_of_record loadValue cache.entries_ parents key r own,
          TakenForDeleted, own]
    | none => exact below_iff_faithful loadValue parents junk key cache own
  constructor
  · intro acts
    exact answered.mp acts.1
  · intro faithful
    exact ⟨answered.mpr faithful,
      fun pointer found => getEntry_value loadValue parents junk key cache pointer found,
      getEntry_shows loadValue parents junk key cache⟩

theorem addEntry_map_iff (junk : ChangeAction) (key : Key) (pval : Pointer)
    (cache : Cache Key Value) :
    ActsAsMap loadValue parents cache (.addEntry junk key pval) ↔
      Faithful loadValue parents cache (.addEntry junk key pval) := by
  have answered : answer loadValue parents cache (.addEntry junk key pval) =
      (!shows loadValue parents cache key) ↔
        Faithful loadValue parents cache (.addEntry junk key pval) := by
    simp only [answer, addEntry_answer, Faithful]
    cases own : cache.entries_[key]? with
    | some r =>
        simp [shows, visible_of_record loadValue cache.entries_ parents key r own,
          TakenForDeleted, own]
    | none =>
        simpa using below_iff_faithful loadValue parents junk key cache own
  constructor
  · intro acts
    exact answered.mp acts.1
  · intro faithful
    have told := answered.mpr faithful
    refine ⟨told, ?_, fun other apart => addEntry_others loadValue parents junk key other pval cache apart⟩
    intro accepted
    -- a key that was not shown was not loaded either, so no cell was written
    have hidden : shows loadValue parents cache key = false := by
      rw [accepted] at told
      simpa using told.symm
    have unloaded : loads loadValue (cache.entries_ :: parents) key = false := by
      by_contra stored
      have present := loads_visible loadValue _ key (Bool.eq_true_of_not_eq_false stored)
      exact Bool.false_ne_true (hidden.symm.trans present)
    simp only [value, perform, addEntry_heap loadValue parents junk key pval cache unloaded]
    simp only [answer, addEntry_answer] at accepted
    rw [addEntry_entries]
    cases own : cache.entries_[key]? with
    | some r =>
        rw [own] at accepted
        simp_all [view, Overlay.stack, Overlay.overlay, layer, Record.shown]
    | none =>
        rw [own] at accepted
        simp_all [view, Overlay.stack, Overlay.overlay, layer, Record.shown]

theorem deleteEntry_map_iff (junk : ChangeAction) (key : Key) (cache : Cache Key Value) :
    ActsAsMap loadValue parents cache (.deleteEntry junk key) ↔
      Faithful loadValue parents cache (.deleteEntry junk key) := by
  have answered : answer loadValue parents cache (.deleteEntry junk key) =
      shows loadValue parents cache key ↔
        Faithful loadValue parents cache (.deleteEntry junk key) := by
    simp only [answer, deleteEntry_answer, Faithful, shows]
    cases own : cache.entries_[key]? with
    | some r =>
        simp [visible_of_record loadValue cache.entries_ parents key r own, TakenForDeleted, own]
    | none =>
        rw [visible_of_absent loadValue cache.entries_ parents key own]
        simpa [TakenForDeleted, own] using reported_iff loadValue junk parents key
  constructor
  · intro acts
    exact answered.mp acts.1
  · intro faithful
    refine ⟨answered.mpr faithful, ?_,
      fun other apart => deleteEntry_others loadValue parents junk key other cache apart⟩
    intro accepted
    simp only [answer, deleteEntry_answer] at accepted
    obtain ⟨pointer, result⟩ := deleteEntry_entries loadValue junk parents key cache
    simp only [shows, perform, result]
    cases own : cache.entries_[key]? with
    | some r => simp [own] at accepted
    | none =>
        rw [own] at accepted
        simp [accepted, visible_insert]

/-- A call on a chain does what a map does, unless it deletes a key the cache
holds a record of, or takes a loaded record for a deleted one. -/
theorem chain_acts_as_map_iff (cache : Cache Key Value) (call : Call Key Value) :
    ActsAsMap loadValue parents cache call ↔ Faithful loadValue parents cache call := by
  cases call with
  | getEntry junk key => exact getEntry_map_iff loadValue parents junk key cache
  | addEntry junk key pval => exact addEntry_map_iff loadValue parents junk key pval cache
  | deleteEntry junk key => exact deleteEntry_map_iff loadValue parents junk key cache
  | edit pointer value => exact ⟨fun _ => trivial, fun _ => rfl⟩

/-- The keys shown after a call, from those shown before it. -/
def mapStep (seen : Key → Bool) : Call Key Value → Key → Bool
  | .addEntry _ key _ => fun other => if other = key then true else seen other
  | .deleteEntry _ key => fun other => if other = key then false else seen other
  | _ => seen

theorem addEntry_refused (junk : ChangeAction) (key : Key) (pval : Pointer)
    (cache : Cache Key Value)
    (refused : (addEntry loadValue junk parents key pval cache).1 = false) :
    (addEntry loadValue junk parents key pval cache).2.entries_ = cache.entries_ := by
  rw [addEntry_answer] at refused
  rw [addEntry_entries]
  cases own : cache.entries_[key]? with
  | some r => simp_all
  | none => simp_all

theorem deleteEntry_refused (junk : ChangeAction) (key : Key) (cache : Cache Key Value)
    (own_deleted : ∀ r, cache.entries_[key]? = some r → r.action_ = .del)
    (refused : (deleteEntry loadValue junk parents key cache).1 = false) :
    (deleteEntry loadValue junk parents key cache).2.entries_ = cache.entries_ := by
  rw [deleteEntry_answer] at refused
  obtain ⟨pointer, result⟩ := deleteEntry_entries loadValue junk parents key cache
  rw [result]
  cases own : cache.entries_[key]? with
  | some r => simp [own_deleted r own]
  | none => simp_all

theorem shows_step (cache : Cache Key Value) (call : Call Key Value)
    (faithful : Faithful loadValue parents cache call) :
    shows loadValue parents (perform loadValue parents cache call) =
      mapStep (shows loadValue parents cache) call := by
  have acts := (chain_acts_as_map_iff loadValue parents cache call).mpr faithful
  cases call with
  | getEntry junk key => exact acts.2.2
  | edit pointer value => exact acts
  | addEntry junk key pval =>
      obtain ⟨told, added, others⟩ := acts
      funext other
      by_cases same : other = key
      · subst same
        cases accepted : answer loadValue parents cache (.addEntry junk other pval) with
        | true =>
            have present := congrArg Option.isSome (added accepted)
            rw [value, view_isSome] at present
            simpa [mapStep, shows] using present
        | false =>
            have kept := addEntry_refused loadValue parents junk other pval cache accepted
            rw [accepted] at told
            simpa [mapStep, shows, perform, kept] using told
      · simpa [mapStep, same] using others other same
  | deleteEntry junk key =>
      obtain ⟨told, gone, others⟩ := acts
      funext other
      by_cases same : other = key
      · subst same
        cases accepted : answer loadValue parents cache (.deleteEntry junk other) with
        | true => simpa [mapStep] using gone accepted
        | false =>
            have kept := deleteEntry_refused loadValue parents junk other cache faithful.1 accepted
            rw [accepted] at told
            simpa [mapStep, shows, perform, kept] using told.symm
      · simpa [mapStep, same] using others other same

/-- Over a whole run of such calls the chain shows what a set shows. -/
theorem shows_final (cache : Cache Key Value) (calls : List (Call Key Value))
    (faithful : Run.Meets (perform loadValue parents) (Faithful loadValue parents) cache calls) :
    shows loadValue parents (Run.final (perform loadValue parents) cache calls) =
      Run.final mapStep (shows loadValue parents cache) calls := by
  induction calls generalizing cache with
  | nil => rfl
  | cons call rest ih =>
      obtain ⟨first, later⟩ := faithful
      have stepped := ih (perform loadValue parents cache call) later
      rw [shows_step loadValue parents cache call first] at stepped
      exact stepped

end OneCall

/-- The store holds key 1, which the cache has read. -/
def readKey : Cache Nat Nat :=
  perform (fun key => if key = 1 then some 7 else none) [] { entries_ := ∅, heap := ⟨fun _ => 0, 0⟩ }
    (.getEntry .keep 1)

theorem deletes_read_key :
    ¬ ∀ (loadValue : Nat → Option Nat) (parents : List (Entries Nat)) (cache : Cache Nat Nat)
      (call : Call Nat Nat), ActsAsMap loadValue parents cache call := by
  intro always
  have told := (always (fun key => if key = 1 then some 7 else none) [] readKey
    (.deleteEntry .keep 1)).1
  exact absurd told (by decide +kernel)

end EChainLib.EntryCache
