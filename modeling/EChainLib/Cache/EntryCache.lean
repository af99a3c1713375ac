import Mathlib
import EChainLib.Support.Overlay

/-! Model of `utils/entry_cache.h`. A cache is its `entries_`; a chain lists the
entries of a cache and of its parents, nearest first, and `LoadValue` answers
below the last one. Values live in cells behind `shared_ptr`s, so a value handed
out by `GetEntry` can be edited in place through its pointer. -/

namespace EChainLib.EntryCache

open Std (ExtTreeMap)

inductive ChangeAction where
  | keep
  | add
  | mod
  | del
  deriving DecidableEq, Repr

abbrev Pointer := Nat

structure Record where
  value_ : Pointer
  action_ : ChangeAction
  deriving DecidableEq, Repr

/-- `std::map<Key, Record, Sort>`; `Sort` is the order of `Key`. -/
abbrev Entries (Key : Type*) [LinearOrder Key] := ExtTreeMap Key Record compare

structure Heap (Value : Type*) where
  cell : Pointer → Value
  next : Pointer

def Heap.allocate {Value : Type*} (heap : Heap Value) (value : Value) : Heap Value :=
  { cell := fun pointer => if pointer = heap.next then value else heap.cell pointer
    next := heap.next + 1 }

def Heap.edit {Value : Type*} (heap : Heap Value) (pointer : Pointer) (value : Value) :
    Heap Value :=
  { heap with cell := fun other => if other = pointer then value else heap.cell other }

/-- What one call reads and writes: the entries of its cache, and the cells. -/
structure Cache (Key Value : Type*) [LinearOrder Key] where
  entries_ : Entries Key
  heap : Heap Value

variable {Key Value : Type*} [LinearOrder Key]

instance key_order : Std.TransCmp (compare : Key → Key → Ordering) := inferInstance

/-- `Record r;` leaves `action_` uninitialised and `LoadValue` sets `value_` only,
so `junk` is what a record loaded from the store carries as its action. -/
def getRecord (loadValue : Key → Option Value) (junk : ChangeAction) :
    List (Entries Key) → Key → Heap Value → Option Record × Heap Value
  | [], key, heap =>
      match loadValue key with
      | some value => (some ⟨heap.next, junk⟩, heap.allocate value)
      | none => (none, heap)
  | entries :: parents, key, heap =>
      match entries[key]? with
      | some r => (some r, heap)
      | none => getRecord loadValue junk parents key heap

def getEntry (loadValue : Key → Option Value) (junk : ChangeAction)
    (parents : List (Entries Key)) (key : Key) (cache : Cache Key Value) :
    Option Pointer × Cache Key Value :=
  match cache.entries_[key]? with
  | some r => if r.action_ ≠ .del then (some r.value_, cache) else (none, cache)
  | none =>
      match parents with
      | [] =>
          match loadValue key with
          | some value =>
              (some cache.heap.next,
                { entries_ := cache.entries_.insert key ⟨cache.heap.next, .mod⟩
                  heap := cache.heap.allocate value })
          | none => (none, cache)
      | _ :: _ =>
          match getRecord loadValue junk parents key cache.heap with
          | (some r, heap) =>
              if r.action_ ≠ .del then
                -- std::make_shared<Value>(r.value_) copies the value
                (some heap.next,
                  { entries_ := cache.entries_.insert key ⟨heap.next, .mod⟩
                    heap := heap.allocate (heap.cell r.value_) })
              else (none, { cache with heap := heap })
          | (none, heap) => (none, { cache with heap := heap })

def addEntry (loadValue : Key → Option Value) (junk : ChangeAction)
    (parents : List (Entries Key)) (key : Key) (pval : Pointer) (cache : Cache Key Value) :
    Bool × Cache Key Value :=
  match cache.entries_[key]? with
  | some r =>
      if r.action_ = .del then
        (true, { cache with entries_ := cache.entries_.insert key ⟨pval, .mod⟩ })
      else (false, cache)
  | none =>
      match parents with
      | [] =>
          -- LoadValue puts what it loads into pval, so a refused call allocates
          match loadValue key with
          | none => (true, { cache with entries_ := cache.entries_.insert key ⟨pval, .add⟩ })
          | some value => (false, { cache with heap := cache.heap.allocate value })
      | _ :: _ =>
          match getRecord loadValue junk parents key cache.heap with
          | (some r, heap) =>
              if r.action_ ≠ .del then (false, { cache with heap := heap })
              else (true, { entries_ := cache.entries_.insert key ⟨pval, .add⟩, heap := heap })
          | (none, heap) =>
              (true, { entries_ := cache.entries_.insert key ⟨pval, .add⟩, heap := heap })

/-- The source has no `return` after it marks its own record, so the lookup below
finds the record it has just marked. -/
def deleteEntry (loadValue : Key → Option Value) (junk : ChangeAction)
    (parents : List (Entries Key)) (key : Key) (cache : Cache Key Value) :
    Bool × Cache Key Value :=
  match cache.entries_[key]? with
  | some r =>
      if r.action_ = .del then (false, cache)
      else tail (cache.entries_.insert key { r with action_ := .del }) cache.heap
  | none => tail cache.entries_ cache.heap
where
  tail (entries : Entries Key) (heap : Heap Value) : Bool × Cache Key Value :=
    match getRecord loadValue junk (entries :: parents) key heap with
    | (some r, heap) =>
        if r.action_ ≠ .del then
          -- `map::insert` keeps a record that is already there
          (true, { entries_ := entries.insertIfNew key { r with action_ := .del }, heap := heap })
        else (false, { entries_ := entries, heap := heap })
    | (none, heap) => (false, { entries_ := entries, heap := heap })

/-- The `switch` on one record of the branch; `none` is `return false`. -/
def mergeRecord (entries : Entries Key) (key : Key) (branch : Record) : Option (Entries Key) :=
  match branch.action_ with
  | .add =>
      match entries[key]? with
      | some x =>
          if x.action_ = .del then some (entries.insert key { branch with action_ := .mod })
          else none
      | none => some (entries.insert key branch)
  | .keep => some entries
  | .mod => some (entries.insert key branch)
  | .del =>
      match entries[key]? with
      | some x =>
          match x.action_ with
          | .add => some (entries.erase key)
          | .mod => some (entries.insert key { x with action_ := .del })
          | .keep => some (entries.insert key { x with action_ := .del })
          | .del => none
      | none => some (entries.insert key branch)

def mergeLoop : List (Key × Record) → Entries Key → Bool × Entries Key
  | [], entries => (true, entries)
  | (key, branch) :: rest, entries =>
      match mergeRecord entries key branch with
      | some entries => mergeLoop rest entries
      | none => (false, entries)

def mergeFromBranch (entries branch : Entries Key) : Bool × Entries Key :=
  mergeLoop branch.toList entries

/-! What a chain shows of a key: the nearest record decides, and below the last
record the store does. -/

def visible (loadValue : Key → Option Value) : List (Entries Key) → Key → Bool
  | [], key => (loadValue key).isSome
  | entries :: parents, key =>
      match entries[key]? with
      | some r => decide (r.action_ ≠ .del)
      | none => visible loadValue parents key

/-- The lookup of `key` reaches `LoadValue` and finds the key there. -/
def loads (loadValue : Key → Option Value) : List (Entries Key) → Key → Bool
  | [], key => (loadValue key).isSome
  | entries :: parents, key =>
      match entries[key]? with
      | some _ => false
      | none => loads loadValue parents key

/-- The key is reported present by `GetRecord`, whose answer for a value loaded
from the store depends on the uninitialised action. -/
def reported (loadValue : Key → Option Value) (junk : ChangeAction)
    (caches : List (Entries Key)) (key : Key) : Bool :=
  visible loadValue caches key && !(decide (junk = .del) && loads loadValue caches key)

/-- What `GetEntry` and `AddEntry` ask the level below: `GetRecord` of the parent,
or `LoadValue` itself at the top level. -/
def presentBelow (loadValue : Key → Option Value) (junk : ChangeAction) :
    List (Entries Key) → Key → Bool
  | [], key => (loadValue key).isSome
  | parent :: above, key => reported loadValue junk (parent :: above) key

def Record.shown {Value : Type*} (heap : Heap Value) (r : Record) : Option Value :=
  if r.action_ = .del then none else some (heap.cell r.value_)

/-- A cache as a layer of changes over the level below it. -/
def layer (heap : Heap Value) (entries : Entries Key) : Overlay.Layer Key Value :=
  fun key => entries[key]?.map (Record.shown heap)

def view (loadValue : Key → Option Value) (heap : Heap Value) (caches : List (Entries Key)) :
    Key → Option Value :=
  Overlay.stack loadValue (caches.map (layer heap))

theorem view_isSome (loadValue : Key → Option Value) (heap : Heap Value)
    (caches : List (Entries Key)) (key : Key) :
    (view loadValue heap caches key).isSome = visible loadValue caches key := by
  induction caches with
  | nil => rfl
  | cons entries parents ih =>
      cases found : entries[key]? with
      | none => simpa [view, visible, Overlay.stack, Overlay.overlay, layer, found] using ih
      | some r =>
          by_cases deleted : r.action_ = .del <;>
            simp [view, visible, Overlay.stack, Overlay.overlay, layer, Record.shown, found, deleted]

theorem visible_of_record (loadValue : Key → Option Value) (entries : Entries Key)
    (parents : List (Entries Key)) (key : Key) (r : Record) (found : entries[key]? = some r) :
    visible loadValue (entries :: parents) key = decide (r.action_ ≠ .del) := by
  simp [visible, found]

theorem visible_of_absent (loadValue : Key → Option Value) (entries : Entries Key)
    (parents : List (Entries Key)) (key : Key) (absent : entries[key]? = none) :
    visible loadValue (entries :: parents) key = visible loadValue parents key := by
  simp [visible, absent]

theorem loads_visible (loadValue : Key → Option Value) (caches : List (Entries Key)) (key : Key)
    (loaded : loads loadValue caches key = true) : visible loadValue caches key = true := by
  induction caches with
  | nil => exact loaded
  | cons entries parents ih =>
      cases found : entries[key]? with
      | some r => simp [loads, found] at loaded
      | none => simpa [visible, found] using ih (by simpa [loads, found] using loaded)

theorem reported_of_record (loadValue : Key → Option Value) (junk : ChangeAction)
    (entries : Entries Key) (parents : List (Entries Key)) (key : Key) (r : Record)
    (found : entries[key]? = some r) :
    reported loadValue junk (entries :: parents) key = decide (r.action_ ≠ .del) := by
  simp [reported, visible, loads, found]

theorem reported_of_absent (loadValue : Key → Option Value) (junk : ChangeAction)
    (entries : Entries Key) (parents : List (Entries Key)) (key : Key)
    (absent : entries[key]? = none) :
    reported loadValue junk (entries :: parents) key = reported loadValue junk parents key := by
  simp [reported, visible, loads, absent]

/-- `GetRecord` finds a record that is not marked `DEL` exactly where the key is
reported. -/
theorem getRecord_reported (loadValue : Key → Option Value) (junk : ChangeAction)
    (caches : List (Entries Key)) (key : Key) (heap : Heap Value) :
    (getRecord loadValue junk caches key heap).1.any (fun r => decide (r.action_ ≠ .del)) =
      reported loadValue junk caches key := by
  induction caches with
  | nil =>
      cases found : loadValue key <;> simp [getRecord, reported, visible, loads, found]
  | cons entries parents ih =>
      cases found : entries[key]? with
      | some r => simp [getRecord, reported_of_record _ _ _ _ _ _ found, found]
      | none => simpa [getRecord, reported_of_absent _ _ _ _ _ found, found] using ih

/-! One equation for each call: what it leaves in `entries_`. -/

theorem getEntry_entries (loadValue : Key → Option Value) (junk : ChangeAction)
    (parents : List (Entries Key)) (key : Key) (cache : Cache Key Value) :
    ∃ pointer, (getEntry loadValue junk parents key cache).2.entries_ =
      if cache.entries_[key]? = none ∧ presentBelow loadValue junk parents key = true then
        cache.entries_.insert key ⟨pointer, .mod⟩
      else cache.entries_ := by
  cases own : cache.entries_[key]? with
  | some r => exact ⟨0, by by_cases deleted : r.action_ = .del <;> simp [getEntry, own, deleted]⟩
  | none =>
      cases parents with
      | nil =>
          refine ⟨cache.heap.next, ?_⟩
          cases found : loadValue key <;> simp [getEntry, own, presentBelow, found]
      | cons parent above =>
          have report := getRecord_reported loadValue junk (parent :: above) key cache.heap
          rcases answer : getRecord loadValue junk (parent :: above) key cache.heap with ⟨found, heap⟩
          refine ⟨heap.next, ?_⟩
          cases found with
          | none => simp_all [getEntry, presentBelow]
          | some r => by_cases deleted : r.action_ = .del <;> simp_all [getEntry, presentBelow]

theorem addEntry_entries (loadValue : Key → Option Value) (junk : ChangeAction)
    (parents : List (Entries Key)) (key : Key) (pval : Pointer) (cache : Cache Key Value) :
    (addEntry loadValue junk parents key pval cache).2.entries_ =
      match cache.entries_[key]? with
      | some r =>
          if r.action_ = .del then cache.entries_.insert key ⟨pval, .mod⟩ else cache.entries_
      | none =>
          if presentBelow loadValue junk parents key = true then cache.entries_
          else cache.entries_.insert key ⟨pval, .add⟩ := by
  cases own : cache.entries_[key]? with
  | some r => by_cases deleted : r.action_ = .del <;> simp [addEntry, own, deleted]
  | none =>
      cases parents with
      | nil => cases found : loadValue key <;> simp [addEntry, own, presentBelow, found]
      | cons parent above =>
          have report := getRecord_reported loadValue junk (parent :: above) key cache.heap
          rcases answer : getRecord loadValue junk (parent :: above) key cache.heap with ⟨found, heap⟩
          cases found with
          | none => simp_all [addEntry, presentBelow]
          | some r => by_cases deleted : r.action_ = .del <;> simp_all [addEntry, presentBelow]

theorem insertIfNew_absent (entries : Entries Key) (key : Key) (r : Record)
    (absent : entries[key]? = none) : entries.insertIfNew key r = entries.insert key r := by
  apply ExtTreeMap.ext_getElem?
  intro other
  have fresh : key ∉ entries := by simpa using absent
  rw [ExtTreeMap.getElem?_insertIfNew, ExtTreeMap.getElem?_insert]
  by_cases same : key = other
  · subst other
    simp [fresh]
  · simp [same]

theorem deleteEntry_entries (loadValue : Key → Option Value) (junk : ChangeAction)
    (parents : List (Entries Key)) (key : Key) (cache : Cache Key Value) :
    ∃ pointer, (deleteEntry loadValue junk parents key cache).2.entries_ =
      match cache.entries_[key]? with
      | some r =>
          if r.action_ = .del then cache.entries_
          else cache.entries_.insert key { r with action_ := .del }
      | none =>
          if reported loadValue junk parents key = true then
            cache.entries_.insert key ⟨pointer, .del⟩
          else cache.entries_ := by
  cases own : cache.entries_[key]? with
  | some r =>
      refine ⟨0, ?_⟩
      by_cases deleted : r.action_ = .del
      · simp [deleteEntry, own, deleted]
      · -- the record just marked is the one the second lookup finds
        simp [deleteEntry, deleteEntry.tail, own, deleted, getRecord]
  | none =>
      have report := getRecord_reported loadValue junk (cache.entries_ :: parents) key cache.heap
      rw [reported_of_absent loadValue junk cache.entries_ parents key own] at report
      rcases answer : getRecord loadValue junk (cache.entries_ :: parents) key cache.heap with
        ⟨found, heap⟩
      rw [answer] at report
      cases found with
      | none => exact ⟨0, by simp_all [deleteEntry, deleteEntry.tail]⟩
      | some r =>
          refine ⟨r.value_, ?_⟩
          by_cases deleted : r.action_ = .del
          · simp_all [deleteEntry, deleteEntry.tail]
          · simp_all [deleteEntry, deleteEntry.tail, insertIfNew_absent]

end EChainLib.EntryCache
