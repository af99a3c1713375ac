import EChainLib.Support.Recency

/-! `lru_cache` of `lrucache.hpp`. A node of the list keeps its name, and an iterator is the name
of a node. `none` is a use of an iterator that no node has. -/

namespace EChainLib.Utils

open Recency (Distinct Included)

structure ListNode (K V : Type) where
  name : Nat
  key : K
  value : V

structure LruCache (K V : Type) where
  _cache_items_list : List (ListNode K V)
  /-- In any order. -/
  _cache_items_map : List (K × Nat)
  _max_size : Nat
  /-- The name of the next node. -/
  next : Nat

/-- The calls; `get` stands for both overloads. -/
inductive LruCall (K V : Type) where
  | put (key : K) (value : V)
  | get (key : K)
  | eraseIfExists (key : K)
  | clear
  | exists (key : K)
  | size
  | getList

inductive LruAnswer (K V : Type) where
  | done
  /-- `none` is `false`, or the `std::range_error`. -/
  | value (value : Option V)
  | found (found : Bool)
  | size (size : Nat)
  | list (entries : List (K × V))

namespace LruCache

variable {K V : Type}

def new (max_size : Nat) : LruCache K V := ⟨[], [], max_size, 0⟩

/-- `_cache_items_list.erase(it)`. -/
def eraseNode (list : List (ListNode K V)) (it : Nat) : Option (List (ListNode K V)) :=
  if list.any fun node => node.name = it then some (list.eraseP fun node => node.name = it)
  else none

/-- `splice` of a node to the front, with the node. -/
def spliceNode (list : List (ListNode K V)) (it : Nat) :
    Option (ListNode K V × List (ListNode K V)) :=
  (list.find? fun node => node.name = it).map fun node =>
    (node, node :: list.eraseP fun node => node.name = it)

def contents (cache : LruCache K V) : List (K × V) :=
  cache._cache_items_list.map fun node => (node.key, node.value)

variable [DecidableEq K]

/-- `_cache_items_map.erase(key)`. -/
def eraseKey (map : List (K × Nat)) (key : K) : List (K × Nat) :=
  map.filter fun entry => entry.1 ≠ key

def eraseIfExists (cache : LruCache K V) (key : K) : Option (LruCache K V) :=
  match cache._cache_items_map.lookup key with
  | none => some cache
  | some it => do
      let list ← eraseNode cache._cache_items_list it
      return { cache with
        _cache_items_list := list
        _cache_items_map := eraseKey cache._cache_items_map key }

def put (cache : LruCache K V) (key : K) (value : V) : Option (LruCache K V) := do
  -- the first branch of `put` is `erase_if_exists`
  let cache ← cache.eraseIfExists key
  let list := ⟨cache.next, key, value⟩ :: cache._cache_items_list
  let map := (key, cache.next) :: eraseKey cache._cache_items_map key
  if map.length > cache._max_size then
    let last ← list.getLast?
    return ⟨list.dropLast, eraseKey map last.key, cache._max_size, cache.next + 1⟩
  else return ⟨list, map, cache._max_size, cache.next + 1⟩

def get (cache : LruCache K V) (key : K) : Option (LruCache K V × Option V) :=
  match cache._cache_items_map.lookup key with
  | none => some (cache, none)
  | some it => do
      let (node, list) ← spliceNode cache._cache_items_list it
      return ({ cache with _cache_items_list := list }, some node.value)

def step (cache : LruCache K V) : LruCall K V → Option (LruCache K V × LruAnswer K V)
  | .put key value => (cache.put key value).map fun cache => (cache, .done)
  | .get key => (cache.get key).map fun (cache, value) => (cache, .value value)
  | .eraseIfExists key => (cache.eraseIfExists key).map fun cache => (cache, .done)
  | .clear => some ({ cache with _cache_items_list := [], _cache_items_map := [] }, .done)
  | .exists key => some (cache, .found (cache._cache_items_map.lookup key).isSome)
  | .size => some (cache, .size cache._cache_items_map.length)
  | .getList => some (cache, .list cache.contents)

def run (cache : LruCache K V) :
    List (LruCall K V) → Option (LruCache K V × List (LruAnswer K V))
  | [] => some (cache, [])
  | call :: rest => do
      let (cache, answer) ← cache.step call
      let (cache, answers) ← cache.run rest
      return (cache, answer :: answers)

end LruCache

/-! The entries in the order of their last use. -/

variable {K V : Type} [DecidableEq K]

/-- What a call is for. -/
def LruCall.apply (room : Nat) (entries : List (K × V)) :
    LruCall K V → List (K × V) × LruAnswer K V
  | .put key value => (Recency.put room key value entries, .done)
  | .get key => (Recency.touch key entries, .value (entries.lookup key))
  | .eraseIfExists key => (Recency.without key entries, .done)
  | .clear => ([], .done)
  | .exists key => (entries, .found (entries.lookup key).isSome)
  | .size => (entries, .size entries.length)
  | .getList => (entries, .list entries)

/-- The calls one after the other. -/
def applyCalls (room : Nat) :
    List (K × V) → List (LruCall K V) → List (K × V) × List (LruAnswer K V)
  | entries, [] => (entries, [])
  | entries, call :: rest =>
      let (entries, answer) := call.apply room entries
      let (entries, answers) := applyCalls room entries rest
      (entries, answer :: answers)

namespace LruCache

/-- The map has the key of each node with an iterator to it, and the keys are all different. -/
structure Invariant (cache : LruCache K V) : Prop where
  distinct : Distinct cache.contents
  names : (cache._cache_items_list.map ListNode.name).Nodup
  older : ∀ node ∈ cache._cache_items_list, node.name < cache.next
  indexed : cache._cache_items_map.Perm
    (cache._cache_items_list.map fun node => (node.key, node.name))

variable {cache : LruCache K V} {key : K} {value : V}

omit [DecidableEq K] in
theorem mem_contents {list : List (ListNode K V)} {node : ListNode K V} (member : node ∈ list) :
    (node.key, node.value) ∈ list.map fun node => (node.key, node.value) :=
  List.mem_map.mpr ⟨node, member, rfl⟩

/-- With different names and keys, taking away by name is taking away by key. -/
theorem eraseP_name {list : List (ListNode K V)} (distinct : (list.map ListNode.key).Nodup)
    (names : (list.map ListNode.name).Nodup) {node : ListNode K V} (member : node ∈ list) :
    list.eraseP (fun other => other.name = node.name) =
      list.filter fun other => other.key ≠ node.key := by
  induction list with
  | nil => cases member
  | cons head rest ih =>
      obtain ⟨key_apart, later_keys⟩ := List.nodup_cons.mp distinct
      obtain ⟨name_apart, later_names⟩ := List.nodup_cons.mp names
      rcases List.mem_cons.mp member with rfl | in_rest
      · have others : rest.filter (fun other => other.key ≠ node.key) = rest := by
          refine List.filter_eq_self.mpr fun other there => ?_
          rw [decide_eq_true_eq]
          intro same
          exact key_apart (same ▸ List.mem_map_of_mem there)
        rw [List.eraseP_cons_of_pos (by simp), List.filter_cons_of_neg (by simp), others]
      · have other_name : head.name ≠ node.name := fun same =>
          name_apart (same ▸ List.mem_map_of_mem in_rest)
        have other_key : head.key ≠ node.key := fun same =>
          key_apart (same ▸ List.mem_map_of_mem in_rest)
        rw [List.eraseP_cons_of_neg (by simpa using other_name),
          List.filter_cons_of_pos (by simpa using other_key), ih later_keys later_names in_rest]

namespace Invariant

omit [DecidableEq K] in
theorem keys (invariant : cache.Invariant) : (cache._cache_items_list.map ListNode.key).Nodup := by
  have distinct := invariant.distinct
  rw [Distinct, contents, List.map_map] at distinct
  exact distinct

omit [DecidableEq K] in
theorem map_distinct (invariant : cache.Invariant) : Distinct cache._cache_items_map := by
  have same := (invariant.indexed.map Prod.fst).nodup_iff
  rw [List.map_map] at same
  exact same.mpr invariant.keys

/-- What the map finds is the node of the key. -/
theorem found (invariant : cache.Invariant) {it : Nat}
    (found : cache._cache_items_map.lookup key = some it) :
    ∃ node ∈ cache._cache_items_list, node.key = key ∧ node.name = it ∧
      cache.contents.lookup key = some node.value := by
  have member := (Recency.lookup_iff invariant.map_distinct).mp found
  obtain ⟨node, there, same⟩ := List.mem_map.mp (invariant.indexed.subset member)
  obtain ⟨rfl, rfl⟩ := Prod.mk.inj same
  exact ⟨node, there, rfl, rfl, (Recency.lookup_iff invariant.distinct).mpr (mem_contents there)⟩

theorem absent (invariant : cache.Invariant) :
    cache._cache_items_map.lookup key = none ↔ cache.contents.lookup key = none := by
  constructor
  · intro nothing
    refine Recency.lookup_none_iff.mpr fun value member => ?_
    obtain ⟨node, there, same⟩ := List.mem_map.mp member
    obtain ⟨rfl, -⟩ := Prod.mk.inj same
    refine Recency.lookup_none_iff.mp nothing node.name (invariant.indexed.symm.subset ?_)
    exact List.mem_map.mpr ⟨node, there, rfl⟩
  · intro nothing
    cases found : cache._cache_items_map.lookup key with
    | none => rfl
    | some it =>
        obtain ⟨node, -, -, -, present⟩ := invariant.found found
        cases nothing.symm.trans present

omit [DecidableEq K] in
theorem size (invariant : cache.Invariant) :
    cache._cache_items_map.length = cache.contents.length := by
  rw [invariant.indexed.length_eq, contents, List.length_map, List.length_map]

end Invariant

theorem contents_filter (list : List (ListNode K V)) (key : K) :
    ((list.filter fun node => node.key ≠ key).map fun node => (node.key, node.value)) =
      Recency.without key (list.map fun node => (node.key, node.value)) := by
  rw [Recency.without, List.filter_map]
  rfl

theorem index_filter (list : List (ListNode K V)) (key : K) :
    ((list.filter fun node => node.key ≠ key).map fun node => (node.key, node.name)) =
      eraseKey (list.map fun node => (node.key, node.name)) key := by
  rw [eraseKey, List.filter_map]
  rfl

/-- Taking a key away, from the list and the map. -/
theorem Invariant.without (invariant : cache.Invariant) (key : K) :
    Invariant { cache with
      _cache_items_list := cache._cache_items_list.filter fun node => node.key ≠ key
      _cache_items_map := eraseKey cache._cache_items_map key } := by
  refine ⟨?_, ?_, ?_, ?_⟩
  · have fewer := contents_filter cache._cache_items_list key
    rw [contents, fewer]
    exact invariant.distinct.sublist (Recency.without_sublist _ _)
  · exact invariant.names.sublist (List.filter_sublist.map _)
  · exact fun node member => invariant.older node (List.mem_of_mem_filter member)
  · rw [index_filter]
    exact invariant.indexed.filter _

omit [DecidableEq K] in
/-- The node of a name, and the list with it in front. -/
theorem spliceNode_eq {list : List (ListNode K V)} (names : (list.map ListNode.name).Nodup)
    {node : ListNode K V} (member : node ∈ list) :
    spliceNode list node.name =
        some (node, node :: list.eraseP fun other => other.name = node.name) ∧
      (node :: list.eraseP fun other => other.name = node.name).Perm list := by
  have unique : ∀ other ∈ list, other.name = node.name → other = node := fun other there same =>
    List.inj_on_of_nodup_map names there member same
  constructor
  · cases found : list.find? fun other => other.name = node.name with
    | none => simpa using List.find?_eq_none.mp found node member
    | some other =>
        have same := unique other (List.mem_of_find?_eq_some found)
          (by simpa using List.find?_some found)
        rw [spliceNode, found, same]
        rfl
  · obtain ⟨other, before, after, -, same, rfl, erased⟩ :=
      List.exists_of_eraseP member (p := fun other => decide (other.name = node.name)) (by simp)
    obtain rfl := unique other (by simp) (by simpa using same)
    rw [erased]
    exact List.perm_middle.symm

/-- A cache that keeps its invariant and has these entries, no more than it has room for. -/
structure Stands (room : Nat) (cache : LruCache K V) (entries : List (K × V)) : Prop where
  invariant : cache.Invariant
  contents : cache.contents = entries
  bound : cache._max_size = room
  small : entries.length ≤ room

variable {room : Nat} {entries : List (K × V)}

theorem eraseIfExists_stands (stands : Stands room cache entries) (key : K) :
    ∃ after, cache.eraseIfExists key = some after ∧
      Stands room after (Recency.without key entries) := by
  obtain ⟨invariant, rfl, rfl, small⟩ := stands
  have smaller := (Recency.without_sublist key cache.contents).length_le.trans small
  cases found : cache._cache_items_map.lookup key with
  | none =>
      refine ⟨cache, by simp [eraseIfExists, found], invariant, ?_, rfl, smaller⟩
      rw [Recency.without_absent (invariant.absent.mp found)]
  | some it =>
      obtain ⟨node, member, rfl, rfl, -⟩ := invariant.found found
      have known : (cache._cache_items_list.any fun other => other.name = node.name) = true :=
        List.any_eq_true.mpr ⟨node, member, decide_eq_true rfl⟩
      have erased : eraseNode cache._cache_items_list node.name =
          some (cache._cache_items_list.filter fun other => other.key ≠ node.key) := by
        rw [eraseNode, if_pos known, eraseP_name invariant.keys invariant.names member]
      refine ⟨_, by simp only [eraseIfExists, found, erased]; rfl, invariant.without node.key, ?_, rfl,
        smaller⟩
      exact contents_filter _ _

theorem get_stands (stands : Stands room cache entries) (key : K) :
    ∃ after, cache.get key = some (after, entries.lookup key) ∧
      Stands room after (Recency.touch key entries) := by
  obtain ⟨invariant, rfl, rfl, small⟩ := stands
  have same_length := Recency.touch_length invariant.distinct key
  cases found : cache._cache_items_map.lookup key with
  | none =>
      have nothing := invariant.absent.mp found
      refine ⟨cache, by simp [get, found, nothing], invariant, ?_, rfl, same_length.trans_le small⟩
      rw [Recency.touch, nothing]
  | some it =>
      obtain ⟨node, member, rfl, rfl, present⟩ := invariant.found found
      obtain ⟨spliced, perm⟩ := spliceNode_eq invariant.names member
      rw [eraseP_name invariant.keys invariant.names member] at spliced perm
      have touched : Recency.touch node.key cache.contents =
          (node.key, node.value) :: Recency.without node.key cache.contents := by
        rw [Recency.touch, present]
      have moved : ((node :: cache._cache_items_list.filter fun other => other.key ≠ node.key).map
          fun node => (node.key, node.value)) = Recency.touch node.key cache.contents := by
        rw [List.map_cons, contents_filter, touched]
        rfl
      have got : cache.get node.key = some ({ cache with
          _cache_items_list :=
            node :: cache._cache_items_list.filter fun other => other.key ≠ node.key },
          cache.contents.lookup node.key) := by
        rw [present]
        simp only [get, found, spliced]
        rfl
      refine ⟨_, got, ⟨?_, ?_, ?_, ?_⟩, moved, rfl, same_length.trans_le small⟩
      · rw [contents, moved]
        exact invariant.distinct.touch node.key
      · exact (perm.map ListNode.name).nodup_iff.mpr invariant.names
      · exact fun other there => invariant.older other (perm.subset there)
      · exact invariant.indexed.trans (perm.symm.map _)

/-- A new node in front. -/
theorem Invariant.pushed (invariant : cache.Invariant) (value : V)
    (absent : cache.contents.lookup key = none) :
    Invariant { cache with
      _cache_items_list := ⟨cache.next, key, value⟩ :: cache._cache_items_list
      _cache_items_map := (key, cache.next) :: eraseKey cache._cache_items_map key
      next := cache.next + 1 } := by
  have same : eraseKey cache._cache_items_map key = cache._cache_items_map :=
    Recency.without_absent (invariant.absent.mpr absent)
  have kept := invariant.distinct.cons_without key value
  rw [Recency.without_absent absent] at kept
  refine ⟨kept, ?_, ?_, ?_⟩
  · refine List.nodup_cons.mpr ⟨fun member => ?_, invariant.names⟩
    obtain ⟨node, there, same_name⟩ := List.mem_map.mp member
    exact absurd same_name (invariant.older node there).ne
  · intro node member
    rcases List.mem_cons.mp member with rfl | old
    · exact Nat.lt_succ_self _
    · exact (invariant.older node old).trans (Nat.lt_succ_self _)
  · rw [same]
    exact invariant.indexed.cons _

/-- With different keys, taking the last key away takes the last node away. -/
theorem filter_last {list : List (ListNode K V)} {last : ListNode K V}
    (keys : (list.map ListNode.key).Nodup) (ends : list.getLast? = some last) :
    (list.filter fun node => node.key ≠ last.key) = list.dropLast := by
  obtain ⟨before, rfl⟩ := List.getLast?_eq_some_iff.mp ends
  rw [List.map_append, List.nodup_append] at keys
  have others : before.filter (fun node => node.key ≠ last.key) = before := by
    refine List.filter_eq_self.mpr fun node there => ?_
    rw [decide_eq_true_eq]
    exact keys.2.2 _ (List.mem_map_of_mem there) _ (List.mem_singleton.mpr rfl)
  rw [List.filter_append, others, List.filter_cons_of_neg (by simp), List.dropLast_concat]
  exact List.append_nil before

theorem put_stands (stands : Stands room cache entries) (key : K) (value : V) :
    ∃ after, cache.put key value = some after ∧
      Stands room after (Recency.put room key value entries) := by
  obtain ⟨middle, erased, invariant, middle_contents, rfl, small⟩ := eraseIfExists_stands stands key
  have absent : middle.contents.lookup key = none := by
    rw [middle_contents]
    exact Recency.lookup_none_iff.mpr fun value member => (Recency.mem_without.mp member).2 rfl
  have pushed := invariant.pushed value absent
  have pushed_size := pushed.size
  rw [contents, List.length_map] at pushed_size
  have length : middle._cache_items_list.length = (Recency.without key entries).length := by
    rw [← middle_contents, contents, List.length_map]
  have pushed_contents : ((⟨middle.next, key, value⟩ :: middle._cache_items_list).map
      fun node => (node.key, node.value)) = (key, value) :: Recency.without key entries := by
    rw [← middle_contents]
    rfl
  have room_for : (Recency.put middle._max_size key value entries).length ≤ middle._max_size :=
    List.length_take_le _ _
  simp only [put, erased, Option.bind_eq_bind, Option.bind_some]
  split_ifs with overflow
  · cases ends : (⟨middle.next, key, value⟩ :: middle._cache_items_list).getLast? with
    | none => simp at ends
    | some last =>
        have shorter := filter_last pushed.keys ends
        have evicted := pushed.without last.key
        simp only [shorter] at evicted
        refine ⟨_, rfl, evicted, ?_, rfl, room_for⟩
        have dropped : (⟨middle.next, key, value⟩ :: middle._cache_items_list).dropLast.map
            (fun node => (node.key, node.value)) =
              ((key, value) :: Recency.without key entries).dropLast := by
          rw [List.map_dropLast, pushed_contents]
        rw [contents, dropped, Recency.put, List.dropLast_eq_take, List.length_cons]
        congr 1
        simp only [List.length_cons] at pushed_size overflow
        omega
  · refine ⟨_, rfl, pushed, ?_, rfl, room_for⟩
    rw [contents, pushed_contents, Recency.put, List.take_of_length_le]
    rw [List.length_cons]
    simp only [List.length_cons] at pushed_size overflow
    omega

theorem step_stands (stands : Stands room cache entries) (call : LruCall K V) :
    ∃ after, cache.step call = some (after, (call.apply room entries).2) ∧
      Stands room after (call.apply room entries).1 := by
  cases call with
  | put key value =>
      obtain ⟨after, done, after_stands⟩ := put_stands stands key value
      exact ⟨after, by rw [step, done]; rfl, after_stands⟩
  | get key =>
      obtain ⟨after, done, after_stands⟩ := get_stands stands key
      exact ⟨after, by rw [step, done]; rfl, after_stands⟩
  | eraseIfExists key =>
      obtain ⟨after, done, after_stands⟩ := eraseIfExists_stands stands key
      exact ⟨after, by rw [step, done]; rfl, after_stands⟩
  | clear =>
      refine ⟨_, rfl, ⟨List.nodup_nil, List.nodup_nil, ?_, .nil⟩, rfl, stands.bound, Nat.zero_le _⟩
      rintro node ⟨⟩
  | «exists» key =>
      refine ⟨cache, ?_, stands⟩
      have same : (cache._cache_items_map.lookup key).isSome = (entries.lookup key).isSome := by
        rw [Bool.eq_iff_iff, Option.isSome_iff_ne_none, Option.isSome_iff_ne_none, Ne, Ne,
          stands.invariant.absent, stands.contents]
      rw [step, same]
      rfl
  | size =>
      refine ⟨cache, ?_, stands⟩
      rw [step, stands.invariant.size, stands.contents]
      rfl
  | getList =>
      refine ⟨cache, ?_, stands⟩
      rw [step, stands.contents]
      rfl

theorem run_stands (stands : Stands room cache entries) (calls : List (LruCall K V)) :
    ∃ after, cache.run calls = some (after, (applyCalls room entries calls).2) ∧
      Stands room after (applyCalls room entries calls).1 := by
  induction calls generalizing cache entries with
  | nil => exact ⟨cache, rfl, stands⟩
  | cons call rest ih =>
      obtain ⟨middle, done, middle_stands⟩ := step_stands stands call
      obtain ⟨after, later, after_stands⟩ := ih middle_stands
      refine ⟨after, ?_, after_stands⟩
      rw [run, done]
      simp only [Option.bind_eq_bind, Option.bind_some, later]
      rfl

omit [DecidableEq K] in
theorem new_stands (max_size : Nat) : Stands max_size (new max_size : LruCache K V) [] := by
  refine ⟨⟨List.nodup_nil, List.nodup_nil, ?_, .nil⟩, rfl, rfl, Nat.zero_le _⟩
  rintro node ⟨⟩

end LruCache

/-- What was put last for each key, and not erased since. -/
def LruCall.record (recorded : K → Option V) : LruCall K V → K → Option V
  | .put key value => Function.update recorded key (some value)
  | .eraseIfExists key => Function.update recorded key none
  | .clear => fun _ => none
  | _ => recorded

def Current (recorded : K → Option V) (entries : List (K × V)) : Prop :=
  ∀ key value, (key, value) ∈ entries → recorded key = some value

theorem Current.apply {recorded : K → Option V} {entries : List (K × V)}
    (current : Current recorded entries) (room : Nat) (call : LruCall K V) :
    Current (call.record recorded) (call.apply room entries).1 := by
  intro key value member
  cases call with
  | put changed new_value =>
      rcases List.mem_cons.mp (List.mem_of_mem_take member) with new | old
      · obtain ⟨rfl, rfl⟩ := Prod.mk.inj new
        exact Function.update_self _ _ _
      · obtain ⟨there, other⟩ := Recency.mem_without.mp old
        exact (Function.update_of_ne other _ _).trans (current key value there)
  | get used =>
      refine current key value ?_
      rw [LruCall.apply, Recency.touch] at member
      cases present : entries.lookup used with
      | none => simpa only [present] using member
      | some found =>
          simp only [present] at member
          rcases List.mem_cons.mp member with first | later
          · obtain ⟨rfl, rfl⟩ := Prod.mk.inj first
            obtain ⟨before, after, rfl, -⟩ := List.lookup_eq_some_iff.mp present
            simp
          · exact (Recency.mem_without.mp later).1
  | eraseIfExists erased =>
      obtain ⟨there, other⟩ := Recency.mem_without.mp member
      exact (Function.update_of_ne other _ _).trans (current key value there)
  | clear => cases member
  | «exists» _ | size | getList => exact current key value member

theorem Current.applyCalls {recorded : K → Option V} {entries : List (K × V)}
    (current : Current recorded entries) (room : Nat) (calls : List (LruCall K V)) :
    Current (calls.foldl LruCall.record recorded) (applyCalls room entries calls).1 := by
  induction calls generalizing recorded entries with
  | nil => exact current
  | cons call rest ih => exact ih (current.apply room call)

/-- The cache after these calls: it has the entries used last, as many as there is room for, with
what was put last for their keys, and answered accordingly. -/
structure LruServes (room : Nat) (calls : List (LruCall K V)) (cache : LruCache K V)
    (answers : List (LruAnswer K V)) : Prop where
  contents : cache.contents = (applyCalls room [] calls).1
  answered : answers = (applyCalls room [] calls).2
  distinct : Distinct cache.contents
  small : cache.contents.length ≤ room
  current : Current (calls.foldl LruCall.record fun _ => none) cache.contents

theorem lruCache_serves (room : Nat) (calls : List (LruCall K V)) :
    ∃ cache answers, (LruCache.new room).run calls = some (cache, answers) ∧
      LruServes room calls cache answers := by
  obtain ⟨cache, done, stands⟩ := LruCache.run_stands (LruCache.new_stands room) calls
  have nothing : Current (fun _ => none) ([] : List (K × V)) := fun key value member => by
    cases member
  refine ⟨cache, _, done, stands.contents, rfl, stands.invariant.distinct, ?_, ?_⟩
  · rw [stands.contents]
    exact stands.small
  · rw [stands.contents]
    exact nothing.applyCalls room calls

/-! A cache with more room. -/

/-- A hit stays the same hit. -/
def LruAnswer.Covers (answer other : LruAnswer K V) : Prop :=
  (∀ value, answer = .value (some value) → other = .value (some value)) ∧
    (answer = .found true → other = .found true)

variable {little much : Nat} {smaller larger : List (K × V)}

theorem included_apply (included : Included little much smaller larger) (distinct : Distinct larger)
    (small : smaller.length ≤ little) (call : LruCall K V) :
    Included little much (call.apply little smaller).1 (call.apply much larger).1 ∧
      (call.apply little smaller).2.Covers (call.apply much larger).2 := by
  cases call with
  | put key value =>
      exact ⟨included.put distinct small key value, by simp [LruCall.apply, LruAnswer.Covers]⟩
  | get key =>
      refine ⟨included.touch distinct key, fun value hit => ?_, by simp [LruCall.apply]⟩
      have found : smaller.lookup key = some value := by simpa [LruCall.apply] using hit
      rw [LruCall.apply, included.hit distinct found]
  | eraseIfExists key =>
      exact ⟨included.erase distinct key, by simp [LruCall.apply, LruAnswer.Covers]⟩
  | clear =>
      have less : little ≤ much := by
        have lacks := included.lacks
        have within := included.within.length_le
        omega
      exact ⟨.nil less, by simp [LruCall.apply, LruAnswer.Covers]⟩
  | «exists» key =>
      refine ⟨included, by simp [LruCall.apply], fun hit => ?_⟩
      have found : (smaller.lookup key).isSome = true := by simpa [LruCall.apply] using hit
      obtain ⟨value, present⟩ := Option.isSome_iff_exists.mp found
      rw [LruCall.apply, included.hit distinct present]
      rfl
  | size => exact ⟨included, by simp [LruCall.apply, LruAnswer.Covers]⟩
  | getList => exact ⟨included, by simp [LruCall.apply, LruAnswer.Covers]⟩

theorem apply_kept (distinct : Distinct smaller) (small : smaller.length ≤ little)
    (call : LruCall K V) :
    Distinct (call.apply little smaller).1 ∧ (call.apply little smaller).1.length ≤ little := by
  cases call with
  | put key value => exact ⟨distinct.put little key value, List.length_take_le _ _⟩
  | get key => exact ⟨distinct.touch key, (Recency.touch_length distinct key).trans_le small⟩
  | eraseIfExists key =>
      have within := Recency.without_sublist key smaller
      exact ⟨distinct.sublist within, within.length_le.trans small⟩
  | clear => exact ⟨List.nodup_nil, Nat.zero_le _⟩
  | «exists» _ | size | getList => exact ⟨distinct, small⟩

theorem included_applyCalls (included : Included little much smaller larger)
    (distinct : Distinct larger) (small : smaller.length ≤ little) (calls : List (LruCall K V)) :
    (applyCalls little smaller calls).1.Sublist (applyCalls much larger calls).1 ∧
      List.Forall₂ LruAnswer.Covers (applyCalls little smaller calls).2
        (applyCalls much larger calls).2 := by
  induction calls generalizing smaller larger with
  | nil => exact ⟨included.within, .nil⟩
  | cons call rest ih =>
      obtain ⟨next, covers⟩ := included_apply included distinct small call
      have larger_kept := apply_kept distinct included.full call
      have smaller_kept := apply_kept (distinct.sublist included.within) small call
      obtain ⟨within, later⟩ := ih next larger_kept.1 smaller_kept.2
      exact ⟨within, .cons covers later⟩

/-- More room never loses a hit: after the same calls the larger cache has what the smaller one
has, in the same order, and has answered its hits alike. -/
theorem lruCache_larger_hits (room more : Nat) (calls : List (LruCall K V)) :
    ∃ smaller larger answers other_answers,
      (LruCache.new room).run calls = some (smaller, answers) ∧
        (LruCache.new (room + more)).run calls = some (larger, other_answers) ∧
          smaller.contents.Sublist larger.contents ∧
            List.Forall₂ LruAnswer.Covers answers other_answers := by
  obtain ⟨smaller, done, stands⟩ := LruCache.run_stands (LruCache.new_stands room) calls
  obtain ⟨larger, larger_done, larger_stands⟩ :=
    LruCache.run_stands (LruCache.new_stands (room + more)) calls
  have start : Included room (room + more) ([] : List (K × V)) [] := .nil (Nat.le_add_right _ _)
  obtain ⟨within, covers⟩ := included_applyCalls start List.nodup_nil (Nat.zero_le _) calls
  refine ⟨smaller, larger, _, _, done, larger_done, ?_, covers⟩
  rw [stands.contents, larger_stands.contents]
  exact within

end EChainLib.Utils
