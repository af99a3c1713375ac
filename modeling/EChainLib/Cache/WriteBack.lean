import Mathlib
import EChainLib.Support.Overlay
import EChainLib.Support.Run
import EChainLib.Cache.Merge

/-! A branch lives on top of a parent that is not touched until the merge. The
calls on the branch decide key by key which action its record ends with; the
merge then writes the branch's view back unless that action has no place in the
parent's table. -/

namespace EChainLib.EntryCache

variable {Key Value : Type*} [LinearOrder Key]

/-- A call on the branch, or an edit through a pointer it has handed out. Every
call has its own uninitialised `Record r;`. -/
inductive Call (Key Value : Type*) where
  | getEntry (junk : ChangeAction) (key : Key)
  | addEntry (junk : ChangeAction) (key : Key) (pval : Pointer)
  | deleteEntry (junk : ChangeAction) (key : Key)
  | edit (pointer : Pointer) (value : Value)

def perform (loadValue : Key → Option Value) (parents : List (Entries Key))
    (cache : Cache Key Value) : Call Key Value → Cache Key Value
  | .getEntry junk key => (getEntry loadValue junk parents key cache).2
  | .addEntry junk key pval => (addEntry loadValue junk parents key pval cache).2
  | .deleteEntry junk key => (deleteEntry loadValue junk parents key cache).2
  | .edit pointer value => { cache with heap := cache.heap.edit pointer value }

/-- A branch created empty on top of `parents`, after the calls. -/
def branchAfter (loadValue : Key → Option Value) (parents : List (Entries Key))
    (heap : Heap Value) (calls : List (Call Key Value)) : Cache Key Value :=
  Run.final (perform loadValue parents) { entries_ := ∅, heap := heap } calls

/-- The AddEntry (`true`) and DeleteEntry (`false`) calls on one key. -/
def Call.change (key : Key) : Call Key Value → Option Bool
  | .addEntry _ other _ => if other = key then some true else none
  | .deleteEntry _ other => if other = key then some false else none
  | _ => none

def changes (key : Key) (calls : List (Call Key Value)) : List Bool :=
  calls.filterMap (Call.change key)

/-- The parent holds a record the branch cannot be merged over: the key is
deleted in the parent and was added and then deleted in the branch, or it is
added in the parent over a level that has it and was deleted in the branch. -/
def Clash (loadValue : Key → Option Value) (own : Entries Key) (parents : List (Entries Key))
    (calls : List (Call Key Value)) (key : Key) : Prop :=
  (changes key calls).getLast? = some false ∧ ∃ x, own[key]? = some x ∧
    ((x.action_ = .del ∧ true ∈ changes key calls) ∨
      (x.action_ = .add ∧ visible loadValue parents key = true))

/-- What the calls so far have made of one key's record in the branch, given the
parent's record of the key. -/
structure Tracks (parent : Option Record) (so_far : List Bool) (branch : Option Record) : Prop where
  never_keep : ∀ r, branch = some r → r.action_ ≠ .keep
  no_add_over : ∀ x, parent = some x → x.action_ ≠ .del → ∀ r, branch = some r → r.action_ ≠ .add
  added_over_del : ∀ x, parent = some x → x.action_ = .del → (branch ≠ none ↔ true ∈ so_far)
  ends_in_del : ∀ x, parent = some x → x.action_ = .del ∨ x.action_ = .add →
    ((∃ r, branch = some r ∧ r.action_ = .del) ↔
      so_far.getLast? = some false ∧ (x.action_ = .del → true ∈ so_far))

theorem tracks_start (parent : Option Record) : Tracks parent [] none :=
  ⟨by simp, by simp, by simp, by simp⟩

section OneCall

variable (loadValue : Key → Option Value) (own : Entries Key) (above : List (Entries Key))

theorem presentBelow_of_record (junk : ChangeAction) (key : Key) (x : Record)
    (found : own[key]? = some x) :
    presentBelow loadValue junk (own :: above) key = decide (x.action_ ≠ .del) :=
  reported_of_record loadValue junk own above key x found

theorem getEntry_tracks (junk : ChangeAction) (key at_key : Key) (cache : Cache Key Value)
    (so_far : List Bool) (tracks : Tracks own[key]? so_far cache.entries_[key]?) :
    Tracks own[key]? so_far
      (getEntry loadValue junk (own :: above) at_key cache).2.entries_[key]? := by
  obtain ⟨pointer, result⟩ := getEntry_entries loadValue junk (own :: above) at_key cache
  rw [result]
  split
  case isFalse => exact tracks
  case isTrue hit =>
    obtain ⟨absent, present⟩ := hit
    by_cases same : at_key = key
    · subst same
      rw [lookup_insert, if_pos rfl]
      rw [absent] at tracks
      constructor
      · simp
      · simp
      · intro x found deleted
        rw [presentBelow_of_record loadValue own above junk at_key x found] at present
        simp [deleted] at present
      · intro x found _
        have unchanged := tracks.ends_in_del x found ‹_›
        simpa using unchanged
    · rw [lookup_insert, if_neg same]
      exact tracks

theorem addEntry_tracks (junk : ChangeAction) (key at_key : Key) (pval : Pointer)
    (cache : Cache Key Value) (so_far : List Bool)
    (tracks : Tracks own[key]? so_far cache.entries_[key]?) :
    Tracks own[key]?
      (so_far ++ (Call.change key (.addEntry junk at_key pval : Call Key Value)).toList)
      (addEntry loadValue junk (own :: above) at_key pval cache).2.entries_[key]? := by
  rw [addEntry_entries]
  by_cases same : at_key = key
  · subst same
    simp only [Call.change, if_true, Option.toList_some]
    cases found : cache.entries_[at_key]? with
    | some r =>
        rw [found] at tracks
        by_cases deleted : r.action_ = .del
        · simp only [deleted, if_true, lookup_insert]
          constructor
          · simp
          · simp
          · simp
          · simp
        · simp only [deleted, if_false, found]
          constructor
          · exact tracks.never_keep
          · exact tracks.no_add_over
          · simp
          · simp [deleted]
    | none =>
        rw [found] at tracks
        by_cases present : presentBelow loadValue junk (own :: above) at_key = true
        · simp only [present, if_true, found]
          constructor
          · simp
          · simp
          · intro x parent deleted
            rw [presentBelow_of_record loadValue own above junk at_key x parent] at present
            simp [deleted] at present
          · simp
        · rw [if_neg present, lookup_insert, if_pos rfl]
          constructor
          · simp
          · intro x parent kept
            rw [presentBelow_of_record loadValue own above junk at_key x parent] at present
            simp [kept] at present
          · simp
          · simp
  · have elsewhere : ∀ r, (cache.entries_.insert at_key r)[key]? = cache.entries_[key]? :=
      fun r => by rw [lookup_insert, if_neg same]
    simp only [Call.change, same, if_false, Option.toList_none, List.append_nil]
    split <;> split <;> simpa only [elsewhere] using tracks

theorem deleteEntry_tracks (junk : ChangeAction) (key at_key : Key)
    (cache : Cache Key Value) (so_far : List Bool)
    (tracks : Tracks own[key]? so_far cache.entries_[key]?) :
    Tracks own[key]?
      (so_far ++ (Call.change key (.deleteEntry junk at_key : Call Key Value)).toList)
      (deleteEntry loadValue junk (own :: above) at_key cache).2.entries_[key]? := by
  obtain ⟨pointer, result⟩ := deleteEntry_entries loadValue junk (own :: above) at_key cache
  rw [result]
  -- only the record of the key changes, and that by what was found of it in the chain
  by_cases same : at_key = key
  · subst same
    simp only [Call.change, if_true, Option.toList_some]
    cases found : cache.entries_[at_key]? with
    | some r =>
        rw [found] at tracks
        have added : ∀ x, own[at_key]? = some x → x.action_ = .del → true ∈ so_far :=
          fun x parent deleted => (tracks.added_over_del x parent deleted).mp (by simp)
        by_cases deleted : r.action_ = .del
        · simp only [deleted, if_true, found]
          constructor
          · exact tracks.never_keep
          · exact tracks.no_add_over
          · intro x parent gone
            simp [added x parent gone]
          · intro x parent _
            simpa [deleted] using fun gone => added x parent gone
        · simp only [deleted, if_false, lookup_insert, if_true]
          constructor
          · simp
          · simp
          · intro x parent gone
            simp [added x parent gone]
          · intro x parent _
            simpa using fun gone => added x parent gone
    | none =>
        rw [found] at tracks
        by_cases present : reported loadValue junk (own :: above) at_key = true
        · simp only [present, if_true, lookup_insert]
          have shown : ∀ x, own[at_key]? = some x → x.action_ ≠ .del := by
            intro x parent
            rw [reported_of_record loadValue junk own above at_key x parent] at present
            simpa using present
          constructor
          · simp
          · simp
          · intro x parent gone
            exact absurd gone (shown x parent)
          · intro x parent _
            simpa using fun gone => absurd gone (shown x parent)
        · rw [if_neg present, found]
          have hidden : ∀ x, own[at_key]? = some x → x.action_ = .del := by
            intro x parent
            rw [reported_of_record loadValue junk own above at_key x parent] at present
            simpa using present
          have never_added : ∀ x, own[at_key]? = some x → true ∉ so_far := by
            intro x parent added
            exact (tracks.added_over_del x parent (hidden x parent)).mpr added rfl
          constructor
          · simp
          · simp
          · intro x parent _
            simp [never_added x parent]
          · intro x parent _
            simp [hidden x parent, never_added x parent]
  · have elsewhere : ∀ r, (cache.entries_.insert at_key r)[key]? = cache.entries_[key]? :=
      fun r => by rw [lookup_insert, if_neg same]
    simp only [Call.change, same, if_false, Option.toList_none, List.append_nil]
    split <;> split <;> simpa only [elsewhere] using tracks

theorem perform_tracks (call : Call Key Value) (key : Key) (cache : Cache Key Value)
    (so_far : List Bool) (tracks : Tracks own[key]? so_far cache.entries_[key]?) :
    Tracks own[key]? (so_far ++ (Call.change key call).toList)
      (perform loadValue (own :: above) cache call).entries_[key]? := by
  cases call with
  | getEntry junk at_key =>
      simpa [Call.change, perform] using
        getEntry_tracks loadValue own above junk key at_key cache so_far tracks
  | addEntry junk at_key pval =>
      exact addEntry_tracks loadValue own above junk key at_key pval cache so_far tracks
  | deleteEntry junk at_key =>
      exact deleteEntry_tracks loadValue own above junk key at_key cache so_far tracks
  | edit pointer value => simpa [Call.change, perform] using tracks

-- Induction on the calls; `Tracks` is what each of them hands to the next.
theorem calls_track (calls : List (Call Key Value)) (key : Key) (cache : Cache Key Value)
    (so_far : List Bool) (tracks : Tracks own[key]? so_far cache.entries_[key]?) :
    Tracks own[key]? (so_far ++ changes key calls)
      (Run.final (perform loadValue (own :: above)) cache calls).entries_[key]? := by
  induction calls generalizing cache so_far with
  | nil => simpa [changes, Run.final] using tracks
  | cons call rest ih =>
      have next := perform_tracks loadValue own above call key cache so_far tracks
      have later := ih (perform loadValue (own :: above) cache call) _ next
      have split : changes key (call :: rest) =
          (Call.change key call).toList ++ changes key rest := by
        cases made : Call.change key call <;> simp [changes, made]
      rw [split, ← List.append_assoc]
      exact later

end OneCall

/-- A merged cell shows what the branch record shows, or has been erased: the
branch deleted a key the parent had added. -/
theorem mergeCell_shown (heap : Heap Value) (parent : Option Record) (r : Record)
    (cell : Option Record) (merged : mergeCell parent r = some cell) (acts : r.action_ ≠ .keep) :
    cell.map (Record.shown heap) = some (r.shown heap) ∨
      (cell = none ∧ r.action_ = .del ∧ ∃ x, parent = some x ∧ x.action_ = .add) := by
  rcases r with ⟨pointer, action⟩
  cases parent with
  | none =>
      cases action <;> simp only [mergeCell, Option.some.injEq] at merged <;> subst cell
      case keep => exact absurd rfl acts
      all_goals simp
  | some x =>
      rcases x with ⟨old, was⟩
      cases action
      case keep => exact absurd rfl acts
      all_goals
        cases was <;>
          simp only [mergeCell, reduceCtorEq, if_true, if_false, Option.some.injEq] at merged <;>
          subst cell <;> simp [Record.shown]

section Merge

variable (loadValue : Key → Option Value) (own : Entries Key) (parents : List (Entries Key))
  (heap : Heap Value) (calls : List (Call Key Value))

theorem branch_tracks (key : Key) :
    Tracks own[key]? (changes key calls)
      (branchAfter loadValue (own :: parents) heap calls).entries_[key]? := by
  simpa [branchAfter] using
    calls_track loadValue own parents calls key ⟨∅, heap⟩ [] (tracks_start own[key]?)

/-- The branch can conflict with the parent in one way only. -/
theorem branch_conflict_iff (key : Key) :
    (∃ r, (branchAfter loadValue (own :: parents) heap calls).entries_[key]? = some r ∧
      Conflicts own[key]? r) ↔
    (changes key calls).getLast? = some false ∧ true ∈ changes key calls ∧
      ∃ x, own[key]? = some x ∧ x.action_ = .del := by
  have tracks := branch_tracks loadValue own parents heap calls key
  constructor
  · rintro ⟨r, found, x, parent, ⟨added, kept⟩ | ⟨deleted, gone⟩⟩
    · exact absurd added (tracks.no_add_over x parent kept r found)
    · obtain ⟨last, added⟩ := (tracks.ends_in_del x parent (Or.inl gone)).mp ⟨r, found, deleted⟩
      exact ⟨last, added gone, x, parent, gone⟩
  · rintro ⟨last, added, x, parent, gone⟩
    obtain ⟨r, found, deleted⟩ :=
      (tracks.ends_in_del x parent (Or.inl gone)).mpr ⟨last, fun _ => added⟩
    exact ⟨r, found, x, parent, Or.inr ⟨deleted, gone⟩⟩

/-- Where the merge goes through, it shows the branch's view of a key unless it
uncovers a key that the parent's own ADD had been hiding. -/
theorem merged_view_iff (key : Key)
    (merged : (mergeFromBranch own
      (branchAfter loadValue (own :: parents) heap calls).entries_).1 = true) :
    let branch := branchAfter loadValue (own :: parents) heap calls
    view loadValue branch.heap ((mergeFromBranch own branch.entries_).2 :: parents) key =
        view loadValue branch.heap (branch.entries_ :: own :: parents) key ↔
      ¬ ((changes key calls).getLast? = some false ∧ visible loadValue parents key = true ∧
        ∃ x, own[key]? = some x ∧ x.action_ = .add) := by
  intro branch
  have tracks := branch_tracks loadValue own parents heap calls key
  have cells := mergeFromBranch_cells own branch.entries_ merged key
  have below := view_isSome loadValue branch.heap parents key
  generalize result : (mergeFromBranch own branch.entries_).2 = after at cells
  change Overlay.overlay (layer branch.heap after) (view loadValue branch.heap parents) key =
    Overlay.overlay (layer branch.heap branch.entries_)
      (Overlay.overlay (layer branch.heap own) (view loadValue branch.heap parents)) key ↔ _
  cases found : branch.entries_[key]? with
  | none =>
      simp only [found] at cells
      have no_del : ∀ x, own[key]? = some x → x.action_ = .add →
          (changes key calls).getLast? ≠ some false := by
        intro x parent added last
        obtain ⟨r, hit, _⟩ := (tracks.ends_in_del x parent (Or.inr added)).mpr
          ⟨last, by simp [added]⟩
        rw [found] at hit
        cases hit
      have folded := Overlay.folds_exact (layer branch.heap after) (layer branch.heap branch.entries_)
        (layer branch.heap own) (view loadValue branch.heap parents) key
        (Or.inl (by simp [layer, Overlay.compose, found, cells]))
      simp only [folded, true_iff]
      rintro ⟨last, _, x, parent, added⟩
      exact no_del x parent added last
  | some r =>
      simp only [found] at cells
      have top : Overlay.compose (layer branch.heap branch.entries_) (layer branch.heap own) key =
          some (r.shown branch.heap) := by
        simp [Overlay.compose, layer, found]
      rcases mergeCell_shown branch.heap own[key]? r after[key]? cells (tracks.never_keep r found)
        with shown | ⟨erased, deleted, x, parent, added⟩
      · have folded := Overlay.folds_exact (layer branch.heap after)
          (layer branch.heap branch.entries_) (layer branch.heap own)
          (view loadValue branch.heap parents) key (Or.inl (by rw [top]; exact shown))
        simp only [folded, true_iff]
        rintro ⟨last, present, x, parent, added⟩
        obtain ⟨other, hit, gone⟩ := (tracks.ends_in_del x parent (Or.inr added)).mpr
          ⟨last, by simp [added]⟩
        rw [found, Option.some.injEq] at hit
        subst other
        -- DEL over ADD erases the record, so the merged cell shows nothing
        have erased : mergeCell (some x) r = some none := by simp [mergeCell, gone, added]
        rw [parent, erased, Option.some.injEq] at cells
        rw [← cells] at shown
        cases shown
      · have last := ((tracks.ends_in_del x parent (Or.inr added)).mp ⟨r, found, deleted⟩).1
        have hidden : r.shown branch.heap = none := by simp [Record.shown, deleted]
        have dropped : layer branch.heap after key = none := by simp [layer, erased]
        rw [hidden] at top
        cases base : view loadValue branch.heap parents key with
        | none =>
            have folded := Overlay.folds_exact (layer branch.heap after)
              (layer branch.heap branch.entries_) (layer branch.heap own)
              (view loadValue branch.heap parents) key (Or.inr ⟨dropped, top, base⟩)
            have absent : visible loadValue parents key = false := by rw [← below, base]; rfl
            simp [folded, absent]
        | some value =>
            have uncovered := Overlay.dropped_uncovers (layer branch.heap after)
              (layer branch.heap branch.entries_) (layer branch.heap own)
              (view loadValue branch.heap parents) key dropped top (by simp [base])
            have present : visible loadValue parents key = true := by rw [← below, base]; rfl
            simp only [uncovered, false_iff, not_not]
            exact ⟨last, present, x, parent, added⟩

/-- The merge succeeds and the parent then sees what the branch saw. -/
def WritesBack (loadValue : Key → Option Value) (own : Entries Key) (parents : List (Entries Key))
    (branch : Cache Key Value) : Prop :=
  (mergeFromBranch own branch.entries_).1 = true ∧
    ∀ key, view loadValue branch.heap ((mergeFromBranch own branch.entries_).2 :: parents) key =
      view loadValue branch.heap (branch.entries_ :: own :: parents) key

/-- Merging a branch into the parent it was created on writes the branch's view
back, except in the two clashes. -/
theorem merge_writes_back_iff :
    WritesBack loadValue own parents (branchAfter loadValue (own :: parents) heap calls) ↔
      ∀ key, ¬ Clash loadValue own parents calls key := by
  set branch := branchAfter loadValue (own :: parents) heap calls
  have free_iff := mergeFromBranch_true_iff own branch.entries_
  constructor
  · rintro ⟨merged, views⟩ key ⟨last, x, parent, ⟨gone, added⟩ | ⟨added, present⟩⟩
    · obtain ⟨r, found, conflict⟩ :=
        (branch_conflict_iff loadValue own parents heap calls key).mpr
          ⟨last, added, x, parent, gone⟩
      exact free_iff.mp merged key r found ((mergeCell_none_iff _ _).mpr conflict)
    · exact (merged_view_iff loadValue own parents heap calls key merged).mp (views key)
        ⟨last, present, x, parent, added⟩
  · intro clear
    have merged : (mergeFromBranch own branch.entries_).1 = true := by
      apply free_iff.mpr
      intro key r found conflict
      obtain ⟨last, added, x, parent, gone⟩ :=
        (branch_conflict_iff loadValue own parents heap calls key).mp
          ⟨r, found, (mergeCell_none_iff _ _).mp conflict⟩
      exact clear key ⟨last, x, parent, Or.inl ⟨gone, added⟩⟩
    refine ⟨merged, fun key => (merged_view_iff loadValue own parents heap calls key merged).mpr ?_⟩
    rintro ⟨last, present, x, parent, added⟩
    exact clear key ⟨last, x, parent, Or.inr ⟨added, present⟩⟩

end Merge

/-- The store holds key 1; the parent has read it and deleted it; the branch
adds it again and deletes it again. -/
def deletedParent : Entries Nat :=
  (branchAfter (fun key => if key = 1 then some 7 else none) [] ⟨fun _ => 0, 0⟩
    [.getEntry .keep 1, .deleteEntry .keep 1]).entries_

def addedAndDeleted : Cache Nat Nat :=
  branchAfter (fun key => if key = 1 then some 7 else none) [deletedParent] ⟨fun _ => 0, 5⟩
    [.addEntry .keep 1 3, .deleteEntry .keep 1]

theorem merge_refuses_added_and_deleted :
    (mergeFromBranch deletedParent addedAndDeleted.entries_).1 = false := by
  decide

end EChainLib.EntryCache
