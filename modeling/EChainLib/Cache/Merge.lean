import Mathlib
import EChainLib.Support.Run
import EChainLib.Cache.EntryCache

/-! `MergeFromBranch` key by key. The loop visits the branch in key order and each
record touches its own key only, so a merge is the sum of its cells; it stops at
the first record in conflict with the parent and keeps what it has written. -/

namespace EChainLib.EntryCache

open Std (ExtTreeMap)

variable {Key Value : Type*} [LinearOrder Key]

/-- What one branch record makes of the parent's record of its key. -/
def mergeCell (parent : Option Record) (branch : Record) : Option (Option Record) :=
  match branch.action_, parent with
  | .add, some x => if x.action_ = .del then some (some { branch with action_ := .mod }) else none
  | .add, none => some (some branch)
  | .keep, found => some found
  | .mod, _ => some (some branch)
  | .del, some x =>
      match x.action_ with
      | .add => some none
      | .del => none
      | _ => some (some { x with action_ := .del })
  | .del, none => some (some branch)

theorem lookup_insert (entries : Entries Key) (key other : Key) (r : Record) :
    (entries.insert key r)[other]? = if key = other then some r else entries[other]? := by
  simp [ExtTreeMap.getElem?_insert]

theorem lookup_erase (entries : Entries Key) (key other : Key) :
    (entries.erase key)[other]? = if key = other then none else entries[other]? := by
  simp [ExtTreeMap.getElem?_erase]

theorem mergeRecord_none (entries : Entries Key) (key : Key) (branch : Record) :
    mergeRecord entries key branch = none ↔ mergeCell entries[key]? branch = none := by
  rcases branch with ⟨pointer, action⟩
  cases action with
  | keep => simp [mergeRecord, mergeCell]
  | mod => simp [mergeRecord, mergeCell]
  | add =>
      cases found : entries[key]? with
      | none => simp [mergeRecord, mergeCell, found]
      | some x => by_cases deleted : x.action_ = .del <;> simp [mergeRecord, mergeCell, found, deleted]
  | del =>
      cases found : entries[key]? with
      | none => simp [mergeRecord, mergeCell, found]
      | some x =>
          rcases x with ⟨old, was⟩
          cases was <;> simp [mergeRecord, mergeCell, found]

theorem mergeRecord_lookup (entries merged : Entries Key) (key : Key) (branch : Record)
    (written : mergeRecord entries key branch = some merged) :
    mergeCell entries[key]? branch = some merged[key]? ∧
      ∀ other, other ≠ key → merged[other]? = entries[other]? := by
  have elsewhere : ∀ other, other ≠ key → ∀ r, (entries.insert key r)[other]? = entries[other]? :=
    fun other differs r => by simp [lookup_insert, differs.symm]
  rcases branch with ⟨pointer, action⟩
  cases action with
  | keep => cases written; exact ⟨rfl, fun _ _ => rfl⟩
  | mod =>
      cases written
      exact ⟨by simp [mergeCell], fun other differs => elsewhere other differs _⟩
  | add =>
      cases found : entries[key]? with
      | none =>
          simp only [mergeRecord, found, Option.some.injEq] at written
          subst merged
          exact ⟨by simp [mergeCell], fun other differs => elsewhere other differs _⟩
      | some x =>
          by_cases deleted : x.action_ = .del
          · simp only [mergeRecord, found, deleted, if_true, Option.some.injEq] at written
            subst merged
            exact ⟨by simp [mergeCell, deleted],
              fun other differs => elsewhere other differs _⟩
          · simp [mergeRecord, found, deleted] at written
  | del =>
      cases found : entries[key]? with
      | none =>
          simp only [mergeRecord, found, Option.some.injEq] at written
          subst merged
          exact ⟨by simp [mergeCell], fun other differs => elsewhere other differs _⟩
      | some x =>
          rcases x with ⟨old, was⟩
          cases was <;> simp only [mergeRecord, found, Option.some.injEq, reduceCtorEq] at written
          case add =>
            subst merged
            exact ⟨by simp [mergeCell],
              fun other differs => by simp [lookup_erase, differs.symm]⟩
          all_goals
            subst merged
            exact ⟨by simp [mergeCell], fun other differs => elsewhere other differs _⟩

/-- The records of a branch, as the loop meets them: no key twice. -/
def DistinctKeys (records : List (Key × Record)) : Prop :=
  records.Pairwise fun left right => left.1 ≠ right.1

theorem toList_distinct (branch : Entries Key) : DistinctKeys branch.toList := by
  simpa [DistinctKeys] using ExtTreeMap.distinct_keys_toList (t := branch)

/-- `merged` is `entries` with every record of the list merged into its cell. -/
def MergedCells (records : List (Key × Record)) (entries merged : Entries Key) : Prop :=
  (∀ p ∈ records, mergeCell entries[p.1]? p.2 = some merged[p.1]?) ∧
    ∀ key, (∀ p ∈ records, p.1 ≠ key) → merged[key]? = entries[key]?

theorem merged_cells_cons (key : Key) (branch : Record) (rest : List (Key × Record))
    (entries next merged : Entries Key) (distinct : DistinctKeys ((key, branch) :: rest))
    (written : mergeRecord entries key branch = some next)
    (tail : MergedCells rest next merged) :
    MergedCells ((key, branch) :: rest) entries merged := by
  obtain ⟨cell, elsewhere⟩ := mergeRecord_lookup entries next key branch written
  obtain ⟨apart, _⟩ := List.pairwise_cons.mp distinct
  constructor
  · intro p member
    rcases List.mem_cons.mp member with same | later
    · subst same
      rw [cell, tail.2 key fun p later => (apart p later).symm]
    · rw [← elsewhere p.1 (apart p later).symm]
      exact tail.1 p later
  · intro other absent
    have differs : key ≠ other := absent (key, branch) (by simp)
    rw [tail.2 other fun p later => absent p (List.mem_cons_of_mem _ later),
      elsewhere other differs.symm]

/-- A loop that ends has met no conflict and has merged every cell. -/
theorem mergeLoop_true (records : List (Key × Record)) (entries : Entries Key)
    (distinct : DistinctKeys records) (ended : (mergeLoop records entries).1 = true) :
    MergedCells records entries (mergeLoop records entries).2 := by
  induction records generalizing entries with
  | nil => exact ⟨by simp, fun _ _ => rfl⟩
  | cons p rest ih =>
      rcases p with ⟨key, branch⟩
      cases written : mergeRecord entries key branch with
      | none => simp [mergeLoop, written] at ended
      | some next =>
          have tail := ih next (List.pairwise_cons.mp distinct).2
            (by simpa [mergeLoop, written] using ended)
          simpa [mergeLoop, written] using
            merged_cells_cons key branch rest entries next _ distinct written tail

/-- A loop that gives up has stopped at a conflict, after records it has merged. -/
theorem mergeLoop_false (records : List (Key × Record)) (entries : Entries Key)
    (distinct : DistinctKeys records) (stopped : (mergeLoop records entries).1 = false) :
    ∃ before key branch after, records = before ++ (key, branch) :: after ∧
      mergeCell entries[key]? branch = none ∧
      MergedCells before entries (mergeLoop records entries).2 := by
  induction records generalizing entries with
  | nil => simp [mergeLoop] at stopped
  | cons p rest ih =>
      rcases p with ⟨key, branch⟩
      cases written : mergeRecord entries key branch with
      | none =>
          refine ⟨[], key, branch, rest, rfl, (mergeRecord_none entries key branch).mp written, ?_⟩
          exact ⟨by simp, fun _ _ => by simp [mergeLoop, written]⟩
      | some next =>
          -- the conflict is further on; writing this key has not changed that cell
          obtain ⟨apart, later⟩ := List.pairwise_cons.mp distinct
          obtain ⟨before, at_key, conflicting, after, split, conflict, merged⟩ :=
            ih next later (by simpa [mergeLoop, written] using stopped)
          have elsewhere := (mergeRecord_lookup entries next key branch written).2
          have differs : at_key ≠ key :=
            (apart (at_key, conflicting) (by simp [split])).symm
          have distinct_prefix : DistinctKeys ((key, branch) :: before) :=
            distinct.sublist (by simp [split])
          refine ⟨(key, branch) :: before, at_key, conflicting, after, by simp [split], ?_, ?_⟩
          · rw [← elsewhere at_key differs]
            exact conflict
          · simpa [mergeLoop, written] using
              merged_cells_cons key branch before entries next _ distinct_prefix written merged

theorem mergeLoop_no_conflict (records : List (Key × Record)) (entries : Entries Key)
    (distinct : DistinctKeys records)
    (free : ∀ p ∈ records, mergeCell entries[p.1]? p.2 ≠ none) :
    (mergeLoop records entries).1 = true := by
  by_contra stopped
  obtain ⟨before, key, branch, after, split, conflict, _⟩ :=
    mergeLoop_false records entries distinct (by simpa using stopped)
  exact free (key, branch) (by simp [split]) conflict

theorem mem_toList (branch : Entries Key) (key : Key) (r : Record) :
    (key, r) ∈ branch.toList ↔ branch[key]? = some r :=
  ExtTreeMap.mem_toList_iff_getElem?_eq_some

/-- A merge that returns true, cell by cell. -/
theorem mergeFromBranch_cells (own branch : Entries Key)
    (merged : (mergeFromBranch own branch).1 = true) (key : Key) :
    match branch[key]? with
    | some r => mergeCell own[key]? r = some (mergeFromBranch own branch).2[key]?
    | none => (mergeFromBranch own branch).2[key]? = own[key]? := by
  obtain ⟨cells, elsewhere⟩ := mergeLoop_true branch.toList own (toList_distinct branch) merged
  cases found : branch[key]? with
  | some r => exact cells (key, r) ((mem_toList branch key r).mpr found)
  | none =>
      apply elsewhere
      rintro ⟨other, r⟩ member same
      simp only at same
      subst other
      rw [(mem_toList branch key r).mp member] at found
      cases found

/-- The merge goes through exactly when no record of the branch conflicts. -/
theorem mergeFromBranch_true_iff (own branch : Entries Key) :
    (mergeFromBranch own branch).1 = true ↔
      ∀ (key : Key) (r : Record), branch[key]? = some r → mergeCell own[key]? r ≠ none := by
  constructor
  · intro merged key r found conflict
    have cells := mergeFromBranch_cells own branch merged key
    simp [found, conflict] at cells
  · intro free
    apply mergeLoop_no_conflict branch.toList own (toList_distinct branch)
    rintro ⟨key, r⟩ member
    exact free key r ((mem_toList branch key r).mp member)

/-- An ADD over a record that is not marked deleted, or a DEL over a deleted one. -/
def Conflicts (parent : Option Record) (branch : Record) : Prop :=
  ∃ x, parent = some x ∧
    ((branch.action_ = .add ∧ x.action_ ≠ .del) ∨ (branch.action_ = .del ∧ x.action_ = .del))

theorem mergeCell_none_iff (parent : Option Record) (branch : Record) :
    mergeCell parent branch = none ↔ Conflicts parent branch := by
  rcases branch with ⟨pointer, action⟩
  cases parent with
  | none => cases action <;> simp [mergeCell, Conflicts]
  | some x =>
      rcases x with ⟨old, was⟩
      cases action <;> cases was <;> simp [mergeCell, Conflicts]

theorem merged_cells_unchanged_iff (records : List (Key × Record)) (entries merged : Entries Key)
    (cells : MergedCells records entries merged) :
    merged = entries ↔ ∀ p ∈ records, mergeCell entries[p.1]? p.2 = some entries[p.1]? := by
  constructor
  · intro same p member
    rw [cells.1 p member, same]
  · intro idle
    apply ExtTreeMap.ext_getElem?
    intro key
    by_cases written : ∃ p ∈ records, p.1 = key
    · obtain ⟨p, member, at_key⟩ := written
      have result := cells.1 p member
      rw [idle p member, Option.some.injEq] at result
      exact at_key ▸ result.symm
    · exact cells.2 key fun p member at_key => written ⟨p, member, at_key⟩

/-- A failed merge has merged the records before the first conflict in key order
and nothing else. It leaves the parent as it was exactly when those records
change nothing. -/
theorem failed_merge_is_a_prefix (own branch : Entries Key)
    (failed : (mergeFromBranch own branch).1 = false) :
    ∃ before key r after, branch.toList = before ++ (key, r) :: after ∧
      Conflicts own[key]? r ∧
      (∀ p ∈ before, p.1 < key ∧
        mergeCell own[p.1]? p.2 = some (mergeFromBranch own branch).2[p.1]?) ∧
      (∀ other, (∀ p ∈ before, p.1 ≠ other) →
        (mergeFromBranch own branch).2[other]? = own[other]?) ∧
      ((mergeFromBranch own branch).2 = own ↔
        ∀ p ∈ before, mergeCell own[p.1]? p.2 = some own[p.1]?) := by
  obtain ⟨before, key, r, after, split, conflict, cells⟩ :=
    mergeLoop_false branch.toList own (toList_distinct branch) failed
  have ordered := ExtTreeMap.ordered_keys_toList (t := branch)
  rw [split] at ordered
  have earlier : ∀ p ∈ before, p.1 < key := by
    intro p member
    have relation := (List.pairwise_append.mp ordered).2.2 p member (key, r) (by simp)
    exact compare_lt_iff_lt.mp relation
  exact ⟨before, key, r, after, split, (mergeCell_none_iff _ _).mp conflict,
    fun p member => ⟨earlier p member, cells.1 p member⟩, cells.2,
    merged_cells_unchanged_iff before own _ cells⟩

/-- Key 2 is in conflict; key 1 comes before it and is written. -/
def conflictingParent : Entries Nat := (∅ : Entries Nat).insert 2 ⟨20, .add⟩

def conflictingBranch : Entries Nat :=
  ((∅ : Entries Nat).insert 1 ⟨11, .add⟩).insert 2 ⟨21, .add⟩

theorem failed_merge_is_a_prefix_applies :
    (mergeFromBranch conflictingParent conflictingBranch).1 = false ∧
    ∃ before key r after, conflictingBranch.toList = before ++ (key, r) :: after ∧
      Conflicts conflictingParent[key]? r ∧
      (∀ p ∈ before, p.1 < key ∧ mergeCell conflictingParent[p.1]? p.2 =
        some (mergeFromBranch conflictingParent conflictingBranch).2[p.1]?) ∧
      (∀ other, (∀ p ∈ before, p.1 ≠ other) →
        (mergeFromBranch conflictingParent conflictingBranch).2[other]? =
          conflictingParent[other]?) ∧
      ((mergeFromBranch conflictingParent conflictingBranch).2 = conflictingParent ↔
        ∀ p ∈ before, mergeCell conflictingParent[p.1]? p.2 = some conflictingParent[p.1]?) :=
  ⟨by decide, failed_merge_is_a_prefix conflictingParent conflictingBranch (by decide)⟩

theorem failed_merge_keeps_earlier_writes :
    ¬ ∀ own branch : Entries Nat, (mergeFromBranch own branch).1 = false →
      (mergeFromBranch own branch).2 = own := by
  intro atomic
  have same := atomic conflictingParent conflictingBranch (by decide)
  have written : (mergeFromBranch conflictingParent conflictingBranch).2[1]? = some ⟨11, .add⟩ := by
    decide
  rw [same] at written
  exact absurd written (by decide)

/-! Two merges one after the other. A loop reads and writes the keys of its own
records only, so a merge of other keys in between does not show. -/

theorem mergeRecord_elsewhere (entries merged : Entries Key) (key other : Key) (branch : Record)
    (written : mergeRecord entries key branch = some merged) (differs : other ≠ key) :
    merged[other]? = entries[other]? :=
  (mergeRecord_lookup entries merged key branch written).2 other differs

theorem mergeLoop_elsewhere (records : List (Key × Record)) (entries : Entries Key) (other : Key)
    (absent : ∀ p ∈ records, p.1 ≠ other) :
    (mergeLoop records entries).2[other]? = entries[other]? := by
  induction records generalizing entries with
  | nil => rfl
  | cons p rest ih =>
      rcases p with ⟨key, branch⟩
      cases written : mergeRecord entries key branch with
      | none => simp [mergeLoop, written]
      | some next =>
          have differs : key ≠ other := absent (key, branch) (by simp)
          have tail := ih next fun p later => absent p (List.mem_cons_of_mem _ later)
          rw [← mergeRecord_elsewhere entries next key other branch written differs.symm, ← tail]
          simp [mergeLoop, written]

/-- The two parents hold the same records of the listed keys. -/
def AgreeOn (records : List (Key × Record)) (left right : Entries Key) : Prop :=
  ∀ p ∈ records, left[p.1]? = right[p.1]?

theorem mergeRecord_agrees (left right merged : Entries Key) (key : Key) (branch : Record)
    (agree : left[key]? = right[key]?) (written : mergeRecord left key branch = some merged) :
    ∃ other, mergeRecord right key branch = some other ∧ merged[key]? = other[key]? := by
  have cell := (mergeRecord_lookup left merged key branch written).1
  cases answer : mergeRecord right key branch with
  | none =>
      rw [mergeRecord_none, ← agree, cell] at answer
      cases answer
  | some other =>
      have same := (mergeRecord_lookup right other key branch answer).1
      rw [← agree, cell] at same
      exact ⟨other, rfl, Option.some.inj same⟩

/-- Parents that agree on the keys of the records stop at the same record and are
left with the same records of these keys. -/
theorem mergeLoop_agrees (records : List (Key × Record)) (left right : Entries Key)
    (agree : AgreeOn records left right) :
    (mergeLoop records left).1 = (mergeLoop records right).1 ∧
      AgreeOn records (mergeLoop records left).2 (mergeLoop records right).2 := by
  induction records generalizing left right with
  | nil => exact ⟨rfl, agree⟩
  | cons p rest ih =>
      rcases p with ⟨key, branch⟩
      have here : left[key]? = right[key]? := agree (key, branch) (by simp)
      cases written : mergeRecord left key branch with
      | none =>
          have conflict : mergeRecord right key branch = none := by
            rw [mergeRecord_none, ← here]
            exact (mergeRecord_none left key branch).mp written
          simpa [mergeLoop, written, conflict] using agree
      | some next =>
          obtain ⟨next', written', same⟩ :=
            mergeRecord_agrees left right next key branch here written
          have everywhere : ∀ other : Key, left[other]? = right[other]? → next[other]? = next'[other]? := by
            intro other before
            by_cases at_key : other = key
            · exact at_key ▸ same
            · rw [mergeRecord_elsewhere left next key other branch written at_key,
                mergeRecord_elsewhere right next' key other branch written' at_key]
              exact before
          obtain ⟨result, tail⟩ :=
            ih next next' fun p later => everywhere p.1 (agree p (List.mem_cons_of_mem _ later))
          simp only [mergeLoop, written, written']
          refine ⟨result, ?_⟩
          intro p member
          by_cases again : ∃ q ∈ rest, q.1 = p.1
          · obtain ⟨q, later, at_key⟩ := again
            exact at_key ▸ tail q later
          · -- no later record of this key: the loop leaves what the step has put there
            have absent : ∀ q ∈ rest, q.1 ≠ p.1 := fun q later at_key => again ⟨q, later, at_key⟩
            rw [mergeLoop_elsewhere rest next p.1 absent, mergeLoop_elsewhere rest next' p.1 absent]
            exact everywhere p.1 (agree p member)

theorem mergeFromBranch_elsewhere (own branch : Entries Key) (key : Key)
    (absent : branch[key]? = none) : (mergeFromBranch own branch).2[key]? = own[key]? := by
  apply mergeLoop_elsewhere
  rintro ⟨other, r⟩ member same
  simp only at same
  rw [← same, (mem_toList branch other r).mp member] at absent
  cases absent

theorem mergeFromBranch_agrees (left right branch : Entries Key)
    (agree : ∀ key : Key, branch[key]? ≠ none → left[key]? = right[key]?) :
    (mergeFromBranch left branch).1 = (mergeFromBranch right branch).1 ∧
      ∀ key : Key, branch[key]? ≠ none →
        (mergeFromBranch left branch).2[key]? = (mergeFromBranch right branch).2[key]? := by
  have listed : AgreeOn branch.toList left right := by
    rintro ⟨key, r⟩ member
    exact agree key (by simp [(mem_toList branch key r).mp member])
  obtain ⟨result, cells⟩ := mergeLoop_agrees branch.toList left right listed
  refine ⟨result, ?_⟩
  intro key present
  obtain ⟨r, found⟩ := Option.ne_none_iff_exists'.mp present
  exact cells (key, r) ((mem_toList branch key r).mpr found)

/-- No key has a record in both branches. -/
def DisjointBranches (first second : Entries Key) : Prop :=
  ∀ key : Key, first[key]? = none ∨ second[key]? = none

theorem merged_after_other (own first second : Entries Key)
    (apart : DisjointBranches first second) :
    (mergeFromBranch (mergeFromBranch own first).2 second).1 = (mergeFromBranch own second).1 ∧
      ∀ key : Key, second[key]? ≠ none →
        (mergeFromBranch (mergeFromBranch own first).2 second).2[key]? =
          (mergeFromBranch own second).2[key]? := by
  apply mergeFromBranch_agrees
  intro key present
  exact mergeFromBranch_elsewhere own first key ((apart key).resolve_right present)

/-- Branches without a common key merge in any order, whether or not the merges
go through: the same `entries_`, and the same result of each call. -/
theorem disjoint_merges_commute (own first second : Entries Key)
    (apart : DisjointBranches first second) :
    (mergeFromBranch (mergeFromBranch own first).2 second).2 =
        (mergeFromBranch (mergeFromBranch own second).2 first).2 ∧
      (mergeFromBranch own first).1 =
        (mergeFromBranch (mergeFromBranch own second).2 first).1 ∧
      (mergeFromBranch (mergeFromBranch own first).2 second).1 =
        (mergeFromBranch own second).1 := by
  have swapped : DisjointBranches second first := fun key => (apart key).symm
  obtain ⟨second_result, second_cells⟩ := merged_after_other own first second apart
  obtain ⟨first_result, first_cells⟩ := merged_after_other own second first swapped
  refine ⟨?_, first_result.symm, second_result⟩
  apply ExtTreeMap.ext_getElem?
  intro key
  by_cases in_second : second[key]? = none
  · rw [mergeFromBranch_elsewhere _ second key in_second]
    by_cases in_first : first[key]? = none
    · rw [mergeFromBranch_elsewhere _ first key in_first,
        mergeFromBranch_elsewhere _ first key in_first,
        mergeFromBranch_elsewhere _ second key in_second]
    · exact (first_cells key in_first).symm
  · have in_first : first[key]? = none := (apart key).resolve_right in_second
    rw [mergeFromBranch_elsewhere _ first key in_first]
    exact second_cells key in_second

theorem disjoint_merges_commute_applies :
    DisjointBranches conflictingBranch ((∅ : Entries Nat).insert 3 ⟨30, .del⟩) ∧
    (mergeFromBranch conflictingParent conflictingBranch).1 = false ∧
    (mergeFromBranch (mergeFromBranch conflictingParent conflictingBranch).2
        ((∅ : Entries Nat).insert 3 ⟨30, .del⟩)).2 =
      (mergeFromBranch (mergeFromBranch conflictingParent
        ((∅ : Entries Nat).insert 3 ⟨30, .del⟩)).2 conflictingBranch).2 := by
  have apart : DisjointBranches conflictingBranch ((∅ : Entries Nat).insert 3 ⟨30, .del⟩) := by
    intro key
    by_cases third : 3 = key
    · subst key
      exact Or.inl (by decide)
    · exact Or.inr (by simp [third])
  exact ⟨apart, by decide, (disjoint_merges_commute conflictingParent conflictingBranch _ apart).1⟩

end EChainLib.EntryCache
