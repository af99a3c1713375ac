import Mathlib
import EChainLib.Support.Run
import EChainLib.Cache.WriteBack

/-! The table in the header of `entry_cache.h`: a record states the net change of
its key against the level below. A chain of caches, newest first, is driven by
calls on any level, by merges, and by branches being opened and dropped. -/

namespace EChainLib.EntryCache

variable {Key Value : Type*} [LinearOrder Key]

structure Chain (Key Value : Type*) [LinearOrder Key] where
  caches : List (Entries Key)
  heap : Heap Value

/-- Level 0 is the newest branch. `mergeAndRelease` is `MergeFromBranch` of the
newest branch into its parent by a caller that then lets go of the branch. -/
inductive Step (Key Value : Type*) where
  | call (level : Nat) (call : Call Key Value)
  | mergeFromBranch (level : Nat)
  | mergeAndRelease
  | branch
  | release

def apply (loadValue : Key → Option Value) (chain : Chain Key Value) :
    Step Key Value → Chain Key Value
  | .call level call =>
      match chain.caches.drop level with
      | own :: older =>
          let cache := perform loadValue older ⟨own, chain.heap⟩ call
          { caches := chain.caches.take level ++ cache.entries_ :: older, heap := cache.heap }
      | [] => chain
  | .mergeFromBranch level =>
      match chain.caches.drop level with
      | branch :: own :: older =>
          { chain with
            caches := chain.caches.take level ++ branch :: (mergeFromBranch own branch).2 :: older }
      | _ => chain
  | .mergeAndRelease =>
      match chain.caches with
      | branch :: own :: older => { chain with caches := (mergeFromBranch own branch).2 :: older }
      | _ => chain
  | .branch => { chain with caches := ∅ :: chain.caches }
  | .release => { chain with caches := chain.caches.tail }

/-- The action states the net change from `below` to `here`. -/
def NetAction (below here : Bool) (action : ChangeAction) : Prop :=
  (action = .add ↔ below = false ∧ here = true) ∧
    (action = .mod ↔ below = true ∧ here = true) ∧
    (action = .del ↔ below = true ∧ here = false)

def NetRecorded (loadValue : Key → Option Value) : List (Entries Key) → Prop
  | [] => True
  | own :: parents =>
      (∀ (key : Key) (r : Record), own[key]? = some r →
        NetAction (visible loadValue parents key) (visible loadValue (own :: parents) key)
          r.action_) ∧
      NetRecorded loadValue parents

/-- What `below` must be for a record that is its own level's view of the key. -/
def netBelow : ChangeAction → Option Bool
  | .keep => none
  | .add => some false
  | .mod => some true
  | .del => some true

theorem netAction_iff (below : Bool) (action : ChangeAction) :
    NetAction below (decide (action ≠ .del)) action ↔ netBelow action = some below := by
  cases action <;> cases below <;> simp [NetAction, netBelow]

theorem netRecorded_cons (loadValue : Key → Option Value) (own : Entries Key)
    (parents : List (Entries Key)) :
    NetRecorded loadValue (own :: parents) ↔
      (∀ (key : Key) (r : Record), own[key]? = some r →
        netBelow r.action_ = some (visible loadValue parents key)) ∧
      NetRecorded loadValue parents := by
  refine and_congr_left fun _ => forall_congr' fun key => forall_congr' fun r => ?_
  apply imp_congr_right
  intro found
  rw [visible_of_record loadValue own parents key r found]
  exact netAction_iff _ _

/-! Changing one level leaves the newer levels' records right exactly when no key
they have a record of changes its visibility. -/

def Undisturbed (newer : List (Entries Key)) (key : Key) : Prop :=
  ∀ entries ∈ newer, entries[key]? = none

theorem visible_undisturbed (loadValue : Key → Option Value) (newer rest : List (Entries Key))
    (key : Key) (clear : Undisturbed newer key) :
    visible loadValue (newer ++ rest) key = visible loadValue rest key := by
  induction newer with
  | nil => rfl
  | cons entries newer ih =>
      rw [List.cons_append, visible_of_absent loadValue entries _ key (clear entries (by simp))]
      exact ih fun other member => clear other (List.mem_cons_of_mem entries member)

theorem visible_covered (loadValue : Key → Option Value) (newer rest other : List (Entries Key))
    (key : Key) (covered : ¬ Undisturbed newer key) :
    visible loadValue (newer ++ rest) key = visible loadValue (newer ++ other) key := by
  induction newer with
  | nil => exact absurd (fun _ member => by cases member) covered
  | cons entries newer ih =>
      cases found : entries[key]? with
      | some r => simp [visible, found]
      | none =>
          have later : ¬ Undisturbed newer key := by
            intro clear
            apply covered
            intro e member
            rcases List.mem_cons.mp member with same | old
            · exact same ▸ found
            · exact clear e old
          simpa [visible, found] using ih later

theorem netRecorded_suffix (loadValue : Key → Option Value) (newer rest : List (Entries Key))
    (recorded : NetRecorded loadValue (newer ++ rest)) : NetRecorded loadValue rest := by
  induction newer with
  | nil => exact recorded
  | cons entries newer ih => exact ih recorded.2

-- Induction on the newer levels. Only their records' view of the level below matters.
theorem netRecorded_replace (loadValue : Key → Option Value)
    (newer rest other : List (Entries Key)) (recorded : NetRecorded loadValue (newer ++ rest)) :
    NetRecorded loadValue (newer ++ other) ↔
      NetRecorded loadValue other ∧
        ∀ key, ¬ Undisturbed newer key →
          visible loadValue other key = visible loadValue rest key := by
  induction newer with
  | nil =>
      exact ⟨fun net => ⟨net, fun key covered => absurd (by simp [Undisturbed]) covered⟩,
        fun net => net.1⟩
  | cons entries newer ih =>
      rw [List.cons_append, netRecorded_cons] at recorded ⊢
      rw [ih recorded.2]
      constructor
      · rintro ⟨own, net, same⟩
        refine ⟨net, fun key covered => ?_⟩
        by_cases clear : Undisturbed newer key
        · -- the record that covers the key is this level's own
          obtain ⟨r, found⟩ : ∃ r, entries[key]? = some r := by
            by_contra absent
            apply covered
            intro e member
            rcases List.mem_cons.mp member with same | old
            · exact same ▸ Option.eq_none_iff_forall_ne_some.mpr fun r hit => absent ⟨r, hit⟩
            · exact clear e old
          have before := recorded.1 key r found
          have after := own key r found
          rw [visible_undisturbed loadValue newer _ key clear] at before after
          exact Option.some.inj (after.symm.trans before)
        · exact same key clear
      · rintro ⟨net, same⟩
        have covered : ∀ key, ¬ Undisturbed newer key → ¬ Undisturbed (entries :: newer) key :=
          fun key covered clear => covered fun e member => clear e (List.mem_cons_of_mem _ member)
        refine ⟨fun key r found => ?_, net, fun key hit => same key (covered key hit)⟩
        rw [recorded.1 key r found]
        by_cases clear : Undisturbed newer key
        · rw [visible_undisturbed loadValue newer _ key clear,
            visible_undisturbed loadValue newer _ key clear, same key]
          intro undisturbed
          have absent := undisturbed entries (by simp)
          rw [found] at absent
          cases absent
        · rw [visible_covered loadValue newer rest other key clear]

/-- Writing one record: it must state its own net change, and a newer level may
have a record of the key only if the key's visibility stays. -/
theorem insert_net (loadValue : Key → Option Value) (newer : List (Entries Key))
    (own : Entries Key) (older : List (Entries Key)) (key : Key) (r : Record)
    (recorded : NetRecorded loadValue (newer ++ own :: older)) :
    NetRecorded loadValue (newer ++ own.insert key r :: older) ↔
      netBelow r.action_ = some (visible loadValue older key) ∧
        (visible loadValue (own :: older) key ≠ decide (r.action_ ≠ .del) →
          Undisturbed newer key) := by
  have below := netRecorded_suffix loadValue newer (own :: older) recorded
  rw [netRecorded_replace loadValue newer (own :: older) _ recorded, netRecorded_cons]
  rw [netRecorded_cons] at below
  have at_key : visible loadValue (own.insert key r :: older) key = decide (r.action_ ≠ .del) :=
    visible_of_record loadValue _ older key r (by simp)
  have elsewhere : ∀ other, key ≠ other →
      visible loadValue (own.insert key r :: older) other =
        visible loadValue (own :: older) other := by
    intro other differs
    simp only [visible, lookup_insert, if_neg differs]
  constructor
  · rintro ⟨⟨net, _⟩, same⟩
    refine ⟨net key r (by simp), fun changed => ?_⟩
    by_contra covered
    exact changed (at_key ▸ (same key covered).symm)
  · rintro ⟨net, clear⟩
    refine ⟨⟨fun other x found => ?_, below.2⟩, fun other covered => ?_⟩
    · by_cases same : key = other
      · subst other
        rw [lookup_insert, if_pos rfl, Option.some.injEq] at found
        exact found ▸ net
      · rw [lookup_insert, if_neg same] at found
        exact below.1 other x found
    · by_cases same : key = other
      · subst other
        rw [at_key]
        by_contra changed
        exact covered (clear fun equal => changed equal.symm)
      · exact elsewhere other same

/-- When one call keeps the table: it does not delete a key its own level added,
it does not change the visibility of a key a newer level has a record of, and
AddEntry does not misread a loaded key as deleted. -/
def CallOk (loadValue : Key → Option Value) (newer : List (Entries Key)) (own : Entries Key)
    (older : List (Entries Key)) : Call Key Value → Prop
  | .getEntry _ _ => True
  | .addEntry junk key _ =>
      ¬ (junk = .del ∧ older ≠ [] ∧ own[key]? = none ∧ loads loadValue older key = true) ∧
        (visible loadValue (own :: older) key = false → Undisturbed newer key)
  | .deleteEntry junk key =>
      (∀ r, own[key]? = some r → r.action_ ≠ .add) ∧
        (visible loadValue (own :: older) key = true →
          (junk = .del ∧ loads loadValue (own :: older) key = true) ∨ Undisturbed newer key)
  | .edit _ _ => True

theorem presentBelow_eq (loadValue : Key → Option Value) (junk : ChangeAction)
    (older : List (Entries Key)) (key : Key) :
    presentBelow loadValue junk older key = true ↔
      visible loadValue older key = true ∧
        ¬ (junk = .del ∧ older ≠ [] ∧ loads loadValue older key = true) := by
  cases older with
  | nil => simp [presentBelow, visible]
  | cons parent above => simp [presentBelow, reported, imp_iff_not_or]

section OneLevel

variable (loadValue : Key → Option Value) (newer : List (Entries Key)) (own : Entries Key)
  (older : List (Entries Key)) (heap : Heap Value)

theorem getEntry_net (junk : ChangeAction) (key : Key)
    (recorded : NetRecorded loadValue (newer ++ own :: older)) :
    NetRecorded loadValue
      (newer ++ (getEntry loadValue junk older key ⟨own, heap⟩).2.entries_ :: older) := by
  obtain ⟨pointer, result⟩ := getEntry_entries loadValue junk older key ⟨own, heap⟩
  rw [result]
  split
  case isFalse => exact recorded
  case isTrue hit =>
    have present := ((presentBelow_eq loadValue junk older key).mp hit.2).1
    have here : visible loadValue (own :: older) key = true := by
      rw [visible_of_absent loadValue own older key hit.1]
      exact present
    rw [insert_net loadValue newer own older key _ recorded]
    exact ⟨by simp [netBelow, present], fun changed => absurd (by simp [here]) changed⟩

theorem addEntry_net (junk : ChangeAction) (key : Key) (pval : Pointer)
    (recorded : NetRecorded loadValue (newer ++ own :: older)) :
    NetRecorded loadValue
        (newer ++ (addEntry loadValue junk older key pval ⟨own, heap⟩).2.entries_ :: older) ↔
      CallOk loadValue newer own older (.addEntry junk key pval) := by
  have below := (netRecorded_cons loadValue own older).mp
    (netRecorded_suffix loadValue newer (own :: older) recorded)
  rw [addEntry_entries]
  simp only [CallOk]
  cases found : own[key]? with
  | some r =>
      have here := visible_of_record loadValue own older key r found
      by_cases deleted : r.action_ = .del
      · have net := below.1 key r found
        simp only [deleted, netBelow] at net
        simp only [deleted, if_true]
        rw [insert_net loadValue newer own older key _ recorded]
        simp [netBelow, net, here, deleted]
      · simp [deleted, here, recorded]
  | none =>
      have here := visible_of_absent loadValue own older key found
      by_cases present : presentBelow loadValue junk older key = true
      · obtain ⟨shown, faithful⟩ := (presentBelow_eq loadValue junk older key).mp present
        rw [if_pos present, here]
        simp only [recorded, true_iff]
        exact ⟨fun misread => faithful ⟨misread.1, misread.2.1, misread.2.2.2⟩,
          fun absent => by rw [shown] at absent; cases absent⟩
      · rw [if_neg present, insert_net loadValue newer own older key _ recorded, here]
        rw [presentBelow_eq] at present
        cases shown : visible loadValue older key with
        | true =>
            have misread : junk = .del ∧ older ≠ [] ∧ loads loadValue older key = true := by
              by_contra faithful
              exact present ⟨shown, faithful⟩
            simp [netBelow, misread]
        | false =>
            have unloaded : loads loadValue older key ≠ true := fun loaded => by
              rw [loads_visible loadValue older key loaded] at shown
              cases shown
            simp [netBelow, unloaded]

theorem deleteEntry_net (junk : ChangeAction) (key : Key)
    (recorded : NetRecorded loadValue (newer ++ own :: older)) :
    NetRecorded loadValue
        (newer ++ (deleteEntry loadValue junk older key ⟨own, heap⟩).2.entries_ :: older) ↔
      CallOk loadValue newer own older (.deleteEntry junk key : Call Key Value) := by
  have below := (netRecorded_cons loadValue own older).mp
    (netRecorded_suffix loadValue newer (own :: older) recorded)
  obtain ⟨pointer, result⟩ := deleteEntry_entries loadValue junk older key ⟨own, heap⟩
  rw [result]
  simp only [CallOk]
  cases found : own[key]? with
  | some r =>
      have here := visible_of_record loadValue own older key r found
      have net := below.1 key r found
      by_cases deleted : r.action_ = .del
      · simp [deleted, here, recorded]
      · simp only [deleted, if_false]
        rw [insert_net loadValue newer own older key _ recorded, here]
        have unloaded : loads loadValue (own :: older) key = false := by simp [loads, found]
        -- the level's own ADD has nothing below it, so a DEL in its place is wrong
        cases action : r.action_ <;> simp_all [netBelow]
  | none =>
      have here := visible_of_absent loadValue own older key found
      have through : loads loadValue (own :: older) key = loads loadValue older key := by
        simp [loads, found]
      by_cases present : reported loadValue junk older key = true
      · rw [if_pos present, insert_net loadValue newer own older key _ recorded, here]
        simp only [reported, Bool.and_eq_true, Bool.not_eq_true', Bool.and_eq_false_iff,
          decide_eq_false_iff_not] at present
        simp only [netBelow, present.1, through]
        rcases present.2 with honest | unloaded
        · simp [honest]
        · simp [unloaded]
      · rw [if_neg present, here, through]
        simp only [recorded, true_iff]
        refine ⟨by simp, fun shown => Or.inl ?_⟩
        simpa [reported, shown] using present

theorem perform_net (call : Call Key Value)
    (recorded : NetRecorded loadValue (newer ++ own :: older)) :
    NetRecorded loadValue
        (newer ++ (perform loadValue older ⟨own, heap⟩ call).entries_ :: older) ↔
      CallOk loadValue newer own older call := by
  cases call with
  | getEntry junk key =>
      simp only [CallOk, iff_true]
      exact getEntry_net loadValue newer own older heap junk key recorded
  | addEntry junk key pval => exact addEntry_net loadValue newer own older heap junk key pval recorded
  | deleteEntry junk key => exact deleteEntry_net loadValue newer own older heap junk key recorded
  | edit pointer value => simpa [CallOk, perform] using recorded

end OneLevel

/-! Merging. Under the table every branch record finds a cell it can be merged
into, and the merged record states its net change unless a MOD of the branch has
overwritten an ADD of the parent. -/

section OneMerge

variable (loadValue : Key → Option Value) (branch own : Entries Key) (older : List (Entries Key))

-- The case table of `MergeFromBranch`: the branch's action against the parent's.
theorem merged_cell_net (below : Bool) (parent : Option Record) (r : Record)
    (own_net : ∀ x, parent = some x → netBelow x.action_ = some below)
    (branch_net : netBelow r.action_ =
      some (parent.elim below fun x => decide (x.action_ ≠ .del))) :
    ∃ cell, mergeCell parent r = some cell ∧
      cell.elim below (fun x => decide (x.action_ ≠ .del)) = decide (r.action_ ≠ .del) ∧
      ((∀ x, cell = some x → netBelow x.action_ = some below) ↔
        (r.action_ = .mod → ∀ x, parent = some x → x.action_ ≠ .add)) := by
  rcases r with ⟨pointer, action⟩
  cases parent with
  | none => cases action <;> cases below <;> simp_all [mergeCell, netBelow]
  | some x =>
      rcases x with ⟨old, was⟩
      cases was <;> cases action <;> cases below <;> simp_all [mergeCell, netBelow]

theorem visible_eq_elim (caches : Entries Key) (key : Key) :
    visible loadValue (caches :: older) key =
      caches[key]?.elim (visible loadValue older key) fun x => decide (x.action_ ≠ .del) := by
  cases found : caches[key]? <;> simp [visible, found]

theorem branch_cell_net (recorded : NetRecorded loadValue (branch :: own :: older)) (key : Key)
    (r : Record) (found : branch[key]? = some r) :
    ∃ cell, mergeCell own[key]? r = some cell ∧
      cell.elim (visible loadValue older key) (fun x => decide (x.action_ ≠ .del)) =
        decide (r.action_ ≠ .del) ∧
      ((∀ x, cell = some x → netBelow x.action_ = some (visible loadValue older key)) ↔
        (r.action_ = .mod → ∀ x, own[key]? = some x → x.action_ ≠ .add)) := by
  rw [netRecorded_cons, netRecorded_cons] at recorded
  apply merged_cell_net
  · exact recorded.2.1 key
  · rw [recorded.1 key r found, visible_eq_elim]

theorem merge_succeeds (recorded : NetRecorded loadValue (branch :: own :: older)) :
    (mergeFromBranch own branch).1 = true := by
  rw [mergeFromBranch_true_iff]
  intro key r found conflict
  obtain ⟨cell, merged, _⟩ := branch_cell_net loadValue branch own older recorded key r found
  rw [conflict] at merged
  cases merged

theorem merged_net_iff (recorded : NetRecorded loadValue (branch :: own :: older)) :
    NetRecorded loadValue ((mergeFromBranch own branch).2 :: older) ↔
      ∀ (key : Key) (r : Record), branch[key]? = some r → r.action_ = .mod →
        ∀ x, own[key]? = some x → x.action_ ≠ .add := by
  have goes := merge_succeeds loadValue branch own older recorded
  have below := (netRecorded_cons loadValue own older).mp recorded.2
  rw [netRecorded_cons]
  constructor
  · rintro ⟨net, _⟩ key r found
    obtain ⟨cell, merged, _, exact_cell⟩ :=
      branch_cell_net loadValue branch own older recorded key r found
    have result := mergeFromBranch_cells own branch goes key
    simp only [found, merged, Option.some.injEq] at result
    exact exact_cell.mp fun x hit => net key x (result ▸ hit)
  · intro kept
    refine ⟨fun key x hit => ?_, below.2⟩
    have result := mergeFromBranch_cells own branch goes key
    cases found : branch[key]? with
    | none =>
        simp only [found] at result
        exact below.1 key x (result ▸ hit)
    | some r =>
        obtain ⟨cell, merged, _, exact_cell⟩ :=
          branch_cell_net loadValue branch own older recorded key r found
        simp only [found, merged, Option.some.injEq] at result
        exact exact_cell.mpr (kept key r found) x (result.trans hit)

theorem merged_visible (recorded : NetRecorded loadValue (branch :: own :: older)) (key : Key) :
    visible loadValue ((mergeFromBranch own branch).2 :: older) key =
      visible loadValue (branch :: own :: older) key := by
  have result := mergeFromBranch_cells own branch
    (merge_succeeds loadValue branch own older recorded) key
  rw [visible_eq_elim]
  cases found : branch[key]? with
  | none =>
      simp only [found] at result
      rw [visible_of_absent loadValue branch _ key found, visible_eq_elim, result]
  | some r =>
      obtain ⟨cell, merged, shown, _⟩ :=
        branch_cell_net loadValue branch own older recorded key r found
      simp only [found, merged, Option.some.injEq] at result
      rw [visible_of_record loadValue branch _ key r found, ← result, shown]

/-- A branch that outlives its merge is now a level over the merged parent: its
records stay right only if all of them are MODs of keys the parent has not added. -/
theorem merge_kept_net_iff (newer : List (Entries Key))
    (recorded : NetRecorded loadValue (newer ++ branch :: own :: older)) :
    NetRecorded loadValue (newer ++ branch :: (mergeFromBranch own branch).2 :: older) ↔
      ∀ (key : Key) (r : Record), branch[key]? = some r → r.action_ = .mod ∧
        ∀ x, own[key]? = some x → x.action_ ≠ .add := by
  have suffix := netRecorded_suffix loadValue newer (branch :: own :: older) recorded
  have branch_net := ((netRecorded_cons loadValue branch _).mp suffix).1
  have frame := netRecorded_replace loadValue (newer ++ [branch]) (own :: older)
    ((mergeFromBranch own branch).2 :: older) (by simpa using recorded)
  simp only [List.append_assoc, List.singleton_append] at frame
  rw [frame, merged_net_iff loadValue branch own older suffix]
  have changed : ∀ (key : Key) (r : Record), branch[key]? = some r →
      (visible loadValue ((mergeFromBranch own branch).2 :: older) key =
        visible loadValue (own :: older) key ↔ r.action_ = .mod) := by
    intro key r found
    have net := branch_net key r found
    rw [merged_visible loadValue branch own older suffix,
      visible_of_record loadValue branch _ key r found]
    cases action : r.action_ <;> simp only [action, netBelow, reduceCtorEq, Option.some.injEq] at net <;>
      simp [← net]
  have unchanged : ∀ key, branch[key]? = none →
      visible loadValue ((mergeFromBranch own branch).2 :: older) key =
        visible loadValue (own :: older) key := by
    intro key absent
    rw [merged_visible loadValue branch own older suffix,
      visible_of_absent loadValue branch _ key absent]
  constructor
  · rintro ⟨kept, same⟩ key r found
    have is_mod : r.action_ = .mod := by
      apply (changed key r found).mp
      apply same
      intro clear
      have absent := clear branch (by simp)
      rw [found] at absent
      cases absent
    exact ⟨is_mod, kept key r found is_mod⟩
  · intro all_mod
    refine ⟨fun key r found _ => (all_mod key r found).2, fun key _ => ?_⟩
    cases found : branch[key]? with
    | none => exact unchanged key found
    | some r => exact (changed key r found).mpr (all_mod key r found).1

end OneMerge

/-- The condition on one step, at the state it is taken in. -/
def StepOk (loadValue : Key → Option Value) (chain : Chain Key Value) : Step Key Value → Prop
  | .call level call =>
      match chain.caches.drop level with
      | own :: older => CallOk loadValue (chain.caches.take level) own older call
      | [] => True
  | .mergeFromBranch level =>
      match chain.caches.drop level with
      | branch :: own :: _ =>
          ∀ (key : Key) (r : Record), branch[key]? = some r → r.action_ = .mod ∧
            ∀ x, own[key]? = some x → x.action_ ≠ .add
      | _ => True
  | .mergeAndRelease =>
      match chain.caches with
      | branch :: own :: _ =>
          ∀ (key : Key) (r : Record), branch[key]? = some r → r.action_ = .mod →
            ∀ x, own[key]? = some x → x.action_ ≠ .add
      | _ => True
  | .branch => True
  | .release => True

theorem step_net_iff (loadValue : Key → Option Value) (chain : Chain Key Value)
    (step : Step Key Value) (recorded : NetRecorded loadValue chain.caches) :
    NetRecorded loadValue (apply loadValue chain step).caches ↔ StepOk loadValue chain step := by
  cases step with
  | call level call =>
      have split := List.take_append_drop level chain.caches
      cases at_level : chain.caches.drop level with
      | nil => simpa [apply, StepOk, at_level] using recorded
      | cons own older =>
          simp only [apply, StepOk, at_level]
          rw [← split, at_level] at recorded
          exact perform_net loadValue _ own older chain.heap call recorded
  | mergeFromBranch level =>
      have split := List.take_append_drop level chain.caches
      cases at_level : chain.caches.drop level with
      | nil => simpa [apply, StepOk, at_level] using recorded
      | cons branch rest =>
          cases rest with
          | nil => simpa [apply, StepOk, at_level] using recorded
          | cons own older =>
              simp only [apply, StepOk, at_level]
              rw [← split, at_level] at recorded
              exact merge_kept_net_iff loadValue branch own older _ recorded
  | mergeAndRelease =>
      rcases chain with ⟨caches, heap⟩
      match caches, recorded with
      | [], recorded => simpa [apply, StepOk] using recorded
      | [_], recorded => simpa [apply, StepOk] using recorded
      | branch :: own :: older, recorded =>
          exact merged_net_iff loadValue branch own older recorded
  | branch =>
      simp only [apply, StepOk, iff_true]
      exact ⟨fun key r found => by simp at found, recorded⟩
  | release =>
      simp only [apply, StepOk, iff_true]
      cases caches : chain.caches with
      | nil => trivial
      | cons newest older =>
          rw [caches] at recorded
          exact recorded.2

theorem empty_net (loadValue : Key → Option Value) (levels : Nat) :
    NetRecorded loadValue (List.replicate levels (∅ : Entries Key)) := by
  induction levels with
  | zero => trivial
  | succ levels ih => exact ⟨fun key r found => by simp at found, ih⟩

/-- From empty caches the table holds in every state of a run exactly when every
step of the run meets its condition. -/
theorem net_actions_iff (loadValue : Key → Option Value) (levels : Nat) (heap : Heap Value)
    (steps : List (Step Key Value)) :
    (∀ chain ∈ Run.states (apply loadValue) ⟨List.replicate levels ∅, heap⟩ steps,
      NetRecorded loadValue chain.caches) ↔
    Run.Meets (apply loadValue) (StepOk loadValue) ⟨List.replicate levels ∅, heap⟩ steps :=
  Run.invariant_iff_meets (apply loadValue) (StepOk loadValue)
    (fun chain => NetRecorded loadValue chain.caches)
    (fun chain step recorded => step_net_iff loadValue chain step recorded)
    ⟨List.replicate levels ∅, heap⟩ steps (empty_net loadValue levels)

/-- A key added and then deleted at the top level leaves a DEL record behind. -/
theorem deleted_add_leaves_a_record :
    ¬ NetRecorded (fun _ : Nat => (none : Option Nat))
      (Run.final (apply fun _ : Nat => (none : Option Nat)) ⟨[∅], ⟨fun _ => 0, 0⟩⟩
        [.call 0 (.addEntry .keep 1 9), .call 0 (.deleteEntry .keep 1)]).caches := by
  intro recorded
  have left := recorded.1 1 ⟨9, .del⟩ (by decide)
  exact absurd (left.2.2.mp rfl).1 (by decide)

end EChainLib.EntryCache
