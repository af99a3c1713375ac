import Mathlib

/-! A pool of prepared resources that are granted to owners for good. Resources
are told apart by their keys. -/

namespace EChainLib.Allocation

variable {Owner Resource Key : Type*}

structure State (Owner Resource : Type*) where
  pool : List Resource
  granted : List (Owner × Resource)

/-- The keys of everything that is pooled or granted, repetitions included. -/
def keys (key : Resource → Key) (state : State Owner Resource) : List Key :=
  state.pool.map key ++ state.granted.map fun grant => key grant.2

/-- No key is held twice and no owner is served twice. -/
structure Exclusive (key : Resource → Key) (state : State Owner Resource) : Prop where
  keys_nodup : (keys key state).Nodup
  owners_nodup : (state.granted.map Prod.fst).Nodup

theorem granted_unique (key : Resource → Key) (state : State Owner Resource)
    (exclusive : Exclusive key state) (owner : Owner) (resource other : Resource)
    (first : (owner, resource) ∈ state.granted) (second : (owner, other) ∈ state.granted) :
    resource = other := by
  have same := List.inj_on_of_nodup_map exclusive.owners_nodup first second rfl
  exact congrArg Prod.snd same

theorem keys_add (key : Resource → Key) (state next : State Owner Resource) (resource : Resource)
    (pooled : next.pool.Perm (resource :: state.pool))
    (same_granted : next.granted = state.granted) :
    (keys key next).Perm (key resource :: keys key state) := by
  unfold keys
  rw [same_granted]
  exact (pooled.map key).append_right _

variable [DecidableEq Key]

def withoutKey (key : Resource → Key) (resource : Resource) (pool : List Resource) :
    List Resource :=
  pool.filter fun other => key other ≠ key resource

inductive Step (key : Resource → Key) (state next : State Owner Resource) : Prop where
  | idle (same_pool : next.pool = state.pool) (same_granted : next.granted = state.granted)
  | add (resource : Resource) (fresh : key resource ∉ keys key state)
      (pooled : next.pool.Perm (resource :: state.pool))
      (same_granted : next.granted = state.granted)
  | grant (owner : Owner) (resource : Resource) (member : resource ∈ state.pool)
      (unserved : owner ∉ state.granted.map Prod.fst)
      (taken : next.pool = withoutKey key resource state.pool)
      (given : next.granted.Perm ((owner, resource) :: state.granted))
  | drop (resource : Resource) (member : resource ∈ state.pool)
      (taken : next.pool = withoutKey key resource state.pool)
      (same_granted : next.granted = state.granted)

theorem granted_kept (key : Resource → Key) (state next : State Owner Resource)
    (step : Step key state next) (grant : Owner × Resource) (member : grant ∈ state.granted) :
    grant ∈ next.granted := by
  cases step with
  | idle _ same_granted => exact same_granted ▸ member
  | add _ _ _ same_granted => exact same_granted ▸ member
  | grant owner resource _ _ _ given => exact given.mem_iff.mpr (List.mem_cons_of_mem _ member)
  | drop _ _ _ same_granted => exact same_granted ▸ member

theorem pool_split (key : Resource → Key) (pool : List Resource) (resource : Resource)
    (distinct : (pool.map key).Nodup) (member : resource ∈ pool) :
    (pool.map key).Perm (key resource :: (withoutKey key resource pool).map key) := by
  have erased : (withoutKey key resource pool).map key = (pool.map key).erase (key resource) := by
    rw [distinct.erase_eq_filter, List.filter_map]
    congr 1
    exact List.filter_congr fun other _ => by simp [bne, beq_eq_decide]
  rw [erased]
  exact List.perm_cons_erase (List.mem_map_of_mem member)

theorem keys_grant (key : Resource → Key) (state next : State Owner Resource) (owner : Owner)
    (resource : Resource) (distinct : (keys key state).Nodup) (member : resource ∈ state.pool)
    (taken : next.pool = withoutKey key resource state.pool)
    (given : next.granted.Perm ((owner, resource) :: state.granted)) :
    (keys key next).Perm (keys key state) := by
  have split := pool_split key state.pool resource (List.Nodup.of_append_left distinct) member
  calc keys key next
      _ = (withoutKey key resource state.pool).map key ++
          next.granted.map (fun grant => key grant.2) := by rw [keys, taken]
      _ |>.Perm ((withoutKey key resource state.pool).map key ++
          key resource :: state.granted.map fun grant => key grant.2) :=
        (given.map _).append_left _
      _ |>.Perm (key resource :: (withoutKey key resource state.pool).map key ++
          state.granted.map fun grant => key grant.2) := List.perm_middle
      _ |>.Perm (keys key state) := split.symm.append_right _

theorem keys_drop (key : Resource → Key) (state next : State Owner Resource) (resource : Resource)
    (distinct : (keys key state).Nodup) (member : resource ∈ state.pool)
    (taken : next.pool = withoutKey key resource state.pool)
    (same_granted : next.granted = state.granted) :
    (keys key state).Perm (key resource :: keys key next) := by
  have split := pool_split key state.pool resource (List.Nodup.of_append_left distinct) member
  unfold keys
  rw [same_granted, taken]
  exact split.append_right _

theorem exclusive_step (key : Resource → Key) (state next : State Owner Resource)
    (exclusive : Exclusive key state) (step : Step key state next) : Exclusive key next := by
  obtain ⟨keys_nodup, owners_nodup⟩ := exclusive
  cases step with
  | idle same_pool same_granted =>
      exact ⟨by rwa [keys, same_pool, same_granted], same_granted ▸ owners_nodup⟩
  | add resource fresh pooled same_granted =>
      have split := keys_add key state next resource pooled same_granted
      exact ⟨split.nodup_iff.mpr (List.nodup_cons.mpr ⟨fresh, keys_nodup⟩),
        same_granted ▸ owners_nodup⟩
  | grant owner resource member unserved taken given =>
      have split := keys_grant key state next owner resource keys_nodup member taken given
      exact ⟨split.nodup_iff.mpr keys_nodup,
        (given.map Prod.fst).nodup_iff.mpr (List.nodup_cons.mpr ⟨unserved, owners_nodup⟩)⟩
  | drop resource member taken same_granted =>
      have split := keys_drop key state next resource keys_nodup member taken same_granted
      exact ⟨(List.nodup_cons.mp (split.nodup_iff.mp keys_nodup)).2, same_granted ▸ owners_nodup⟩

end EChainLib.Allocation
