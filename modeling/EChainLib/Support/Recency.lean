import Mathlib

/-! Entries in the order of their last use, the most recent first, and how many of them a store
of bounded size keeps. -/

namespace EChainLib.Recency

variable {K V : Type*} [DecidableEq K]

def without (key : K) (entries : List (K × V)) : List (K × V) :=
  entries.filter fun entry => entry.1 ≠ key

def put (room : Nat) (key : K) (value : V) (entries : List (K × V)) : List (K × V) :=
  ((key, value) :: without key entries).take room

/-- A use of a key, which does nothing where it is absent. -/
def touch (key : K) (entries : List (K × V)) : List (K × V) :=
  match entries.lookup key with
  | none => entries
  | some value => (key, value) :: without key entries

def Distinct (entries : List (K × V)) : Prop := (entries.map Prod.fst).Nodup

variable {entries smaller : List (K × V)} {key other : K} {value : V} {room : Nat}

theorem mem_without : (other, value) ∈ without key entries ↔
    (other, value) ∈ entries ∧ other ≠ key := by
  simp [without]

theorem without_sublist (key : K) (entries : List (K × V)) : (without key entries).Sublist entries :=
  List.filter_sublist

omit [DecidableEq K] in
theorem Distinct.sublist (distinct : Distinct entries) (within : smaller.Sublist entries) :
    Distinct smaller :=
  List.Nodup.sublist (within.map Prod.fst) distinct

theorem Distinct.cons_without (distinct : Distinct entries) (key : K) (value : V) :
    Distinct ((key, value) :: without key entries) := by
  refine List.nodup_cons.mpr ⟨fun member => ?_, distinct.sublist (without_sublist key entries)⟩
  obtain ⟨⟨other, value'⟩, there, same⟩ := List.mem_map.mp member
  exact (mem_without.mp there).2 same

theorem Distinct.put (distinct : Distinct entries) (room : Nat) (key : K) (value : V) :
    Distinct (put room key value entries) :=
  (distinct.cons_without key value).sublist (List.take_sublist _ _)

theorem Distinct.touch (distinct : Distinct entries) (key : K) : Distinct (touch key entries) := by
  rw [Recency.touch]
  cases entries.lookup key with
  | none => exact distinct
  | some value => exact distinct.cons_without key value

omit [DecidableEq K] in
theorem not_mem_of_key (apart : key ∉ entries.map Prod.fst) (value : V) : (key, value) ∉ entries :=
  fun member => apart (List.mem_map.mpr ⟨_, member, rfl⟩)

theorem lookup_cons_of_ne (apart : key ≠ other) (value : V) (entries : List (K × V)) :
    ((other, value) :: entries).lookup key = entries.lookup key := by
  rw [List.lookup_cons, beq_false_of_ne apart]

theorem lookup_iff (distinct : Distinct entries) :
    entries.lookup key = some value ↔ (key, value) ∈ entries := by
  induction entries with
  | nil => simp
  | cons entry rest ih =>
      obtain ⟨other, value'⟩ := entry
      obtain ⟨apart, later⟩ := List.nodup_cons.mp distinct
      rw [List.mem_cons]
      by_cases same : key = other
      · subst same
        simp [not_mem_of_key apart value, eq_comm]
      · rw [lookup_cons_of_ne same, ih later]
        simp [same]

theorem lookup_none_iff : entries.lookup key = none ↔ ∀ value, (key, value) ∉ entries := by
  rw [List.lookup_eq_none_iff]
  constructor
  · intro all value member
    simpa using all _ member
  · rintro absent ⟨other, value⟩ member
    refine bne_iff_ne.mpr ?_
    rintro rfl
    exact absent value member

theorem without_absent (absent : entries.lookup key = none) : without key entries = entries := by
  refine List.filter_eq_self.mpr ?_
  rintro ⟨other, value⟩ member
  rw [decide_eq_true_eq]
  rintro rfl
  exact lookup_none_iff.mp absent value member

theorem without_length (distinct : Distinct entries) (present : entries.lookup key = some value) :
    (without key entries).length + 1 = entries.length := by
  induction entries with
  | nil => simp at present
  | cons entry rest ih =>
      obtain ⟨other, value'⟩ := entry
      obtain ⟨apart, later⟩ := List.nodup_cons.mp distinct
      by_cases same : other = key
      · subst same
        have absent : rest.lookup other = none :=
          lookup_none_iff.mpr (not_mem_of_key apart)
        have rest_same := without_absent absent
        rw [without] at rest_same ⊢
        rw [List.filter_cons_of_neg (by simp), rest_same, List.length_cons]
      · rw [lookup_cons_of_ne (Ne.symm same)] at present
        have shorter := ih later present
        rw [without] at shorter ⊢
        rw [List.filter_cons_of_pos (by simpa using same), List.length_cons, shorter,
          List.length_cons]

theorem touch_length (distinct : Distinct entries) (key : K) :
    (touch key entries).length = entries.length := by
  rw [touch]
  cases present : entries.lookup key with
  | none => rfl
  | some value => exact without_length distinct present

/-! A larger store keeps what a smaller one keeps. -/

/-- The store with less room is part of the other one, in the same order, and lacks at most as
many entries as it has less room. -/
structure Included (little much : Nat) (smaller larger : List (K × V)) : Prop where
  within : smaller.Sublist larger
  lacks : larger.length + little ≤ smaller.length + much
  full : larger.length ≤ much

variable {little much : Nat} {larger : List (K × V)}

theorem Included.hit (included : Included little much smaller larger) (distinct : Distinct larger)
    (present : smaller.lookup key = some value) : larger.lookup key = some value :=
  (lookup_iff distinct).mpr
    (included.within.subset ((lookup_iff (distinct.sublist included.within)).mp present))

theorem Included.touch (included : Included little much smaller larger)
    (distinct : Distinct larger) (key : K) :
    Included little much (touch key smaller) (touch key larger) := by
  have smaller_distinct := distinct.sublist included.within
  refine ⟨?_, ?_, ?_⟩
  · cases in_smaller : smaller.lookup key with
    | some value =>
        rw [Recency.touch, Recency.touch, in_smaller, included.hit distinct in_smaller]
        exact (included.within.filter _).cons_cons _
    | none =>
        rw [Recency.touch, in_smaller, Recency.touch]
        cases larger.lookup key with
        | none => exact included.within
        | some value =>
            have kept := included.within.filter fun entry => entry.1 ≠ key
            have same : smaller.filter (fun entry => entry.1 ≠ key) = smaller :=
              without_absent in_smaller
            rw [same] at kept
            exact kept.cons _
  · rw [touch_length smaller_distinct, touch_length distinct]
    exact included.lacks
  · rw [touch_length distinct]
    exact included.full

omit [DecidableEq K] in
theorem dropLast_within (within : smaller.Sublist larger) :
    smaller.dropLast.Sublist larger.dropLast := by
  rcases List.eq_nil_or_concat larger with rfl | ⟨rest, last, rfl⟩
  · rw [List.sublist_nil.mp within]
  · rw [List.concat_eq_append] at within ⊢
    rw [List.dropLast_concat]
    obtain ⟨first, second, rfl, in_rest, in_last⟩ := List.sublist_append_iff.mp within
    rcases List.sublist_singleton.mp in_last with rfl | rfl
    · rw [List.append_nil]
      exact (List.dropLast_sublist first).trans in_rest
    · rwa [List.dropLast_concat]

theorem Included.erase (included : Included little much smaller larger)
    (distinct : Distinct larger) (key : K) :
    Included little much (without key smaller) (without key larger) := by
  have smaller_distinct := distinct.sublist included.within
  have lacks := included.lacks
  have full := included.full
  have within := included.within.length_le
  refine ⟨included.within.filter _, ?_, (without_sublist key larger).length_le.trans full⟩
  cases in_smaller : smaller.lookup key with
  | some value =>
      have less := without_length smaller_distinct in_smaller
      have less' := without_length distinct (included.hit distinct in_smaller)
      omega
  | none =>
      have shorter := (without_sublist key larger).length_le
      rw [without_absent in_smaller]
      omega

theorem Included.put (included : Included little much smaller larger) (distinct : Distinct larger)
    (smaller_full : smaller.length ≤ little) (key : K) (value : V) :
    Included little much (put little key value smaller) (put much key value larger) := by
  have smaller_distinct := distinct.sublist included.within
  have lacks := included.lacks
  have full := included.full
  have erased := included.erase distinct key
  have within : ((key, value) :: without key smaller).Sublist ((key, value) :: without key larger) :=
    erased.within.cons_cons _
  have shorter := (without_sublist key larger).length_le
  have smaller_shorter := (without_sublist key smaller).length_le
  have lacks' := erased.lacks
  refine ⟨?_, ?_, ?_⟩
  · rw [Recency.put, Recency.put]
    by_cases overflow : much < (without key larger).length + 1
    · -- the larger store is full and had no entry of the key, so the smaller one is full too
      have drops : ((key, value) :: without key larger).take much =
          ((key, value) :: without key larger).dropLast := by
        rw [List.dropLast_eq_take, List.length_cons]
        congr 1
        omega
      have same : little = (without key smaller).length ∧ much = (without key larger).length := by
        cases in_larger : larger.lookup key with
        | some value' =>
            have less := without_length distinct in_larger
            omega
        | none => omega
      have smaller_drops : ((key, value) :: without key smaller).take little =
          ((key, value) :: without key smaller).dropLast := by
        rw [List.dropLast_eq_take, List.length_cons]
        congr 1
        omega
      rw [drops, smaller_drops]
      exact dropLast_within within
    · have whole : ((key, value) :: without key larger).take much =
          (key, value) :: without key larger :=
        List.take_of_length_le (by rw [List.length_cons]; omega)
      rw [whole]
      exact (List.take_sublist _ _).trans within
  · rw [Recency.put, Recency.put, List.length_take, List.length_take, List.length_cons,
      List.length_cons]
    omega
  · rw [Recency.put]
    exact List.length_take_le _ _

omit [DecidableEq K] in
theorem Included.nil (less : little ≤ much) :
    Included little much ([] : List (K × V)) ([] : List (K × V)) :=
  ⟨.refl _, by simpa using less, Nat.zero_le _⟩

end EChainLib.Recency
