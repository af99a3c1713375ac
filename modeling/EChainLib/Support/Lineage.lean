import Mathlib

/-! Histories of versioned records, oldest first. A record is a root or follows an
earlier record of the same owner, whose version is one less. -/

namespace EChainLib.Lineage

universe u v w

/-- What is read of a record. A root follows the name `origin`. -/
structure Reading (Record : Type u) (Name : Type v) (Owner : Type w) where
  name : Record → Name
  owner : Record → Owner
  version : Record → Option Int
  follows : Record → Option Name
  origin : Name

variable {Record : Type u} {Name : Type v} {Owner : Type w}
  (reading : Reading Record Name Owner)

def Root (record : Record) : Prop :=
  reading.version record = some 1 ∧ reading.follows record = some reading.origin

structure Succeeds (parent record : Record) : Prop where
  owner : reading.owner parent = reading.owner record
  named : reading.follows record = some (reading.name parent)
  counted : ∃ version, reading.version parent = some version ∧
    reading.version record = some (version + 1)

def Linked (earlier : List Record) (record : Record) : Prop :=
  Root reading record ∨ ∃ parent ∈ earlier, Succeeds reading parent record

/-- Every record is linked to the records before it. -/
def WellFormed (records : List Record) : Prop :=
  ∀ before record after, records = before ++ record :: after → Linked reading before record

/-- The record that a record follows. -/
def parentOf [DecidableEq Name] (records : List Record) (record : Record) : Option Record :=
  (reading.follows record).bind fun parent => records.find? fun other => reading.name other = parent

/-- The record a number of steps back. -/
def ancestor [DecidableEq Name] (records : List Record) : Nat → Record → Option Record
  | 0, record => some record
  | steps + 1, record => (parentOf reading records record).bind (ancestor records steps)

variable {reading}

theorem linked_mono {earlier more : List Record} {record : Record} (contained : earlier ⊆ more)
    (linked : Linked reading earlier record) : Linked reading more record := by
  rcases linked with root | ⟨parent, member, succeeds⟩
  · exact .inl root
  · exact .inr ⟨parent, contained member, succeeds⟩

theorem wellFormed_nil : WellFormed reading [] := by
  intro before record after split
  simp at split

theorem wellFormed_append {records added : List Record} (formed : WellFormed reading records)
    (linked : ∀ record ∈ added, Linked reading records record) :
    WellFormed reading (records ++ added) := by
  intro before record after split
  rcases List.append_eq_append_iff.mp split with ⟨skipped, rfl, rest⟩ | ⟨kept, rfl, rest⟩
  · have member : record ∈ added := by
      rw [rest]
      exact List.mem_append_right _ List.mem_cons_self
    exact linked_mono (List.subset_append_left _ _) (linked record member)
  · cases kept with
    | nil =>
        have member : record ∈ added := by
          rw [← List.nil_append added, ← rest]
          exact List.mem_cons_self
        simpa using linked record member
    | cons first others =>
        obtain ⟨rfl, rfl⟩ := List.cons.inj rest
        exact formed before record others rfl

/-- A record that follows others counts at most one version for each of them. -/
theorem version_of_split {records : List Record} (formed : WellFormed reading records)
    (before : List Record) (record : Record) (after : List Record)
    (split : records = before ++ record :: after) :
    ∃ steps : Nat, reading.version record = some (steps + 1 : Int) ∧ steps ≤ before.length := by
  induction length : before.length using Nat.strong_induction_on generalizing before record after with
  | _ count ih =>
      rcases formed before record after split with ⟨first, _⟩ | ⟨parent, member, succeeds⟩
      · exact ⟨0, by simpa using first, Nat.zero_le _⟩
      · obtain ⟨earlier, between, rfl⟩ := List.append_of_mem member
        have placed : records = earlier ++ parent :: (between ++ record :: after) := by
          rw [split, List.append_assoc, List.cons_append]
        simp only [List.length_append, List.length_cons] at length
        obtain ⟨steps, counted, few⟩ := ih earlier.length (by omega) earlier parent _ placed rfl
        obtain ⟨version, parent_version, own_version⟩ := succeeds.counted
        rw [counted, Option.some.injEq] at parent_version
        refine ⟨steps + 1, ?_, by omega⟩
        rw [own_version, ← parent_version]
        rfl

theorem version_le_length {records : List Record} (formed : WellFormed reading records)
    {record : Record} (member : record ∈ records) :
    ∃ version, reading.version record = some version ∧ 1 ≤ version ∧ version ≤ records.length := by
  obtain ⟨before, after, split⟩ := List.append_of_mem member
  obtain ⟨steps, counted, few⟩ := version_of_split formed before record after split
  refine ⟨steps + 1, counted, by omega, ?_⟩
  rw [split, List.length_append, List.length_cons]
  push_cast
  omega

theorem parentOf_succeeds [DecidableEq Name] {records : List Record}
    (distinct : (records.map reading.name).Nodup) {parent record : Record}
    (member : parent ∈ records) (succeeds : Succeeds reading parent record) :
    parentOf reading records record = some parent := by
  rw [parentOf, succeeds.named, Option.bind_some]
  cases found : records.find? fun other => reading.name other = reading.name parent with
  | none => simpa using List.find?_eq_none.mp found parent member
  | some other =>
      have same : reading.name other = reading.name parent := by
        simpa using List.find?_some found
      rw [List.inj_on_of_nodup_map distinct (List.mem_of_find?_eq_some found) member same]

/-- From a record of version n, n - 1 steps lead to a root of the same owner. -/
theorem ancestor_root [DecidableEq Name] {records : List Record}
    (formed : WellFormed reading records) (distinct : (records.map reading.name).Nodup)
    {record : Record} (member : record ∈ records) :
    ∃ steps : Nat, reading.version record = some (steps + 1 : Int) ∧
      ∃ root, ancestor reading records steps record = some root ∧ Root reading root ∧
        reading.owner root = reading.owner record := by
  obtain ⟨before, after, split⟩ := List.append_of_mem member
  clear member
  induction length : before.length using Nat.strong_induction_on generalizing before record after with
  | _ count ih =>
      rcases formed before record after split with root | ⟨parent, member, succeeds⟩
      · exact ⟨0, by simpa using root.1, record, rfl, root, rfl⟩
      · obtain ⟨earlier, between, rfl⟩ := List.append_of_mem member
        have placed : records = earlier ++ parent :: (between ++ record :: after) := by
          rw [split, List.append_assoc, List.cons_append]
        simp only [List.length_append, List.length_cons] at length
        obtain ⟨steps, counted, root, reached, rooted, owned⟩ :=
          ih earlier.length (by omega) earlier _ placed rfl
        obtain ⟨version, parent_version, own_version⟩ := succeeds.counted
        rw [counted, Option.some.injEq] at parent_version
        have listed : parent ∈ records := by
          rw [placed]
          exact List.mem_append_right _ List.mem_cons_self
        refine ⟨steps + 1, ?_, root, ?_, rooted, owned.trans succeeds.owner⟩
        · rw [own_version, ← parent_version]
          rfl
        · rw [ancestor, parentOf_succeeds distinct listed succeeds, Option.bind_some, reached]

end EChainLib.Lineage
