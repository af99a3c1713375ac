import Mathlib

/-! A queue ordered by due times, the entries of one time in the order in which they came; and
logs, whose every event is right by what is in front of it. -/

namespace EChainLib.DueQueue

variable {Time Value : Type} [LinearOrder Time]

/-- In order of the due times. -/
def Ordered (queue : List (Time × Value)) : Prop :=
  queue.Pairwise fun earlier later => earlier.1 ≤ later.1

/-- Behind everything that is due no later. -/
def enqueue (entry : Time × Value) : List (Time × Value) → List (Time × Value)
  | [] => [entry]
  | first :: rest =>
      if entry.1 < first.1 then entry :: first :: rest else first :: enqueue entry rest

/-- The entries that are due, from the front on, and the others. -/
def split (now : Time) : List (Time × Value) → List (Time × Value) × List (Time × Value)
  | [] => ([], [])
  | first :: rest =>
      if now < first.1 then ([], first :: rest)
      else (first :: (split now rest).1, (split now rest).2)

theorem enqueue_perm (entry : Time × Value) (queue : List (Time × Value)) :
    (enqueue entry queue).Perm (entry :: queue) := by
  induction queue with
  | nil => exact .refl _
  | cons first rest ih =>
      rw [enqueue]
      split_ifs
      · exact .refl _
      · exact (ih.cons first).trans (.swap entry first rest)

theorem mem_enqueue (entry other : Time × Value) (queue : List (Time × Value)) :
    other ∈ enqueue entry queue ↔ other = entry ∨ other ∈ queue :=
  (enqueue_perm entry queue).mem_iff.trans List.mem_cons

theorem enqueue_ordered (entry : Time × Value) {queue : List (Time × Value)}
    (ordered : Ordered queue) : Ordered (enqueue entry queue) := by
  induction queue with
  | nil => exact List.pairwise_singleton _ _
  | cons first rest ih =>
      obtain ⟨least, rest_ordered⟩ := List.pairwise_cons.mp ordered
      rw [enqueue]
      split_ifs with before
      · refine List.pairwise_cons.mpr ⟨fun other member => ?_, ordered⟩
        rcases List.mem_cons.mp member with rfl | later
        · exact before.le
        · exact before.le.trans (least other later)
      · refine List.pairwise_cons.mpr ⟨fun other member => ?_, ih rest_ordered⟩
        rcases (mem_enqueue entry other rest).mp member with rfl | later
        · exact not_lt.mp before
        · exact least other later

/-- Nothing is lost or added by the split. -/
theorem split_append (now : Time) (queue : List (Time × Value)) :
    (split now queue).1 ++ (split now queue).2 = queue := by
  induction queue with
  | nil => rfl
  | cons first rest ih =>
      rw [split]
      split_ifs
      · rfl
      · rw [List.cons_append, ih]

theorem split_due (now : Time) (queue : List (Time × Value)) :
    ∀ entry ∈ (split now queue).1, entry.1 ≤ now := by
  induction queue with
  | nil => simp [split]
  | cons first rest ih =>
      rw [split]
      split_ifs with later
      · simp
      · exact List.forall_mem_cons.mpr ⟨not_lt.mp later, ih⟩

/-- The first entry that is not due hides none that is. -/
theorem split_later (now : Time) {queue : List (Time × Value)} (ordered : Ordered queue) :
    ∀ entry ∈ (split now queue).2, now < entry.1 := by
  induction queue with
  | nil => simp [split]
  | cons first rest ih =>
      obtain ⟨least, rest_ordered⟩ := List.pairwise_cons.mp ordered
      rw [split]
      split_ifs with later
      · exact List.forall_mem_cons.mpr ⟨later, fun entry member => later.trans_le (least entry member)⟩
      · exact ih rest_ordered

theorem ordered_of_append {first second : List (Time × Value)} (ordered : Ordered (first ++ second)) :
    Ordered first ∧ Ordered second := by
  obtain ⟨left, right, -⟩ := List.pairwise_append.mp ordered
  exact ⟨left, right⟩

end EChainLib.DueQueue

namespace EChainLib.Log

variable {Event : Type}

/-- Every event is right by the events in front of it. -/
def Always (right : List Event → Event → Prop) (log : List Event) : Prop :=
  ∀ before event after, log = before ++ event :: after → right before event

theorem always_nil (right : List Event → Event → Prop) : Always right [] := by
  intro before event after split
  cases before <;> cases split

theorem always_append (right : List Event → Event → Prop) (log : List Event) (event : Event) :
    Always right (log ++ [event]) ↔ Always right log ∧ right log event := by
  constructor
  · intro always
    refine ⟨fun before other after split => ?_, always log event [] rfl⟩
    exact always before other (after ++ [event]) (by rw [split]; simp)
  · rintro ⟨earlier, last⟩ before other after split
    rcases List.eq_nil_or_concat after with rfl | ⟨front, final, rfl⟩
    · obtain ⟨rfl, same⟩ := List.append_inj' split rfl
      cases same
      exact last
    · rw [List.concat_eq_append, ← List.cons_append, ← List.append_assoc] at split
      obtain ⟨rfl, -⟩ := List.append_inj' split rfl
      exact earlier before other front rfl

end EChainLib.Log
