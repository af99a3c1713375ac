import Mathlib

/-! Lists as rows of slots: what one of them holds, and a total over all of them. -/

namespace EChainLib.Slots

variable {α : Type*}

theorem getElem?_changed {slots : List α} {i : Nat} {old : α} (here : slots[i]? = some old)
    (new : α) (j : Nat) : (slots.set i new)[j]? = if j = i then some new else slots[j]? := by
  obtain ⟨inside, -⟩ := List.getElem?_eq_some_iff.mp here
  rw [List.getElem?_set]
  by_cases same : i = j
  · rw [if_pos same, if_pos inside, if_pos same.symm]
  · rw [if_neg same, if_neg (Ne.symm same)]

theorem total_changed (measure : α → Nat) {slots : List α} {i : Nat} {old : α}
    (here : slots[i]? = some old) (new : α) :
    ((slots.set i new).map measure).sum + measure old = (slots.map measure).sum + measure new := by
  induction slots generalizing i with
  | nil => cases here
  | cons slot rest ih =>
      cases i with
      | zero =>
          obtain rfl := Option.some.inj here
          simp only [List.set_cons_zero, List.map_cons, List.sum_cons]
          omega
      | succ i =>
          have later := ih here
          simp only [List.set_cons_succ, List.map_cons, List.sum_cons]
          omega

theorem le_total (measure : α → Nat) {slots : List α} {i : Nat} {slot : α}
    (here : slots[i]? = some slot) : measure slot ≤ (slots.map measure).sum :=
  List.single_le_sum (fun _ _ => Nat.zero_le _) _
    (List.mem_map_of_mem (List.mem_of_getElem? here))

theorem total_eq_zero (measure : α → Nat) {slots : List α}
    (all : ∀ (i : Nat) (slot : α), slots[i]? = some slot → measure slot = 0) :
    (slots.map measure).sum = 0 := by
  refine List.sum_eq_zero fun value member => ?_
  obtain ⟨slot, there, rfl⟩ := List.mem_map.mp member
  obtain ⟨i, here⟩ := List.getElem?_of_mem there
  exact all i slot here

end EChainLib.Slots
