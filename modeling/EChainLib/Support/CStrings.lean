import Mathlib

/-! `strlen` and `strcpy` access by access. A string is what is left of its memory from the
pointer on, and an access outside the source or the target stops the run. -/

namespace EChainLib.CStrings

variable {α : Type}

inductive Fault where
  | readOutside (offset : Nat)
  | writeOutside (offset : Nat)
  deriving DecidableEq

variable [DecidableEq α] (zero : α)

/-- The length of the string at `offset`, where `rest` is the memory from there on. -/
def strlen : Nat → List α → Except Fault Nat
  | offset, [] => .error (.readOutside offset)
  | offset, item :: rest =>
      if item = zero then .ok 0 else (strlen (offset + 1) rest).map (· + 1)

/-- What is written in front of the terminator into a target of `size` items. -/
def strcpy (size : Nat) : Nat → Nat → List α → Except Fault (List α)
  | offset, _, [] => .error (.readOutside offset)
  | offset, place, item :: rest =>
      if size ≤ place then .error (.writeOutside place)
      else if item = zero then .ok []
      else (strcpy size (offset + 1) (place + 1) rest).map (item :: ·)

/-- Whether `strcmp` finds two strings equal. -/
def strcmp : Nat → List α → List α → Except Fault Bool
  | offset, [], _ => .error (.readOutside offset)
  | offset, _, [] => .error (.readOutside offset)
  | offset, item :: rest, other :: others =>
      if item ≠ other then .ok false
      else if item = zero then .ok true
      else strcmp (offset + 1) rest others

variable {zero}

theorem strlen_eq (text behind : List α) (solid : zero ∉ text) (offset : Nat) :
    strlen zero offset (text ++ zero :: behind) = .ok text.length := by
  induction text generalizing offset with
  | nil => simp [strlen]
  | cons item rest ih =>
      have other : item ≠ zero := fun same => solid (same ▸ List.mem_cons_self)
      rw [List.cons_append, strlen, if_neg other,
        ih (fun there => solid (List.mem_cons_of_mem _ there))]
      rfl

/-- The terminator is written as well. -/
theorem strcpy_fits (text behind : List α) (solid : zero ∉ text) (size offset place : Nat)
    (room : place + text.length < size) :
    strcpy zero size offset place (text ++ zero :: behind) = .ok text := by
  induction text generalizing offset place with
  | nil =>
      have inside : ¬ size ≤ place := by simpa using room
      simp [strcpy, inside]
  | cons item rest ih =>
      have other : item ≠ zero := fun same => solid (same ▸ List.mem_cons_self)
      rw [List.length_cons] at room
      rw [List.cons_append, strcpy, if_neg (by omega), if_neg other,
        ih (fun there => solid (List.mem_cons_of_mem _ there)) _ _ (by omega)]
      rfl

theorem strcpy_overflows (text behind : List α) (solid : zero ∉ text) (size offset place : Nat)
    (inside : place ≤ size) (tight : size ≤ place + text.length) :
    strcpy zero size offset place (text ++ zero :: behind) = .error (.writeOutside size) := by
  induction text generalizing offset place with
  | nil =>
      have full : place = size := le_antisymm inside (by simpa using tight)
      simp [strcpy, full]
  | cons item rest ih =>
      have other : item ≠ zero := fun same => solid (same ▸ List.mem_cons_self)
      rw [List.length_cons] at tight
      rw [List.cons_append, strcpy]
      by_cases full : size ≤ place
      · rw [if_pos full, le_antisymm inside full]
      · rw [if_neg full, if_neg other,
          ih (fun there => solid (List.mem_cons_of_mem _ there)) _ _ (by omega) (by omega)]
        rfl

theorem strcmp_eq (text other behind behind' : List α) (solid : zero ∉ text)
    (solid' : zero ∉ other) (offset : Nat) :
    strcmp zero offset (text ++ zero :: behind) (other ++ zero :: behind') =
      .ok (decide (text = other)) := by
  induction text generalizing other offset with
  | nil =>
      cases other with
      | nil => simp [strcmp]
      | cons first others =>
          have differ : zero ≠ first := fun same => solid' (same ▸ List.mem_cons_self)
          simp [strcmp, differ]
  | cons item rest ih =>
      have some_item : item ≠ zero := fun same => solid (same ▸ List.mem_cons_self)
      cases other with
      | nil => simp [strcmp, some_item]
      | cons first others =>
          have onward := ih others (fun there => solid (List.mem_cons_of_mem _ there))
            (fun there => solid' (List.mem_cons_of_mem _ there)) (offset + 1)
          by_cases same : item = first
          · subst same
            rw [List.cons_append, List.cons_append, strcmp, if_neg (not_not.mpr rfl),
              if_neg some_item, onward]
            simp
          · simp [strcmp, same]

end EChainLib.CStrings
