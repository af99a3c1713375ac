import Mathlib

/-! An array that is read by index, where a read outside it ends the run with the index,
against the list of its elements. -/

namespace EChainLib.Cursor

variable {α : Type}

/-- A read is inside the array or it is the index that was outside. -/
def read (array : List α) (i : Int) : Except Int α :=
  if i < 0 then .error i
  else
    match array[i.toNat]? with
    | some item => .ok item
    | none => .error i

theorem read_drop {array rest : List α} {item : α} {i : Nat} (here : array.drop i = item :: rest) :
    read array i = .ok item := by
  have found : array[i]? = some item := by
    have first : (array.drop i)[0]? = array[i + 0]? := List.getElem?_drop
    rw [here] at first
    simpa using first.symm
  rw [read, if_neg (by omega), Int.toNat_natCast, found]

theorem read_past {array : List α} {i : Nat} (past : array.drop i = []) :
    read array i = .error (i : Int) := by
  have none_there : array[i]? = none :=
    List.getElem?_eq_none (List.drop_eq_nil_iff.mp past)
  rw [read, if_neg (by omega), Int.toNat_natCast, none_there]

theorem drop_succ {array rest : List α} {item : α} {i : Nat} (here : array.drop i = item :: rest) :
    array.drop (i + 1) = rest := by
  rw [← List.tail_drop, here, List.tail_cons]

theorem drop_add {array front rest : List α} {i : Nat} (here : array.drop i = front ++ rest) :
    array.drop (i + front.length) = rest := by
  rw [← List.drop_drop, here, List.drop_left]

theorem lt_of_drop {array rest : List α} {item : α} {i : Nat} (here : array.drop i = item :: rest) :
    i < array.length := by
  by_contra past
  rw [List.drop_eq_nil_of_le (not_lt.mp past)] at here
  cases here

theorem take_of_drop {array front rest : List α} {i : Nat} (here : array.drop i = front ++ rest) :
    array.take (i + front.length) = array.take i ++ front := by
  rw [List.take_add, here, List.take_left]

/-! Forward. -/

/-- `while (i < length && more(array[i])) i++`, where `left` is `length - i`. -/
def scan (more : α → Bool) (array : List α) : Nat → Nat → Except Int Nat
  | 0, i => return i
  | left + 1, i => do
      if more (← read array i) then scan more array left (i + 1) else return i

theorem scan_eq (more : α → Bool) (array : List α) (i : Nat) :
    scan more array (array.length - i) i = .ok (i + ((array.drop i).takeWhile more).length) := by
  obtain ⟨left, count⟩ : ∃ left, array.length - i = left := ⟨_, rfl⟩
  rw [count]
  induction left generalizing i with
  | zero =>
      rw [List.drop_eq_nil_of_le (by omega)]
      rfl
  | succ left ih =>
      have inside : i < array.length := by omega
      have here := List.drop_eq_getElem_cons inside
      have step := ih (i + 1) (by omega)
      rw [scan, read_drop here, here, List.takeWhile_cons]
      show (if more array[i] then scan more array left (i + 1) else .ok i) = _
      split
      · rw [step, List.length_cons]
        congr 1
        omega
      · rfl

theorem drop_scan (more : α → Bool) (array : List α) (i : Nat) :
    array.drop (i + ((array.drop i).takeWhile more).length) = (array.drop i).dropWhile more :=
  drop_add List.takeWhile_append_dropWhile.symm

/-- `strncmp(array + i, name, strlen(name)) == 0`. -/
def starts [DecidableEq α] (array : List α) : Nat → List α → Except Int Bool
  | _, [] => return true
  | i, item :: name => do
      if (← read array i) = item then starts array (i + 1) name else return false

section Starts

variable [DecidableEq α] {array : List α}

theorem starts_of_prefix {name : List α} {i : Nat} (found : name <+: array.drop i) :
    starts array i name = .ok true := by
  induction name generalizing i with
  | nil => rfl
  | cons item name ih =>
      obtain ⟨rest, split⟩ := found
      have here : array.drop i = item :: (name ++ rest) := split.symm
      rw [starts, read_drop here]
      show (if item = item then _ else _) = _
      rw [if_pos rfl]
      exact ih ⟨rest, (drop_succ here).symm⟩

theorem starts_of_other {name : List α} {i : Nat} (absent : ¬ name <+: array.drop i)
    (decided : ¬ array.drop i <+: name) : starts array i name = .ok false := by
  induction name generalizing i with
  | nil => exact absurd List.nil_prefix absent
  | cons item name ih =>
      cases here : array.drop i with
      | nil => exact absurd (here ▸ List.nil_prefix) decided
      | cons first rest =>
          rw [starts, read_drop here]
          show (if first = item then _ else _) = _
          by_cases same : first = item
          · rw [if_pos same]
            rw [here, same, List.prefix_cons_inj] at absent decided
            rw [← drop_succ here] at absent decided
            exact ih absent decided
          · rw [if_neg same]
            rfl

theorem starts_of_cut {name : List α} {i : Nat} (cut : array.drop i <+: name)
    (longer : array.drop i ≠ name) : ∃ index, starts array i name = .error index := by
  induction name generalizing i with
  | nil => exact absurd (List.prefix_nil.mp cut) longer
  | cons item name ih =>
      cases here : array.drop i with
      | nil =>
          rw [starts, read_past here]
          exact ⟨_, rfl⟩
      | cons first rest =>
          rw [here, List.cons_prefix_cons] at cut
          obtain ⟨rfl, cut⟩ := cut
          rw [here] at longer
          obtain ⟨index, failed⟩ := ih (i := i + 1) (by rw [drop_succ here]; exact cut)
            (by rw [drop_succ here]; exact fun same => longer (by rw [same]))
          refine ⟨index, ?_⟩
          rw [starts, read_drop here]
          show (if first = first then _ else _) = _
          rw [if_pos rfl]
          exact failed

end Starts

/-! Backward. -/

/-- `while (more(array[j])) j--`, where `below` is `j + 1`. -/
def back (more : α → Bool) (array : List α) : Nat → Int → Except Int Int
  | 0, j => do
      let _ ← read array j
      return j
  | below + 1, j => do
      if more (← read array j) then back more array below (j - 1) else return j

theorem back_eq (more : α → Bool) (array : List α) (below : Nat) (inside : below ≤ array.length)
    (stops : (array.take below).rdropWhile more ≠ []) :
    back more array below (below - 1 : Int) =
      .ok (((array.take below).rdropWhile more).length - 1 : Int) := by
  induction below with
  | zero => exact absurd rfl stops
  | succ below ih =>
      have here := List.drop_eq_getElem_cons (show below < array.length by omega)
      have place : ((below + 1 : Nat) : Int) - 1 = (below : Int) := by omega
      have taken : array.take (below + 1) = array.take below ++ [array[below]] :=
        List.take_succ_eq_append_getElem (by omega)
      rw [taken, List.rdropWhile_concat] at stops ⊢
      rw [place, back, read_drop here]
      show (if more array[below] then back more array below (below - 1) else .ok (below : Int)) = _
      split
      · next again =>
          rw [if_pos again] at stops
          exact ih (by omega) stops
      · rw [List.length_append, List.length_take, min_eq_left (by omega)]
        simp

theorem rdropWhile_append (more : α → Bool) (front rest : List α) :
    (front ++ rest).rdropWhile more =
      if rest.rdropWhile more = [] then front.rdropWhile more
      else front ++ rest.rdropWhile more := by
  unfold List.rdropWhile
  rw [List.reverse_append, List.dropWhile_append]
  by_cases all : rest.reverse.dropWhile more = []
  · rw [if_pos (List.isEmpty_iff.mpr all), if_pos (List.reverse_eq_nil_iff.mpr all)]
  · rw [if_neg (fun empty => all (List.isEmpty_iff.mp empty)),
      if_neg (fun empty => all (List.reverse_eq_nil_iff.mp empty)), List.reverse_append,
      List.reverse_reverse]

/-! Copies. -/

/-- What `strncpy` has copied in front of its padding. -/
def copy [DecidableEq α] (zero : α) (array : List α) : Nat → Nat → Except Int (List α)
  | 0, _ => return []
  | count + 1, i => do
      let item ← read array i
      if item = zero then return []
      return item :: (← copy zero array count (i + 1))

theorem copy_eq [DecidableEq α] (zero : α) {array value rest : List α} {i : Nat}
    (here : array.drop i = value ++ rest) :
    copy zero array value.length i = .ok (value.takeWhile fun item => item ≠ zero) := by
  induction value generalizing i with
  | nil => rfl
  | cons item value ih =>
      have first : array.drop i = item :: (value ++ rest) := here
      rw [List.length_cons, copy, read_drop first, List.takeWhile_cons]
      show (if item = zero then Except.ok [] else
        (copy zero array value.length (i + 1)).bind fun items => .ok (item :: items)) = _
      by_cases ends : item = zero
      · rw [if_pos ends, if_neg (by simpa using ends)]
      · rw [if_neg ends, if_pos (by simpa using ends), ih (drop_succ first)]
        rfl

end EChainLib.Cursor
