import Mathlib

/-! Signed binary digits, the least significant one first: the number a row spells, the multiples
of group elements that rows give place by place from the top, and sparse rows. -/

namespace EChainLib.SignedDigits

def value : List Int → Int
  | [] => 0
  | digit :: rest => digit + 2 * value rest

def digitAt (row : List Int) (place : Nat) : Int := row.getD place 0

@[simp] theorem digitAt_nil (place : Nat) : digitAt [] place = 0 := rfl

@[simp] theorem digitAt_zero (digit : Int) (rest : List Int) : digitAt (digit :: rest) 0 = digit :=
  rfl

@[simp] theorem digitAt_succ (digit : Int) (rest : List Int) (place : Nat) :
    digitAt (digit :: rest) (place + 1) = digitAt rest place := rfl

theorem digitAt_mem {row : List Int} {place : Nat} (inside : place < row.length) :
    digitAt row place ∈ row := by
  rw [digitAt, List.getD_eq_getElem _ _ inside]
  exact List.getElem_mem inside

theorem digitAt_outside {row : List Int} {place : Nat} (outside : row.length ≤ place) :
    digitAt row place = 0 := List.getD_eq_default _ _ outside

theorem lt_length_of_digitAt {row : List Int} {place : Nat} (digit : digitAt row place ≠ 0) :
    place < row.length := by
  by_contra outside
  exact digit (digitAt_outside (not_lt.mp outside))

theorem value_append (low high : List Int) :
    value (low ++ high) = value low + 2 ^ low.length * value high := by
  induction low with
  | nil => simp [value]
  | cons digit rest ih =>
      rw [List.cons_append, value, value, ih, List.length_cons, pow_succ]
      ring

theorem value_drop (row : List Int) (place : Nat) :
    value (row.drop place) = digitAt row place + 2 * value (row.drop (place + 1)) := by
  induction row generalizing place with
  | nil => simp [value]
  | cons digit rest ih =>
      cases place with
      | zero => rfl
      | succ place => exact ih place

/-! Rows of digits, each with an element it is to be multiplied with. -/

section
variable {G : Type*} [AddCommGroup G]

def atPlace (rows : List (List Int × G)) (place : Nat) : G :=
  (rows.map fun row => digitAt row.1 place • row.2).sum

/-- What the places from this one on give. -/
def valueFrom (rows : List (List Int × G)) (place : Nat) : G :=
  (rows.map fun row => value (row.1.drop place) • row.2).sum

theorem valueFrom_step (rows : List (List Int × G)) (place : Nat) :
    valueFrom rows place = (2 : Int) • valueFrom rows (place + 1) + atPlace rows place := by
  induction rows with
  | nil => simp [valueFrom, atPlace]
  | cons row rest ih =>
      simp only [valueFrom, atPlace, List.map_cons, List.sum_cons] at ih ⊢
      rw [ih, value_drop, add_smul, mul_smul, smul_add]
      abel

theorem valueFrom_end (rows : List (List Int × G)) (place : Nat)
    (short : ∀ row ∈ rows, row.1.length ≤ place) : valueFrom rows place = 0 := by
  refine List.sum_eq_zero fun multiple member => ?_
  obtain ⟨row, there, rfl⟩ := List.mem_map.mp member
  rw [List.drop_eq_nil_of_le (short row there), value, zero_smul]

/-- A row may be cut into blocks when each block gets its power of two with its element. -/
theorem value_blocks (size : Nat) (row : List Int) (base : G) :
    value row • base = value (row.take size) • base +
      value (row.drop size) • ((2 : Int) ^ size • base) := by
  rcases le_total size row.length with inside | outside
  · have parts := value_append (row.take size) (row.drop size)
    rw [List.take_append_drop, List.length_take, min_eq_left inside] at parts
    rw [parts, add_smul, mul_comm, mul_smul]
  · rw [List.take_of_length_le outside, List.drop_eq_nil_of_le outside, value, zero_smul, add_zero]

end

/-- Digits below `2 ^ width`, each zero or odd. Two that are not zero are more than `width` places
apart; the last one may be `width` places from the one before it. -/
structure Sparse (width : Nat) (row : List Int) : Prop where
  small : ∀ digit ∈ row, |digit| < 2 ^ width
  odd : ∀ digit ∈ row, digit ≠ 0 → Odd digit
  apart : ∀ low high, low < high → digitAt row low ≠ 0 → digitAt row high ≠ 0 →
    low + width < high ∨ (high + 1 = row.length ∧ low + width = high)

namespace Sparse
variable {width : Nat} {row : List Int} {digit : Int}

theorem nil : Sparse width [] where
  small _ member := absurd member List.not_mem_nil
  odd _ member := absurd member List.not_mem_nil
  apart _ _ _ low := absurd rfl low

theorem shifted (sparse : Sparse width row) : Sparse width (0 :: row) where
  small digit member := by
    rcases List.mem_cons.mp member with rfl | later
    · simp
    · exact sparse.small digit later
  odd digit member nonzero := by
    rcases List.mem_cons.mp member with rfl | later
    · exact absurd rfl nonzero
    · exact sparse.odd digit later nonzero
  apart low high before at_low at_high := by
    cases low with
    | zero => exact absurd rfl at_low
    | succ low =>
        cases high with
        | zero => omega
        | succ high =>
            have gap := sparse.apart low high (by omega) at_low at_high
            rw [List.length_cons]
            omega

/-- A digit in front of a row that begins with zeros. -/
theorem cons (sparse : Sparse width row) (small : |digit| < 2 ^ width) (odd : Odd digit)
    (zeros : ∀ place, digitAt row place ≠ 0 →
      width ≤ place ∨ (place + 1 = row.length ∧ place + 1 = width)) :
    Sparse width (digit :: row) where
  small other member := by
    rcases List.mem_cons.mp member with rfl | later
    · exact small
    · exact sparse.small other later
  odd other member nonzero := by
    rcases List.mem_cons.mp member with rfl | later
    · exact odd
    · exact sparse.odd other later nonzero
  apart low high before at_low at_high := by
    cases high with
    | zero => omega
    | succ high =>
        cases low with
        | zero =>
            have gap := zeros high at_high
            rw [List.length_cons]
            omega
        | succ low =>
            have gap := sparse.apart low high (by omega) at_low at_high
            rw [List.length_cons]
            omega

end Sparse

end EChainLib.SignedDigits
