import Mathlib

/-! Rows of numbers as bytes. A number is that many ones and a two, a row ends with
a three. -/

namespace EChainLib.Marks

def number (n : Nat) : List UInt8 := List.replicate n 1 ++ [2]

def row (numbers : List Nat) : List UInt8 := numbers.flatMap number ++ [3]

def encode (rows : List (List Nat)) : List UInt8 := rows.flatMap row

/-- `n` and `numbers` are what has been read of the current number and row. -/
def decodeFrom : Nat → List Nat → List UInt8 → List (List Nat)
  | _, _, [] => []
  | n, numbers, mark :: rest =>
      if mark = 1 then decodeFrom (n + 1) numbers rest
      else if mark = 2 then decodeFrom 0 (numbers ++ [n]) rest
      else numbers :: decodeFrom 0 [] rest

def decode (marks : List UInt8) : List (List Nat) := decodeFrom 0 [] marks

theorem decodeFrom_number (seen n : Nat) (numbers : List Nat) (rest : List UInt8) :
    decodeFrom seen numbers (number n ++ rest) = decodeFrom 0 (numbers ++ [seen + n]) rest := by
  induction n generalizing seen with
  | zero => simp [number, decodeFrom]
  | succ n ih =>
      have step : number (n + 1) ++ rest = 1 :: (number n ++ rest) := rfl
      rw [step, decodeFrom, if_pos rfl, ih, Nat.add_assoc, Nat.add_comm 1 n]

theorem decodeFrom_row (before numbers : List Nat) (rest : List UInt8) :
    decodeFrom 0 before (row numbers ++ rest) = (before ++ numbers) :: decodeFrom 0 [] rest := by
  induction numbers generalizing before with
  | nil => simp [row, decodeFrom]
  | cons n numbers ih =>
      have step : row (n :: numbers) ++ rest = number n ++ (row numbers ++ rest) := by
        simp [row, List.append_assoc]
      rw [step, decodeFrom_number, ih, Nat.zero_add, List.append_assoc, List.singleton_append]

theorem decode_encode (rows : List (List Nat)) : decode (encode rows) = rows := by
  induction rows with
  | nil => rfl
  | cons numbers rows ih =>
      rw [decode, encode, List.flatMap_cons, decodeFrom_row, List.nil_append]
      exact congrArg (numbers :: ·) ih

theorem zero_not_mem_encode (rows : List (List Nat)) : (0 : UInt8) ∉ encode rows := by
  simp [encode, row, number]

end EChainLib.Marks
