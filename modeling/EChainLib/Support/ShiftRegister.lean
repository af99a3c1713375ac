import Mathlib

/-! Cyclic redundancy checks, least significant bit first: a register that is shifted once
for each bit, and the same register driven by a table a symbol at a time. -/

namespace EChainLib.ShiftRegister

variable {w k : Nat} (poly : BitVec w)

/-- One bit. -/
def shift (register : BitVec w) : BitVec w :=
  if register.getLsbD 0 then (register >>> 1) ^^^ poly else register >>> 1

/-- One symbol of `k` bits. -/
def absorb (register : BitVec w) (symbol : BitVec k) : BitVec w :=
  (shift poly)^[k] (register ^^^ symbol.setWidth w)

/-- The check of a message. -/
def crc (initial : BitVec w) (message : List (BitVec k)) : BitVec w :=
  message.foldl (absorb poly) initial

/-- A shift is linear. -/
theorem shift_xor (a b : BitVec w) : shift poly (a ^^^ b) = shift poly a ^^^ shift poly b := by
  unfold shift
  rw [BitVec.getLsbD_xor, BitVec.ushiftRight_xor_distrib]
  cases a.getLsbD 0 with
  | false => cases b.getLsbD 0 <;> simp [BitVec.xor_assoc]
  | true =>
      cases b.getLsbD 0 with
      | false =>
          simp only [Bool.xor_false, if_true, Bool.false_eq_true, if_false]
          ac_rfl
      | true =>
          have cancelled : (a >>> 1 ^^^ poly) ^^^ (b >>> 1 ^^^ poly) = a >>> 1 ^^^ b >>> 1 := by
            calc (a >>> 1 ^^^ poly) ^^^ (b >>> 1 ^^^ poly)
                = (a >>> 1 ^^^ b >>> 1) ^^^ (poly ^^^ poly) := by ac_rfl
              _ = a >>> 1 ^^^ b >>> 1 := by rw [BitVec.xor_self, BitVec.xor_zero]
          simp [cancelled]

theorem shifts_xor (n : Nat) (a b : BitVec w) :
    (shift poly)^[n] (a ^^^ b) = (shift poly)^[n] a ^^^ (shift poly)^[n] b := by
  induction n generalizing a b with
  | zero => rfl
  | succ n ih => rw [Function.iterate_succ_apply, shift_xor, ih]; rfl

/-- Clear bits are shifted out without a trace. -/
theorem shifts_clear (n : Nat) (register : BitVec w)
    (clear : ∀ i < n, register.getLsbD i = false) :
    (shift poly)^[n] register = register >>> n := by
  induction n generalizing register with
  | zero => simp
  | succ n ih =>
      have first : shift poly register = register >>> 1 := by
        rw [shift, clear 0 (Nat.succ_pos n)]
        rfl
      have rest : ∀ i < n, (register >>> 1).getLsbD i = false := by
        intro i inside
        rw [BitVec.getLsbD_ushiftRight]
        exact clear (1 + i) (by omega)
      rw [Function.iterate_succ_apply, first, ih _ rest, ← BitVec.shiftRight_add, Nat.add_comm]

/-- What `k` shifts make of a register depends on its low `k` bits; the others move down. -/
theorem shifts_split (register : BitVec w) :
    (shift poly)^[k] register =
      (shift poly)^[k] ((register.setWidth k).setWidth w) ^^^ (register >>> k) := by
  have low : ∀ i < k, (register ^^^ (register.setWidth k).setWidth w).getLsbD i = false := by
    intro i inside
    simp only [BitVec.getLsbD_xor, BitVec.getLsbD_setWidth, inside, decide_true, Bool.true_and]
    by_cases short : i < w
    · simp [short]
    · simp [short, BitVec.getLsbD_of_ge register i (by omega)]
  have high : (register ^^^ (register.setWidth k).setWidth w) >>> k = register >>> k := by
    apply BitVec.eq_of_getLsbD_eq
    intro i _
    simp [BitVec.getLsbD_ushiftRight, BitVec.getLsbD_setWidth]
  have whole : (register.setWidth k).setWidth w ^^^
      (register ^^^ (register.setWidth k).setWidth w) = register := by
    rw [BitVec.xor_comm register, ← BitVec.xor_assoc, BitVec.xor_self, BitVec.zero_xor]
  calc (shift poly)^[k] register
      = (shift poly)^[k] ((register.setWidth k).setWidth w ^^^
          (register ^^^ (register.setWidth k).setWidth w)) := by rw [whole]
    _ = (shift poly)^[k] ((register.setWidth k).setWidth w) ^^^ (register >>> k) := by
        rw [shifts_xor, shifts_clear poly k _ low, high]

/-- A table that holds what `k` shifts make of every symbol. -/
def Tabulates (table : BitVec k → BitVec w) : Prop :=
  ∀ symbol, table symbol = (shift poly)^[k] (symbol.setWidth w)

/-- One symbol is one look into the table. -/
theorem absorb_table (table : BitVec k → BitVec w) (law : Tabulates poly table) (fits : k ≤ w)
    (register : BitVec w) (symbol : BitVec k) :
    absorb poly register symbol =
      table (register.setWidth k ^^^ symbol) ^^^ (register >>> k) := by
  have index : (register ^^^ symbol.setWidth w).setWidth k = register.setWidth k ^^^ symbol := by
    rw [BitVec.setWidth_xor, BitVec.setWidth_setWidth_of_le symbol fits, BitVec.setWidth_eq]
  have rest : (register ^^^ symbol.setWidth w) >>> k = register >>> k := by
    apply BitVec.eq_of_getLsbD_eq
    intro i _
    simp [BitVec.getLsbD_ushiftRight, BitVec.getLsbD_setWidth]
  rw [absorb, shifts_split, index, rest, law]

end EChainLib.ShiftRegister
