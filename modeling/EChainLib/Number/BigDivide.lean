import Mathlib
import EChainLib.Support.LongDivision
import EChainLib.Number.Uint128

/-! Division of `uint128_t`, and the three overloads of `utils::bigDivide`. -/

namespace EChainLib.Number

/-- How a call ends without a value: an exception, a failed `assert`, or a loop that is not
at its end within the rounds it is given. -/
inductive Stop where
  | runtimeError (what : String)
  | overflowError (what : String)
  | aborted
  | unfinished
  deriving DecidableEq

namespace Uint128

/-- `while (word) { word >>= 1; out++; }`: 64 rounds shift every bit out. -/
def countBits : Nat → UInt64 → UInt8 → UInt8
  | 0, _, out => out
  | rounds + 1, word, out => if word = 0 then out else countBits rounds (word >>> 1) (out + 1)

def bits (x : Uint128) : UInt8 :=
  if x.upper ≠ 0 then countBits 64 x.upper 64 else countBits 64 x.lower 0

/-- The loop of `divmod`; `qr` holds the quotient and the remainder. -/
def divLoop (rhs : Uint128) :
    Nat → Uint128 → Uint128 → Uint128 × Uint128 → Except Stop (Uint128 × Uint128)
  | 0, _, _, _ => .error .unfinished
  | fuel + 1, copyd, adder, qr =>
      if qr.2.ge rhs then
        let qr := if qr.2.ge copyd then (qr.1.or adder, qr.2.sub copyd) else qr
        divLoop rhs fuel (copyd.shiftRight (ofWord 1)) (adder.shiftRight (ofWord 1)) qr
      else .ok qr

def divmod (fuel : Nat) (lhs rhs : Uint128) : Except Stop (Uint128 × Uint128) :=
  if rhs = ofWord 0 then .error (.runtimeError "Error: division or modulus by 0")
  else if rhs = ofWord 1 then .ok (lhs, ofWord 0)
  else if lhs = rhs then .ok (ofWord 1, ofWord 0)
  else if lhs = ofWord 0 ∨ lhs.lt rhs then .ok (ofWord 0, lhs)
  else
    -- the difference of two uint8_t is an int
    let places := ofWord (UInt64.ofInt (lhs.bits.toNat - rhs.bits.toNat))
    let copyd := rhs.shiftLeft places
    let adder := (ofWord 1).shiftLeft places
    if copyd.gt lhs then
      divLoop rhs fuel (copyd.shiftRight (ofWord 1)) (adder.shiftRight (ofWord 1)) (ofWord 0, lhs)
    else divLoop rhs fuel copyd adder (ofWord 0, lhs)

def div (fuel : Nat) (x rhs : Uint128) : Except Stop Uint128 := (divmod fuel x rhs).map Prod.fst

end Uint128

/-! `utils::bigDivide`. -/

/-- The overload over `uint64_t`: what it returns, and `result`. -/
def bigDivideUnsigned (fuel : Nat) (A B C : UInt64) : Except Stop (Bool × UInt64) :=
  ((((Uint128.ofWord A).mul (Uint128.ofWord B)).div fuel (Uint128.ofWord C))).map fun x =>
    (x.leWord 0xffffffffffffffff, x.lower)

/-- The overload over `int64_t`; `result` is not written on overflow. -/
def bigDivide (fuel : Nat) (result A B C : Int64) : Except Stop (Bool × Int64) :=
  if ¬ (0 ≤ A ∧ 0 ≤ B ∧ 0 < C) then .error .aborted
  else
    (bigDivideUnsigned fuel A.toUInt64 B.toUInt64 C.toUInt64).map fun (res, r2) =>
      if res then (decide (r2 ≤ 0x7fffffffffffffff), r2.toInt64) else (res, result)

/-- The overload that throws; `res` has no initialiser. -/
def bigDivideOrThrow (fuel : Nat) (res A B C : Int64) : Except Stop Int64 :=
  match bigDivide fuel res A B C with
  | .error stop => .error stop
  | .ok (false, _) => .error (.overflowError "overflow while performing bigDivide")
  | .ok (true, res) => .ok res

/-! The number of bits. -/

namespace Uint128

theorem countBits_size (rounds : Nat) (word : UInt64) (out : UInt8)
    (bound : word.toNat < 2 ^ rounds) :
    countBits rounds word out = out + UInt8.ofNat word.toNat.size := by
  induction rounds generalizing word out with
  | zero =>
      have zero : word.toNat = 0 := by simpa using bound
      rw [countBits, zero, Nat.size_zero]
      exact (UInt8.add_zero out).symm
  | succ rounds ih =>
      rw [countBits]
      by_cases zero : word = 0
      · rw [if_pos zero, zero, UInt64.toNat_zero, Nat.size_zero]
        exact (UInt8.add_zero out).symm
      · -- one bit is counted, the others are those of the half
        have positive : 0 < word.toNat :=
          Nat.pos_of_ne_zero fun none => zero (UInt64.toNat_inj.mp none)
        have half : (word >>> 1).toNat = word.toNat / 2 := by
          rw [UInt64.toNat_shiftRight, Nat.shiftRight_eq_div_pow]
          rfl
        rw [pow_succ] at bound
        rw [if_neg zero, ih _ _ (by rw [half]; omega), half,
          LongDivision.size_half word.toNat positive, UInt8.ofNat_add, UInt8.add_assoc, UInt8.add_comm 1]
        rfl

theorem size_le_128 (x : Uint128) : x.toNat.size ≤ 128 := Nat.size_le.mpr x.toNat_lt

theorem toNat_bits (x : Uint128) : x.bits.toNat = x.toNat.size := by
  have whole := x.size_le_128
  have counted : x.bits = UInt8.ofNat x.toNat.size := by
    rw [bits, toNat]
    by_cases above : x.upper = 0
    · rw [if_neg (not_not_intro above), countBits_size 64 x.lower 0 x.lower.toNat_lt, above]
      simp
    · have positive : 0 < x.upper.toNat :=
        Nat.pos_of_ne_zero fun none => above (UInt64.toNat_inj.mp none)
      rw [if_pos above, countBits_size 64 x.upper 64 x.upper.toNat_lt,
        LongDivision.size_halves _ _ positive x.lower.toNat_lt, UInt8.ofNat_add]
      rfl
  rw [counted, UInt8.toNat_ofNat_of_lt' (whole.trans_lt (by decide))]

/-! The loop. -/

/-- One round, if the loop has not ended. -/
theorem digit_round (rhs copyd adder : Uint128) (qr : Uint128 × Uint128) (n k : Nat)
    (copied : copyd.toNat = 2 ^ k * rhs.toNat) (added : adder.toNat = 2 ^ k)
    (left : LongDivision.Remaining n rhs.toNat (k + 1) qr.2.toNat qr.1.toNat) :
    let next := if qr.2.ge copyd then (qr.1.or adder, qr.2.sub copyd) else qr
    LongDivision.Remaining n rhs.toNat k next.2.toNat next.1.toNat := by
  intro next
  have taken : (next.2.toNat, next.1.toNat) =
      LongDivision.digit rhs.toNat k qr.2.toNat qr.1.toNat := by
    rw [LongDivision.digit]
    by_cases fits : qr.2.ge copyd = true
    · have high := (ge_iff qr.2 copyd).mp fits
      have chosen : next = (qr.1.or adder, qr.2.sub copyd) := if_pos fits
      rw [chosen, toNat_sub _ _ high, toNat_or, added, copied, left.digit_or,
        if_pos (copied ▸ high)]
    · have low := (ge_iff qr.2 copyd).not.mp fits
      have chosen : next = qr := if_neg fits
      rw [chosen, if_neg (copied ▸ low)]
  have step := left.next
  rw [← taken] at step
  exact step

/-- Both are moved down by one place. -/
theorem next_place (copyd adder : Uint128) (k d : Nat) (copied : copyd.toNat = 2 ^ (k + 1) * d)
    (added : adder.toNat = 2 ^ (k + 1)) :
    (copyd.shiftRight (ofWord 1)).toNat = 2 ^ k * d ∧
      (adder.shiftRight (ofWord 1)).toNat = 2 ^ k := by
  constructor
  · rw [toNat_half, copied, pow_succ, Nat.mul_right_comm, Nat.mul_div_cancel _ (by decide)]
  · rw [toNat_half, added, pow_succ, Nat.mul_div_cancel _ (by decide)]

theorem divLoop_ends (n : Nat) (rhs : Uint128) (fuel : Nat) (copyd adder : Uint128)
    (qr : Uint128 × Uint128) (k : Nat) (enough : k + 2 ≤ fuel)
    (copied : copyd.toNat = 2 ^ k * rhs.toNat) (added : adder.toNat = 2 ^ k)
    (left : LongDivision.Remaining n rhs.toNat (k + 1) qr.2.toNat qr.1.toNat) :
    ∃ result, divLoop rhs fuel copyd adder qr = .ok result ∧
      result.1.toNat = n / rhs.toNat ∧ result.2.toNat = n % rhs.toNat := by
  induction k generalizing fuel copyd adder qr with
  | zero =>
      obtain ⟨rounds, rfl⟩ : ∃ rounds, fuel = rounds + 2 := ⟨fuel - 2, by omega⟩
      rw [divLoop]
      by_cases more : qr.2.ge rhs = true
      · -- the last place: what is left is below the divisor, and the loop ends
        have next := digit_round rhs copyd adder qr n 0 copied added left
        rw [if_pos more, divLoop, if_neg]
        · exact ⟨_, rfl, next.done next.last⟩
        · exact (ge_iff _ _).not.mpr (not_le.mpr next.last)
      · rw [if_neg more]
        exact ⟨qr, rfl, left.done (not_le.mp ((ge_iff _ _).not.mp more))⟩
  | succ k ih =>
      obtain ⟨rounds, rfl⟩ : ∃ rounds, fuel = rounds + 1 := ⟨fuel - 1, by omega⟩
      rw [divLoop]
      by_cases more : qr.2.ge rhs = true
      · have next := digit_round rhs copyd adder qr n (k + 1) copied added left
        have lower := next_place copyd adder k rhs.toNat copied added
        rw [if_pos more]
        exact ih rounds _ _ _ (by omega) lower.1 lower.2 next
      · rw [if_neg more]
        exact ⟨qr, rfl, left.done (not_le.mp ((ge_iff _ _).not.mp more))⟩

/-- Where the loop starts: the divisor moved up to the highest bit of the dividend. -/
theorem places_exact (lhs rhs : Uint128) (order : rhs.toNat ≤ lhs.toNat) :
    (UInt64.ofInt (lhs.bits.toNat - rhs.bits.toNat)).toNat = lhs.toNat.size - rhs.toNat.size := by
  have smaller := Nat.size_le_size order
  have whole := lhs.size_le_128
  have difference : (lhs.toNat.size : Int) - rhs.toNat.size =
      ((lhs.toNat.size - rhs.toNat.size : Nat) : Int) := (Nat.cast_sub smaller).symm
  have inside : ((lhs.toNat.size - rhs.toNat.size : Nat) : Int) % 2 ^ 64 =
      ((lhs.toNat.size - rhs.toNat.size : Nat) : Int) := Int.emod_eq_of_lt (by omega) (by omega)
  rw [toNat_bits, toNat_bits, difference, UInt64.ofInt, inside, Int.toNat_natCast,
    UInt64.toNat_ofNat_of_lt' (lt_of_le_of_lt (by omega) (by decide : 128 < UInt64.size))]

/-- The divisor and a single bit are moved up by as many places as the dividend is longer. -/
theorem moved_start (lhs rhs : Uint128) (large : 2 ≤ rhs.toNat) (order : rhs.toNat ≤ lhs.toNat) :
    (rhs.shiftLeft (ofWord (UInt64.ofInt (lhs.bits.toNat - rhs.bits.toNat)))).toNat =
        2 ^ (lhs.toNat.size - rhs.toNat.size) * rhs.toNat ∧
      ((ofWord 1).shiftLeft (ofWord (UInt64.ofInt (lhs.bits.toNat - rhs.bits.toNat)))).toNat =
        2 ^ (lhs.toNat.size - rhs.toNat.size) := by
  obtain ⟨fits, -, short⟩ := LongDivision.moved_up lhs.toNat rhs.toNat large order
  have whole := lhs.size_le_128
  have places := places_exact lhs rhs order
  have inside : (UInt64.ofInt (lhs.bits.toNat - rhs.bits.toNat)).toNat < 128 := by omega
  constructor
  · have held := fits.trans_le (Nat.pow_le_pow_right (by decide) whole)
    rw [toNat_shiftLeft rhs _ inside, places, Nat.mod_eq_of_lt held, Nat.mul_comm]
  · have one_value : (ofWord 1).toNat = 1 := rfl
    have held : 2 ^ (lhs.toNat.size - rhs.toNat.size) < 2 ^ 128 :=
      Nat.pow_lt_pow_right (by decide) (by omega)
    rw [toNat_shiftLeft _ _ inside, places, one_value, Nat.one_mul, Nat.mod_eq_of_lt held]

theorem divmod_exact (fuel : Nat) (enough : 128 ≤ fuel) (lhs rhs : Uint128)
    (positive : 0 < rhs.toNat) :
    ∃ result, divmod fuel lhs rhs = .ok result ∧
      result.1.toNat = lhs.toNat / rhs.toNat ∧ result.2.toNat = lhs.toNat % rhs.toNat := by
  -- the first four answers need no loop
  have one_value : (ofWord 1).toNat = 1 := rfl
  have zero_value : (ofWord 0).toNat = 0 := rfl
  have nonzero : rhs ≠ ofWord 0 := by
    rintro rfl
    exact absurd positive (by decide)
  rw [divmod, if_neg nonzero]
  by_cases one : rhs = ofWord 1
  · subst one
    rw [if_pos rfl]
    exact ⟨_, rfl, by rw [one_value, Nat.div_one], by rw [one_value, Nat.mod_one, zero_value]⟩
  rw [if_neg one]
  by_cases same : lhs = rhs
  · subst same
    rw [if_pos rfl]
    exact ⟨_, rfl, by rw [one_value, Nat.div_self positive], by rw [Nat.mod_self, zero_value]⟩
  rw [if_neg same]
  by_cases below : lhs = ofWord 0 ∨ lhs.lt rhs = true
  · have smaller : lhs.toNat < rhs.toNat := by
      rcases below with rfl | less
      · exact positive
      · exact (lt_iff lhs rhs).mp less
    rw [if_pos below]
    exact ⟨_, rfl, by rw [Nat.div_eq_of_lt smaller, zero_value], (Nat.mod_eq_of_lt smaller).symm⟩
  rw [if_neg below]
  have order : rhs.toNat ≤ lhs.toNat :=
    not_lt.mp fun less => below (Or.inr ((lt_iff lhs rhs).mpr less))
  have large : 2 ≤ rhs.toNat := by
    have not_one : rhs.toNat ≠ 1 := fun unit => one ((toNat_inj rhs _).mp (unit.trans one_value.symm))
    omega
  -- the loop, from the highest place on
  obtain ⟨-, reaches, short⟩ := LongDivision.moved_up lhs.toNat rhs.toNat large order
  obtain ⟨copied, added⟩ := moved_start lhs rhs large order
  have whole := lhs.size_le_128
  generalize UInt64.ofInt (lhs.bits.toNat - rhs.bits.toNat) = amount at copied added ⊢
  generalize lhs.toNat.size - rhs.toNat.size = k at copied added reaches short
  have start : ∀ digits, lhs.toNat < 2 ^ digits * rhs.toNat →
      LongDivision.Remaining lhs.toNat rhs.toNat digits lhs.toNat (ofWord 0).toNat := by
    intro digits large
    rw [zero_value]
    exact LongDivision.Remaining.first large
  dsimp only
  by_cases high : (rhs.shiftLeft (ofWord amount)).gt lhs = true
  · have less := (gt_iff _ lhs).mp high
    rw [copied] at less
    rw [if_pos high]
    -- the divisor is not above the dividend where it has not been moved
    obtain ⟨j, rfl⟩ : ∃ j, k = j + 1 := by
      refine Nat.exists_eq_succ_of_ne_zero ?_
      rintro rfl
      rw [pow_zero, Nat.one_mul] at less
      exact absurd less (not_lt.mpr order)
    have lower := next_place _ _ j rhs.toNat copied added
    exact divLoop_ends lhs.toNat rhs fuel _ _ _ j (by omega) lower.1 lower.2 (start _ less)
  · rw [if_neg high]
    exact divLoop_ends lhs.toNat rhs fuel _ _ _ k (by omega) copied added
      (start _ reaches)

/-- The quotient, where a dividend is the product of two words. -/
theorem div_product (fuel : Nat) (enough : 128 ≤ fuel) (A B C : UInt64) (positive : 0 < C) :
    ∃ x, ((ofWord A).mul (ofWord B)).div fuel (ofWord C) = .ok x ∧
      x.toNat = A.toNat * B.toNat / C.toNat := by
  have product : ((ofWord A).mul (ofWord B)).toNat = A.toNat * B.toNat := by
    have small := Nat.mul_lt_mul'' A.toNat_lt B.toNat_lt
    rw [toNat_mul, toNat_ofWord, toNat_ofWord, Nat.mod_eq_of_lt (small.trans_le (by norm_num))]
  have divisor : 0 < (ofWord C).toNat := by
    rw [toNat_ofWord]
    exact UInt64.lt_iff_toNat_lt.mp positive
  obtain ⟨result, returned, quotient, -⟩ := divmod_exact fuel enough _ _ divisor
  refine ⟨result.1, ?_, ?_⟩
  · rw [div, returned]
    rfl
  · rw [quotient, product, toNat_ofWord]

end Uint128

/-! `bigDivide`. -/

theorem bigDivideUnsigned_exact (fuel : Nat) (enough : 128 ≤ fuel) (A B C : UInt64)
    (positive : 0 < C) :
    ∃ res result, bigDivideUnsigned fuel A B C = .ok (res, result) ∧
      (res = true ↔ A.toNat * B.toNat / C.toNat ≤ 2 ^ 64 - 1) ∧
      (res = true → result.toNat = A.toNat * B.toNat / C.toNat) := by
  obtain ⟨x, divided, quotient⟩ := Uint128.div_product fuel enough A B C positive
  have fits : x.leWord 0xffffffffffffffff = true ↔ x.toNat < 2 ^ 64 := x.leWord_iff
  refine ⟨_, _, by rw [bigDivideUnsigned, divided]; rfl, ?_, ?_⟩
  · rw [fits, quotient]
    omega
  · intro held
    have small := fits.mp held
    rw [← quotient]
    rw [Uint128.toNat] at small ⊢
    omega

theorem toNat_cast (value : Int64) (nonnegative : 0 ≤ value) :
    (value.toUInt64.toNat : Int) = value.toInt := by
  rw [Int64.toNat_toUInt64_of_le nonnegative, Int64.cast_toNatClampNeg value nonnegative]

theorem toInt_word (word : UInt64) (small : word.toNat < 2 ^ 63) :
    word.toInt64.toInt = word.toNat := by
  have cast : word.toInt64 = Int64.ofNat word.toNat := by
    rw [← UInt64.toInt64_ofNat', UInt64.ofNat_toNat]
  rw [cast, Int64.toInt_ofNat_of_lt small]

theorem bigDivide_signed_exact (fuel : Nat) (enough : 128 ≤ fuel) (result A B C : Int64)
    (A_domain : 0 ≤ A) (B_domain : 0 ≤ B) (positive : 0 < C) :
    ∃ res quotient, bigDivide fuel result A B C = .ok (res, quotient) ∧
      (res = true ↔ A.toInt * B.toInt / C.toInt ≤ 2 ^ 63 - 1) ∧
      (res = true → quotient.toInt = A.toInt * B.toInt / C.toInt) := by
  have divisor : 0 < C.toUInt64 := by
    have value := toNat_cast C (Int64.le_of_lt positive)
    have above := Int64.lt_iff_toInt_lt.mp positive
    rw [Int64.toInt_zero] at above
    exact UInt64.lt_iff_toNat_lt.mpr (by rw [UInt64.toNat_zero]; omega)
  have exact_value : A.toInt * B.toInt / C.toInt =
      ((A.toUInt64.toNat * B.toUInt64.toNat / C.toUInt64.toNat : Nat) : Int) := by
    rw [Int.natCast_ediv, Nat.cast_mul, toNat_cast A A_domain, toNat_cast B B_domain,
      toNat_cast C (Int64.le_of_lt positive)]
  obtain ⟨held, r2, returned, fits, value⟩ :=
    bigDivideUnsigned_exact fuel enough A.toUInt64 B.toUInt64 C.toUInt64 divisor
  rw [exact_value, bigDivide, if_neg (not_not_intro ⟨A_domain, B_domain, positive⟩), returned]
  cases held with
  | false =>
      refine ⟨false, result, rfl, ?_, fun taken => nomatch taken⟩
      -- what the first overload cannot hold the second cannot either
      have large := fits.not.mp Bool.false_ne_true
      simp only [Bool.false_eq_true, false_iff]
      omega
  | true =>
      have quotient := value rfl
      refine ⟨decide (r2 ≤ 0x7fffffffffffffff), r2.toInt64, rfl, ?_, ?_⟩
      · have largest : UInt64.toNat 0x7fffffffffffffff = 2 ^ 63 - 1 := rfl
        rw [decide_eq_true_iff, UInt64.le_iff_toNat_le, largest, quotient]
        omega
      · intro inside
        have small := UInt64.le_iff_toNat_le.mp (of_decide_eq_true inside)
        have largest : UInt64.toNat 0x7fffffffffffffff = 2 ^ 63 - 1 := rfl
        rw [largest] at small
        rw [toInt_word r2 (by omega), quotient]

theorem bigDivide_exact (fuel : Nat) (enough : 128 ≤ fuel) :
    (∀ A B C : UInt64, 0 < C →
      ∃ res result, bigDivideUnsigned fuel A B C = .ok (res, result) ∧
        (res = true ↔ A.toNat * B.toNat / C.toNat ≤ 2 ^ 64 - 1) ∧
        (res = true → result.toNat = A.toNat * B.toNat / C.toNat)) ∧
    (∀ result A B C : Int64, 0 ≤ A → 0 ≤ B → 0 < C →
      ∃ res quotient, bigDivide fuel result A B C = .ok (res, quotient) ∧
        (res = true ↔ A.toInt * B.toInt / C.toInt ≤ 2 ^ 63 - 1) ∧
        (res = true → quotient.toInt = A.toInt * B.toInt / C.toInt)) ∧
    ∀ res A B C : Int64, 0 ≤ A → 0 ≤ B → 0 < C →
      if A.toInt * B.toInt / C.toInt ≤ 2 ^ 63 - 1 then
        ∃ quotient, bigDivideOrThrow fuel res A B C = .ok quotient ∧
          quotient.toInt = A.toInt * B.toInt / C.toInt
      else
        bigDivideOrThrow fuel res A B C =
          .error (.overflowError "overflow while performing bigDivide") := by
  refine ⟨bigDivideUnsigned_exact fuel enough, bigDivide_signed_exact fuel enough, ?_⟩
  intro res A B C A_domain B_domain positive
  obtain ⟨held, quotient, returned, fits, value⟩ :=
    bigDivide_signed_exact fuel enough res A B C A_domain B_domain positive
  cases held with
  | false =>
      rw [if_neg (fits.not.mp Bool.false_ne_true), bigDivideOrThrow, returned]
  | true =>
      rw [if_pos (fits.mp rfl), bigDivideOrThrow, returned]
      exact ⟨quotient, rfl, value rfl⟩

theorem bigDivide_exact_applies :
    bigDivideOrThrow 128 0 0x7fffffffffffffff 6 3 =
        .error (.overflowError "overflow while performing bigDivide") ∧
      ∃ res result, bigDivideUnsigned 128 0xffffffffffffffff 6 7 = .ok (res, result) ∧
        (res = true ↔ UInt64.toNat 0xffffffffffffffff * UInt64.toNat 6 / UInt64.toNat 7 ≤ 2 ^ 64 - 1) ∧
        (res = true →
          result.toNat = UInt64.toNat 0xffffffffffffffff * UInt64.toNat 6 / UInt64.toNat 7) := by
  have overloads := bigDivide_exact 128 (le_refl 128)
  refine ⟨?_, overloads.1 _ _ _ (by decide)⟩
  have thrown := overloads.2.2 0 0x7fffffffffffffff 6 3 (by decide) (by decide) (by decide)
  rwa [if_neg (by decide)] at thrown

end EChainLib.Number
