import Mathlib
import EChainLib.Support.SignedDigits

/-! `compute_wNAF` of `ec_mult.cpp`. -/

namespace EChainLib.Ec

open SignedDigits

/-- A `BIGNUM`, by its sign and its magnitude. -/
structure BigNum where
  neg : Bool
  magnitude : Nat
  deriving DecidableEq

namespace BigNum

def toInt (a : BigNum) : Int := if a.neg then -a.magnitude else a.magnitude

def isZero (a : BigNum) : Bool := a.magnitude = 0

def numBits (a : BigNum) : Nat := Nat.size a.magnitude

def isBitSet (a : BigNum) (n : Nat) : Bool := a.magnitude.testBit n

/-- `a->d[i]`. -/
def word (a : BigNum) (i : Nat) : Nat := a.magnitude >>> (64 * i) % 2 ^ 64

def sign (a : BigNum) : Int := if a.neg then -1 else 1

theorem toInt_eq (a : BigNum) : a.toInt = a.sign * a.magnitude := by
  unfold toInt sign
  split <;> simp

theorem magnitude_lt (a : BigNum) : a.magnitude < 2 ^ a.numBits := Nat.lt_size_self _

theorem isZero_iff (a : BigNum) : a.isZero = true ↔ a.magnitude = 0 := decide_eq_true_iff

end BigNum

/-- One turn of the loop of `compute_wNAF`: the digit and what it leaves of `window_val`. -/
def wNAFTurn (w len j window_val : Nat) : Option (Int × Nat) :=
  let bit := 1 <<< w
  let next_bit := bit <<< 1
  let mask := next_bit - 1
  if window_val &&& 1 ≠ 0 then
    let digit : Int :=
      if window_val &&& bit ≠ 0 then
        -- modified wNAF: at the top a positive digit shortens the row
        if j + w + 1 ≥ len then (window_val &&& (mask >>> 1) : Nat)
        else (window_val : Int) - next_bit
      else window_val
    if digit ≤ -bit ∨ digit ≥ bit ∨ digit % 2 = 0 then none
    else
      let rest : Int := window_val - digit
      if rest ≠ 0 ∧ rest ≠ next_bit ∧ rest ≠ bit then none else some (digit, rest.toNat)
  else some (0, window_val)

def nextWindow (scalar : BigNum) (w j window_val : Nat) : Nat :=
  window_val >>> 1 + 1 <<< w * (scalar.isBitSet (j + w)).toNat

/-- The loop of `compute_wNAF`, by the room left in `r`: `none` is an error or a write behind `r`. -/
def wNAFLoop (scalar : BigNum) (w len : Nat) : Nat → Nat → Nat → Option (List Int)
  | 0, window_val, j => if window_val ≠ 0 ∨ j + w + 1 < len then none else some []
  | room + 1, window_val, j =>
      if window_val ≠ 0 ∨ j + w + 1 < len then
        (wNAFTurn w len j window_val).bind fun (digit, rest) =>
          let window_val := nextWindow scalar w (j + 1) rest
          if window_val > 1 <<< w <<< 1 then none
          else (wNAFLoop scalar w len room window_val (j + 1)).map (scalar.sign * digit :: ·)
      else some []

/-- `compute_wNAF`; its digits are in `signed char`. -/
def computeWNAF (scalar : BigNum) (w : Nat) : Option (List Int) :=
  if scalar.isZero then some [0]
  else if w = 0 ∨ w > 7 then none
  else
    let len := scalar.numBits
    let mask := 1 <<< w <<< 1 - 1
    wNAFLoop scalar w len (len + 1) (scalar.word 0 &&& mask) 0

/-! One turn. -/

/-- What a turn does with a window of at most `2 ^ (w + 1)`. -/
inductive Turned (w len j window_val : Nat) : Int → Nat → Prop
  | zero (even : window_val % 2 = 0) : Turned w len j window_val 0 window_val
  | digit {digit : Int} {rest : Nat} (odd : Odd digit) (parts : (window_val : Int) = digit + rest)
      (small : |digit| < 2 ^ w) (top : len ≤ j + w + 1 → 0 < digit)
      (left : rest = 0 ∨ rest = 2 ^ (w + 1) ∨ (rest = 2 ^ w ∧ len ≤ j + w + 1)) :
      Turned w len j window_val digit rest

theorem bit_eq (w : Nat) : 1 <<< w = 2 ^ w := by rw [Nat.shiftLeft_eq, Nat.one_mul]

theorem next_bit_eq (w : Nat) : 2 ^ w <<< 1 = 2 ^ (w + 1) := by rw [Nat.shiftLeft_eq]; rfl

theorem and_bit {window_val w : Nat} (bound : window_val < 2 ^ (w + 1)) :
    window_val &&& 2 ^ w ≠ 0 ↔ 2 ^ w ≤ window_val := by
  have top : window_val / 2 ^ w < 2 := by
    rw [Nat.div_lt_iff_lt_mul (Nat.two_pow_pos w)]
    rwa [pow_succ, Nat.mul_comm] at bound
  have above : 1 ≤ window_val / 2 ^ w ↔ 2 ^ w ≤ window_val := by
    rw [Nat.le_div_iff_mul_le (Nat.two_pow_pos w), Nat.one_mul]
  rw [Nat.and_two_pow, Nat.testBit_eq_decide_div_mod_eq, ← above]
  constructor
  · intro nonzero
    by_contra low
    simp [Nat.lt_one_iff.mp (not_le.mp low)] at nonzero
  · intro high
    simp [le_antisymm (Nat.lt_succ_iff.mp top) high]

theorem wNAFTurn_turned (len j : Nat) {w window_val : Nat} (width : 0 < w)
    (bound : window_val ≤ 2 ^ (w + 1)) :
    ∃ digit rest, wNAFTurn w len j window_val = some (digit, rest) ∧
      Turned w len j window_val digit rest := by
  have double : 2 ^ (w + 1) = 2 * 2 ^ w := by rw [pow_succ, Nat.mul_comm]
  obtain ⟨half, even_bit⟩ : ∃ half, 2 ^ w = 2 * half := by
    obtain ⟨v, rfl⟩ := Nat.exists_eq_add_of_lt width
    exact ⟨2 ^ v, by rw [Nat.zero_add, pow_succ, Nat.mul_comm]⟩
  have cast : ((2 ^ w : Nat) : Int) = 2 ^ w := by push_cast; rfl
  simp only [wNAFTurn, bit_eq, next_bit_eq]
  by_cases odd : window_val % 2 = 0
  · exact ⟨0, window_val, by rw [Nat.and_one_is_mod, odd]; rfl, .zero odd⟩
  rw [Nat.and_one_is_mod, if_pos (show window_val % 2 ≠ 0 from odd)]
  have below : window_val < 2 ^ (w + 1) := by omega
  simp only [and_bit below]
  by_cases high : 2 ^ w ≤ window_val
  · rw [if_pos high]
    by_cases top : j + w + 1 ≥ len
    · have half_mask : (2 ^ (w + 1) - 1) >>> 1 = 2 ^ w - 1 := by
        rw [Nat.shiftRight_one]
        omega
      rw [if_pos top, half_mask, Nat.and_two_pow_sub_one_eq_mod, Nat.mod_eq_sub_mod high,
        Nat.mod_eq_of_lt (by omega)]
      refine ⟨((window_val - 2 ^ w : Nat) : Int), 2 ^ w, ?_, .digit ?_ ?_ ?_ ?_ (.inr (.inr ⟨rfl, top⟩))⟩
      · rw [if_neg (by omega), if_neg (by omega)]
        simp only [Option.some.injEq, Prod.mk.injEq, true_and]
        omega
      · rw [Int.odd_iff]
        omega
      · omega
      · rw [abs_lt, ← cast]
        omega
      · omega
    · rw [if_neg top]
      refine ⟨(window_val : Int) - (2 ^ (w + 1) : Nat), 2 ^ (w + 1), ?_,
        .digit ?_ ?_ ?_ (fun at_top => absurd at_top top) (.inr (.inl rfl))⟩
      · rw [if_neg (by omega), if_neg (by omega)]
        simp only [Option.some.injEq, Prod.mk.injEq, true_and]
        omega
      · rw [Int.odd_iff]
        omega
      · omega
      · rw [abs_lt, ← cast]
        omega
  · rw [if_neg high]
    refine ⟨window_val, 0, ?_, .digit ?_ ?_ ?_ ?_ (.inl rfl)⟩
    · rw [if_neg (by omega), if_neg (by omega)]
      simp
    · rw [Int.odd_iff]
      omega
    · omega
    · rw [abs_lt, ← cast]
      omega
    · omega

theorem left_even {w rest : Nat} {top : Prop}
    (left : rest = 0 ∨ rest = 2 ^ (w + 1) ∨ (rest = 2 ^ w ∧ top)) (width : 0 < w) :
    rest % 2 = 0 := by
  obtain ⟨v, rfl⟩ := Nat.exists_eq_succ_of_ne_zero width.ne'
  rcases left with rfl | rfl | ⟨rfl, -⟩
  · rfl
  · rw [pow_succ, Nat.mul_mod_left]
  · rw [pow_succ, Nat.mul_mod_left]

namespace Turned
variable {w len j window_val rest : Nat} {digit : Int}

theorem even (width : 0 < w) (turned : Turned w len j window_val digit rest) : rest % 2 = 0 := by
  cases turned with
  | zero even => exact even
  | digit odd parts small top left => exact left_even left width

theorem parts (turned : Turned w len j window_val digit rest) :
    (window_val : Int) = digit + rest := by
  cases turned with
  | zero even => rw [zero_add]
  | digit odd parts small top left => exact parts

theorem rest_le (bound : window_val ≤ 2 ^ (w + 1)) (turned : Turned w len j window_val digit rest) :
    rest ≤ 2 ^ (w + 1) := by
  cases turned with
  | zero even => exact bound
  | digit odd parts small top left =>
      rcases left with rfl | rfl | ⟨rfl, -⟩
      · exact Nat.zero_le _
      · exact le_refl _
      · exact Nat.pow_le_pow_right (by decide) (Nat.le_succ w)

theorem rest_le_window (at_top : len ≤ j + w + 1)
    (turned : Turned w len j window_val digit rest) : rest ≤ window_val := by
  cases turned with
  | zero even => exact le_refl _
  | digit odd parts small top left =>
      have positive := top at_top
      omega

end Turned

/-! The loop. -/

/-- The number that is still to be written at `j`. -/
def remaining (scalar : BigNum) (w j window_val : Nat) : Nat :=
  window_val + 2 ^ (w + 1) * (scalar.magnitude / 2 ^ (j + w + 1))

theorem nextWindow_eq (scalar : BigNum) (w j window_val : Nat) :
    nextWindow scalar w j window_val =
      window_val / 2 + 2 ^ w * (scalar.magnitude / 2 ^ (j + w) % 2) := by
  rw [nextWindow, Nat.shiftRight_one, bit_eq, BigNum.isBitSet, Nat.testBit_eq_decide_div_mod_eq]
  rcases Nat.mod_two_eq_zero_or_one (scalar.magnitude / 2 ^ (j + w)) with zero | one
  · simp [zero]
  · simp [one]

theorem remaining_step (scalar : BigNum) {w len j window_val rest : Nat} {digit : Int}
    (width : 0 < w) (turned : Turned w len j window_val digit rest) :
    (remaining scalar w j window_val : Int) =
      digit + 2 * remaining scalar w (j + 1) (nextWindow scalar w (j + 1) rest) := by
  have even := turned.even width
  have parts := turned.parts
  have halves : scalar.magnitude / 2 ^ (j + 1 + w + 1) = scalar.magnitude / 2 ^ (j + 1 + w) / 2 := by
    rw [pow_succ, Nat.div_div_eq_div_mul]
  have place : j + w + 1 = j + 1 + w := by omega
  have window : 2 * nextWindow scalar w (j + 1) rest =
      rest + 2 ^ (w + 1) * (scalar.magnitude / 2 ^ (j + 1 + w) % 2) := by
    rw [nextWindow_eq, pow_succ, mul_add]
    have half : 2 * (rest / 2) = rest := by omega
    rw [half]
    ring
  have split : scalar.magnitude / 2 ^ (j + 1 + w) =
      scalar.magnitude / 2 ^ (j + 1 + w) % 2 + 2 * (scalar.magnitude / 2 ^ (j + 1 + w) / 2) :=
    (Nat.mod_add_div _ _).symm
  have doubled : 2 * remaining scalar w (j + 1) (nextWindow scalar w (j + 1) rest) =
      rest + 2 ^ (w + 1) * (scalar.magnitude / 2 ^ (j + 1 + w)) := by
    calc 2 * remaining scalar w (j + 1) (nextWindow scalar w (j + 1) rest)
        = 2 * nextWindow scalar w (j + 1) rest +
            2 ^ (w + 1) * (2 * (scalar.magnitude / 2 ^ (j + 1 + w) / 2)) := by
          rw [remaining, halves]
          ring
      _ = rest + 2 ^ (w + 1) * (scalar.magnitude / 2 ^ (j + 1 + w)) := by
          rw [window, add_assoc, ← mul_add, ← split]
  have whole : (remaining scalar w j window_val : Int) = window_val +
      ((2 ^ (w + 1) * (scalar.magnitude / 2 ^ (j + 1 + w)) : Nat) : Int) := by
    rw [remaining, place]
    push_cast
    rfl
  rw [whole, parts]
  have cast : ((2 * remaining scalar w (j + 1) (nextWindow scalar w (j + 1) rest) : Nat) : Int) =
      rest + ((2 ^ (w + 1) * (scalar.magnitude / 2 ^ (j + 1 + w)) : Nat) : Int) := by
    rw [doubled]
    push_cast
    rfl
  push_cast at cast ⊢
  linarith

/-- The loop at `j`, with room for the digits up to the length of the scalar and one more. -/
structure AtLoop (scalar : BigNum) (w room window_val j : Nat) : Prop where
  width : 0 < w
  bound : window_val ≤ 2 ^ (w + 1)
  room_left : room + j = scalar.numBits + 1
  top : scalar.numBits ≤ j + w + 1 → window_val * 2 ^ j ≤ 2 ^ scalar.numBits

namespace AtLoop
variable {scalar : BigNum} {w room window_val j rest : Nat} {digit : Int}

theorem bits_above (scalar : BigNum) {place : Nat} (above : scalar.numBits ≤ place) :
    scalar.magnitude / 2 ^ place = 0 :=
  Nat.div_eq_of_lt (lt_of_lt_of_le scalar.magnitude_lt (Nat.pow_le_pow_right (by decide) above))

theorem next_bound (at_loop : AtLoop scalar w (room + 1) window_val j)
    (turned : Turned w scalar.numBits j window_val digit rest) :
    nextWindow scalar w (j + 1) rest ≤ 2 ^ (w + 1) := by
  have rest_bound := turned.rest_le at_loop.bound
  have one_bit : scalar.magnitude / 2 ^ (j + 1 + w) % 2 ≤ 1 :=
    Nat.lt_succ_iff.mp (Nat.mod_lt _ (by decide))
  have bit_bound : 2 ^ w * (scalar.magnitude / 2 ^ (j + 1 + w) % 2) ≤ 2 ^ w := by
    simpa using Nat.mul_le_mul_left (2 ^ w) one_bit
  have double : 2 ^ (w + 1) = 2 * 2 ^ w := by rw [pow_succ, Nat.mul_comm]
  rw [nextWindow_eq]
  omega

theorem next (at_loop : AtLoop scalar w (room + 1) window_val j)
    (turned : Turned w scalar.numBits j window_val digit rest) :
    AtLoop scalar w room (nextWindow scalar w (j + 1) rest) (j + 1) where
  width := at_loop.width
  bound := at_loop.next_bound turned
  room_left := by
    have room_left := at_loop.room_left
    omega
  top above := by
    rcases Nat.lt_or_ge (j + w + 1) scalar.numBits with below | at_top
    · have length : scalar.numBits = (w + 1) + (j + 1) := by omega
      rw [length, pow_add 2 (w + 1) (j + 1)]
      exact Nat.mul_le_mul_right _ (at_loop.next_bound turned)
    · have no_bit := bits_above scalar (show scalar.numBits ≤ j + 1 + w by omega)
      have halved : 2 * nextWindow scalar w (j + 1) rest = rest := by
        have even := turned.even at_loop.width
        rw [nextWindow_eq, no_bit]
        omega
      calc nextWindow scalar w (j + 1) rest * 2 ^ (j + 1)
          = 2 * nextWindow scalar w (j + 1) rest * 2 ^ j := by ring
        _ ≤ window_val * 2 ^ j := by
            rw [halved]
            exact Nat.mul_le_mul_right _ (turned.rest_le_window at_top)
        _ ≤ 2 ^ scalar.numBits := at_loop.top at_top

/-- Without room there is nothing left to write. -/
theorem finished (at_loop : AtLoop scalar w 0 window_val j) :
    ¬ (window_val ≠ 0 ∨ j + w + 1 < scalar.numBits) := by
  have room_left := at_loop.room_left
  have width := at_loop.width
  have small := at_loop.top (by omega)
  rintro (some_left | below)
  · have large : 2 ^ j ≤ window_val * 2 ^ j :=
      Nat.le_mul_of_pos_left _ (Nat.pos_of_ne_zero some_left)
    have grows : 2 ^ scalar.numBits < 2 ^ j := Nat.pow_lt_pow_right (by decide) (by omega)
    omega
  · omega

end AtLoop

/-- What the loop writes from `j` on. -/
structure Written (scalar : BigNum) (w room window_val j : Nat) (digits : List Int) : Prop where
  spells : value digits = scalar.sign * remaining scalar w j window_val
  sparse : Sparse w digits
  fits : digits.length ≤ room
  last : ∀ some_digits : digits ≠ [], digits.getLast some_digits ≠ 0
  zeros : ∀ t ≤ w, 2 ^ t ∣ window_val → ∀ place < t, digitAt digits place = 0
  single : ∀ t, scalar.numBits ≤ j + w + 1 → window_val = 2 ^ t → digits.length = t + 1
  nothing : ¬ (window_val ≠ 0 ∨ j + w + 1 < scalar.numBits) → digits = []

namespace Written
variable {scalar : BigNum} {w room window_val j rest : Nat} {digit : Int} {digits : List Int}

theorem remaining_done (done : ¬ (window_val ≠ 0 ∨ j + w + 1 < scalar.numBits)) :
    remaining scalar w j window_val = 0 := by
  obtain ⟨no_window, no_bits⟩ := not_or.mp done
  rw [remaining, not_not.mp no_window, AtLoop.bits_above scalar (not_lt.mp no_bits),
    Nat.mul_zero]

theorem remaining_pos (more : window_val ≠ 0 ∨ j + w + 1 < scalar.numBits) :
    remaining scalar w j window_val ≠ 0 := by
  rcases more with window | bits
  · rw [remaining]
    omega
  · have large : 2 ^ (j + w + 1) ≤ scalar.magnitude := by
      by_contra small
      exact absurd (Nat.size_le.mpr (not_le.mp small)) (not_le.mpr bits)
    have quotient : 0 < scalar.magnitude / 2 ^ (j + w + 1) :=
      Nat.div_pos large (Nat.two_pow_pos _)
    have product := Nat.mul_pos (Nat.two_pow_pos (w + 1)) quotient
    rw [remaining]
    omega

theorem nil (done : ¬ (window_val ≠ 0 ∨ j + w + 1 < scalar.numBits)) :
    Written scalar w room window_val j [] where
  spells := by rw [remaining_done done, value, Nat.cast_zero, mul_zero]
  sparse := Sparse.nil
  fits := Nat.zero_le _
  last some_digits := absurd rfl some_digits
  zeros _ _ _ place _ := digitAt_nil place
  single t _ window := by
    obtain ⟨no_window, -⟩ := not_or.mp done
    exact absurd (window ▸ Nat.two_pow_pos t).ne' no_window
  nothing _ := rfl

theorem sign_mul (scalar : BigNum) (digit : Int) :
    scalar.sign * digit = digit ∨ scalar.sign * digit = -digit := by
  unfold BigNum.sign
  split <;> simp

theorem sign_mul_ne_zero (scalar : BigNum) (nonzero : digit ≠ 0) : scalar.sign * digit ≠ 0 := by
  rcases sign_mul scalar digit with same | same <;> omega

/-- Where the window is left even, only zeros come until its lowest bit. -/
theorem zeros_after (written : Written scalar w room (nextWindow scalar w (j + 1) rest) (j + 1) digits)
    (left : rest = 0 ∨ rest = 2 ^ (w + 1)) (place : Nat) (below : place < w) :
    digitAt digits place = 0 := by
  refine written.zeros w (le_refl w) ?_ place below
  rw [nextWindow_eq]
  rcases left with rfl | rfl
  · exact Dvd.dvd.add (by simp) (Nat.dvd_mul_right _ _)
  · refine Dvd.dvd.add ?_ (Nat.dvd_mul_right _ _)
    rw [pow_succ, Nat.mul_div_cancel _ (by decide)]

/-- At the top the digit behind a nonzero one may come a place earlier, as the last. -/
theorem gap (width : 0 < w)
    (written : Written scalar w room (nextWindow scalar w (j + 1) rest) (j + 1) digits)
    (left : rest = 0 ∨ rest = 2 ^ (w + 1) ∨ (rest = 2 ^ w ∧ scalar.numBits ≤ j + w + 1))
    (place : Nat) (digit : digitAt digits place ≠ 0) :
    w ≤ place ∨ (place + 1 = digits.length ∧ place + 1 = w) := by
  by_contra close
  obtain ⟨below, before⟩ := not_or.mp close
  rcases left with none | full | ⟨half, top⟩
  · exact digit (written.zeros_after (.inl none) place (not_le.mp below))
  · exact digit (written.zeros_after (.inr full) place (not_le.mp below))
  · obtain ⟨v, rfl⟩ := Nat.exists_eq_succ_of_ne_zero width.ne'
    have window : nextWindow scalar (v + 1) (j + 1) rest = 2 ^ v := by
      rw [nextWindow_eq, AtLoop.bits_above scalar (by omega), half, pow_succ,
        Nat.mul_div_cancel _ (by decide)]
      simp
    have length := written.single v (by omega) window
    have inside := lt_length_of_digitAt digit
    rcases Nat.lt_or_ge place v with earlier | at_end
    · exact digit (written.zeros v (Nat.le_succ v) (window ▸ dvd_refl _) place earlier)
    · omega

theorem cons (at_loop : AtLoop scalar w (room + 1) window_val j)
    (more : window_val ≠ 0 ∨ j + w + 1 < scalar.numBits)
    (turned : Turned w scalar.numBits j window_val digit rest)
    (written : Written scalar w room (nextWindow scalar w (j + 1) rest) (j + 1) digits) :
    Written scalar w (room + 1) window_val j (scalar.sign * digit :: digits) where
  spells := by
    rw [value, written.spells, remaining_step scalar at_loop.width turned]
    ring
  sparse := by
    cases turned with
    | zero even =>
        rw [mul_zero]
        exact written.sparse.shifted
    | digit odd parts small top left =>
        refine written.sparse.cons ?_ ?_ (written.gap at_loop.width left)
        · rcases sign_mul scalar digit with same | same
          · rwa [same]
          · rwa [same, abs_neg]
        · rcases sign_mul scalar digit with same | same
          · rwa [same]
          · rw [same]
            exact odd.neg
  fits := by
    have fits := written.fits
    rw [List.length_cons]
    omega
  last some_digits := by
    cases digits with
    | nil =>
        rw [List.getLast_singleton]
        -- the last digit is this one: what is left of the scalar is not zero, and no digit
        -- behind it spells any of it
        have step := remaining_step scalar at_loop.width turned
        have nothing : (remaining scalar w (j + 1) (nextWindow scalar w (j + 1) rest) : Int) = 0 := by
          have spells := written.spells
          rw [value] at spells
          by_contra something
          exact sign_mul_ne_zero scalar something spells.symm
        have all := remaining_pos more
        refine sign_mul_ne_zero scalar ?_
        omega
    | cons next rest =>
        rw [List.getLast_cons (List.cons_ne_nil next rest)]
        exact written.last (List.cons_ne_nil next rest)
  zeros t within divides place below := by
    cases t with
    | zero => omega
    | succ t =>
        have even : window_val % 2 = 0 :=
          Nat.mod_eq_zero_of_dvd (dvd_trans (Dvd.intro_left (2 ^ t) rfl) divides)
        cases turned with
        | zero _ =>
            cases place with
            | zero => rw [digitAt_zero, mul_zero]
            | succ place =>
                refine written.zeros t (by omega) ?_ place (by omega)
                rw [nextWindow_eq]
                refine Dvd.dvd.add ?_ (Dvd.dvd.mul_right (pow_dvd_pow 2 (by omega)) _)
                rw [pow_succ] at divides
                exact Nat.dvd_div_of_mul_dvd (by rwa [Nat.mul_comm])
        | digit odd parts small top left =>
            have rest_even := left_even left at_loop.width
            rw [Int.odd_iff] at odd
            omega
  single t top window := by
    -- above the top no bit of the scalar moves into the window
    have no_bits : nextWindow scalar w (j + 1) rest = rest / 2 := by
      rw [nextWindow_eq, AtLoop.bits_above scalar (by omega), Nat.zero_mod, Nat.mul_zero, add_zero]
    rw [List.length_cons]
    cases turned with
    | zero even =>
        cases t with
        | zero =>
            rw [window] at even
            exact absurd even (by decide)
        | succ t =>
            have halved : nextWindow scalar w (j + 1) window_val = 2 ^ t := by
              rw [no_bits, window, pow_succ, Nat.mul_div_cancel _ (by decide)]
            rw [written.single t (by omega) halved]
    | digit odd parts small at_top left =>
        have positive := at_top top
        rw [Int.odd_iff] at odd
        have rest_even := left_even left at_loop.width
        obtain rfl : t = 0 := by
          by_contra later
          obtain ⟨t, rfl⟩ := Nat.exists_eq_succ_of_ne_zero later
          rw [pow_succ] at window
          omega
        have none : rest = 0 := by omega
        have done : ¬ (nextWindow scalar w (j + 1) rest ≠ 0 ∨ j + 1 + w + 1 < scalar.numBits) := by
          rw [no_bits, none]
          omega
        rw [written.nothing done, List.length_nil]
  nothing done := absurd more done

end Written

theorem wNAFLoop_written (scalar : BigNum) (w room window_val j : Nat)
    (at_loop : AtLoop scalar w room window_val j) :
    ∃ digits, wNAFLoop scalar w scalar.numBits room window_val j = some digits ∧
      Written scalar w room window_val j digits := by
  induction room generalizing window_val j with
  | zero =>
      have done := at_loop.finished
      exact ⟨[], if_neg done, .nil done⟩
  | succ room ih =>
      by_cases more : window_val ≠ 0 ∨ j + w + 1 < scalar.numBits
      · obtain ⟨digit, rest, turn, turned⟩ := wNAFTurn_turned scalar.numBits j
          at_loop.width at_loop.bound
        obtain ⟨digits, loop, written⟩ := ih _ _ (at_loop.next turned)
        refine ⟨scalar.sign * digit :: digits, ?_, .cons at_loop more turned written⟩
        have bound : ¬ nextWindow scalar w (j + 1) rest > 2 ^ (w + 1) :=
          not_lt.mpr (at_loop.next_bound turned)
        simp only [wNAFLoop, if_pos more, turn, Option.bind_some, bit_eq, next_bit_eq, if_neg bound,
          loop, Option.map_some]
      · exact ⟨[], if_neg more, .nil more⟩

/-- What `compute_wNAF` promises of its digits. -/
structure IsWNAF (scalar : BigNum) (w : Nat) (digits : List Int) : Prop where
  spells : value digits = scalar.toInt
  sparse : Sparse w digits
  fits : digits.length ≤ scalar.numBits + 1
  top : scalar.magnitude ≠ 0 → ∀ some_digits : digits ≠ [], digits.getLast some_digits ≠ 0

theorem computeWNAF_zero (scalar : BigNum) (w : Nat) (zero : scalar.magnitude = 0) :
    computeWNAF scalar w = some [0] ∧ IsWNAF scalar w [0] := by
  refine ⟨if_pos ((BigNum.isZero_iff scalar).mpr zero), ?_, Sparse.nil.shifted, ?_, ?_⟩
  · rw [BigNum.toInt_eq, zero]
    simp [value]
  · simp
  · exact fun nonzero => absurd zero nonzero

theorem computeWNAF_isWNAF (scalar : BigNum) (w : Nat) (width : 0 < w) (narrow : w ≤ 7) :
    ∃ digits, computeWNAF scalar w = some digits ∧ IsWNAF scalar w digits := by
  by_cases zero : scalar.isZero
  · exact ⟨[0], computeWNAF_zero scalar w ((BigNum.isZero_iff scalar).mp zero)⟩
  · have window : scalar.word 0 &&& (1 <<< w <<< 1 - 1) = scalar.magnitude % 2 ^ (w + 1) := by
      rw [bit_eq, next_bit_eq, Nat.and_two_pow_sub_one_eq_mod, BigNum.word, Nat.mul_zero,
        Nat.shiftRight_zero]
      exact Nat.mod_mod_of_dvd _ (pow_dvd_pow 2 (by omega))
    have at_loop : AtLoop scalar w (scalar.numBits + 1) (scalar.magnitude % 2 ^ (w + 1)) 0 :=
      { width := width
        bound := (Nat.mod_lt _ (Nat.two_pow_pos _)).le
        room_left := rfl
        top := fun _ => by
          rw [pow_zero, Nat.mul_one]
          exact (Nat.mod_le _ _).trans scalar.magnitude_lt.le }
    obtain ⟨digits, loop, written⟩ := wNAFLoop_written scalar w _ _ 0 at_loop
    have whole : remaining scalar w 0 (scalar.magnitude % 2 ^ (w + 1)) = scalar.magnitude := by
      rw [remaining, Nat.zero_add]
      exact Nat.mod_add_div _ _
    refine ⟨digits, ?_, ?_, written.sparse, written.fits, fun _ => written.last⟩
    · have in_range : ¬ (w = 0 ∨ w > 7) := by omega
      simp only [computeWNAF, if_neg zero, if_neg in_range, window, loop]
    · rw [written.spells, whole, BigNum.toInt_eq]

/-- `compute_wNAF` reaches none of its errors and never writes behind its array, and it refuses
nothing but a width that its digits do not allow. -/
theorem computeWNAF_iff (scalar : BigNum) (w : Nat) :
    (∃ digits, computeWNAF scalar w = some digits ∧ IsWNAF scalar w digits) ↔
      scalar.magnitude = 0 ∨ (0 < w ∧ w ≤ 7) := by
  constructor
  · rintro ⟨digits, computed, -⟩
    by_contra outside
    obtain ⟨nonzero, wide⟩ := not_or.mp outside
    have not_zero : ¬ scalar.isZero = true := fun zero =>
      nonzero ((BigNum.isZero_iff scalar).mp zero)
    rw [computeWNAF, if_neg not_zero, if_pos (by omega)] at computed
    cases computed
  · rintro (zero | ⟨width, narrow⟩)
    · exact ⟨[0], computeWNAF_zero scalar w zero⟩
    · exact computeWNAF_isWNAF scalar w width narrow

end EChainLib.Ec
