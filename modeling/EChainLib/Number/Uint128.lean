import Mathlib
import EChainLib.Support.Words

/-! `uint128_t` of `base_int.cpp`, in two 64-bit halves, and what its operators compute. -/

namespace EChainLib.Number

structure Uint128 where
  upper : UInt64
  lower : UInt64
  deriving DecidableEq

namespace Uint128

/-- The constructor from one number. -/
def ofWord (rhs : UInt64) : Uint128 := ⟨0, rhs⟩

def or (x rhs : Uint128) : Uint128 := ⟨x.upper ||| rhs.upper, x.lower ||| rhs.lower⟩

def shiftLeft (x rhs : Uint128) : Uint128 :=
  let shift := rhs.lower
  if rhs.upper ≠ 0 ∨ 128 ≤ shift then ofWord 0
  else if shift = 64 then ⟨x.lower, 0⟩
  else if shift = 0 then x
  else if shift < 64 then ⟨(x.upper <<< shift) + (x.lower >>> (64 - shift)), x.lower <<< shift⟩
  else if shift < 128 ∧ 64 < shift then ⟨x.lower <<< (shift - 64), 0⟩
  else ofWord 0

def shiftRight (x rhs : Uint128) : Uint128 :=
  let shift := rhs.lower
  if rhs.upper ≠ 0 ∨ 128 ≤ shift then ofWord 0
  else if shift = 64 then ⟨0, x.upper⟩
  else if shift = 0 then x
  else if shift < 64 then ⟨x.upper >>> shift, (x.upper <<< (64 - shift)) + (x.lower >>> shift)⟩
  else if shift < 128 ∧ 64 < shift then ⟨0, x.upper >>> (shift - 64)⟩
  else ofWord 0

def gt (x rhs : Uint128) : Bool :=
  if x.upper = rhs.upper then x.lower > rhs.lower else x.upper > rhs.upper

def lt (x rhs : Uint128) : Bool :=
  if x.upper = rhs.upper then x.lower < rhs.lower else x.upper < rhs.upper

def ge (x rhs : Uint128) : Bool := x.gt rhs || x = rhs

/-- `<=` with a number on the right. -/
def leWord (x : Uint128) (rhs : UInt64) : Bool :=
  (if x.upper = 0 then decide (x.lower < rhs) else false) || (x.upper = 0 && x.lower = rhs)

def add (x rhs : Uint128) : Uint128 :=
  ⟨x.upper + rhs.upper + (if x.lower + rhs.lower < x.lower then 1 else 0), x.lower + rhs.lower⟩

def sub (x rhs : Uint128) : Uint128 :=
  ⟨x.upper - rhs.upper - (if x.lower - rhs.lower > x.lower then 1 else 0), x.lower - rhs.lower⟩

def highPart (word : UInt64) : UInt64 := word >>> 32

def lowPart (word : UInt64) : UInt64 := word &&& 0xffffffff

/-- The four parts of 32 bits, the highest first. -/
def parts (x : Uint128) : Fin 4 → UInt64
  | 0 => highPart x.upper
  | 1 => lowPart x.upper
  | 2 => highPart x.lower
  | 3 => lowPart x.lower

def mul (x rhs : Uint128) : Uint128 :=
  let top := x.parts
  let bottom := rhs.parts
  let products : Fin 4 → Fin 4 → UInt64 := fun row y => top (3 - row) * bottom y
  -- initial row
  let fourth32 := lowPart (products 0 3)
  let third32 := lowPart (products 0 2) + highPart (products 0 3)
  let second32 := lowPart (products 0 1) + highPart (products 0 2)
  let first32 := lowPart (products 0 0) + highPart (products 0 1)
  -- second row
  let third32 := third32 + lowPart (products 1 3)
  let second32 := second32 + (lowPart (products 1 2) + highPart (products 1 3))
  let first32 := first32 + (lowPart (products 1 1) + highPart (products 1 2))
  -- third row
  let second32 := second32 + lowPart (products 2 3)
  let first32 := first32 + (lowPart (products 2 2) + highPart (products 2 3))
  -- fourth row
  let first32 := first32 + lowPart (products 3 3)
  (((⟨first32 <<< 32, 0⟩ : Uint128).add ⟨third32 >>> 32, third32 <<< 32⟩).add ⟨second32, 0⟩).add
    (ofWord fourth32)

/-! The number. -/

def toNat (x : Uint128) : Nat := x.upper.toNat * 2 ^ 64 + x.lower.toNat

theorem toNat_mk (upper lower : UInt64) :
    toNat ⟨upper, lower⟩ = upper.toNat * 2 ^ 64 + lower.toNat := rfl

theorem toNat_lt (x : Uint128) : x.toNat < 2 ^ 128 := by
  have upper := x.upper.toNat_lt
  have lower := x.lower.toNat_lt
  rw [toNat]
  omega

theorem toNat_inj (x y : Uint128) : x.toNat = y.toNat ↔ x = y := by
  constructor
  · intro same
    have x_lower := x.lower.toNat_lt
    have y_lower := y.lower.toNat_lt
    rw [toNat, toNat] at same
    have upper : x.upper = y.upper := UInt64.toNat_inj.mp (by omega)
    have lower : x.lower = y.lower := UInt64.toNat_inj.mp (by omega)
    cases x
    cases y
    simp_all
  · exact fun same => congrArg toNat same

@[simp] theorem toNat_ofWord (word : UInt64) : (ofWord word).toNat = word.toNat := by
  simp [ofWord, toNat]

theorem lt_iff (x rhs : Uint128) : x.lt rhs = true ↔ x.toNat < rhs.toNat := by
  have x_lower := x.lower.toNat_lt
  have rhs_lower := rhs.lower.toNat_lt
  rw [lt, toNat, toNat]
  split
  · rename_i same
    rw [decide_eq_true_iff, UInt64.lt_iff_toNat_lt, same]
    omega
  · rename_i other
    have differ : x.upper.toNat ≠ rhs.upper.toNat := fun same => other (UInt64.toNat_inj.mp same)
    rw [decide_eq_true_iff, UInt64.lt_iff_toNat_lt]
    omega

theorem gt_iff (x rhs : Uint128) : x.gt rhs = true ↔ rhs.toNat < x.toNat := by
  rw [← lt_iff, gt, lt]
  simp only [eq_comm, gt_iff_lt]

theorem ge_iff (x rhs : Uint128) : x.ge rhs = true ↔ rhs.toNat ≤ x.toNat := by
  rw [ge, Bool.or_eq_true, gt_iff, decide_eq_true_iff, ← toNat_inj]
  omega

theorem leWord_iff (x : Uint128) : x.leWord 0xffffffffffffffff = true ↔ x.toNat < 2 ^ 64 := by
  have lower := x.lower.toNat_lt
  have largest : UInt64.toNat 0xffffffffffffffff = 2 ^ 64 - 1 := rfl
  have none_above : x.upper = 0 ↔ x.upper.toNat = 0 := by
    rw [← UInt64.toNat_inj, UInt64.toNat_zero]
  rw [leWord, toNat]
  by_cases zero : x.upper = 0
  · have empty := none_above.mp zero
    rw [if_pos zero, Bool.or_eq_true, Bool.and_eq_true, decide_eq_true_iff, decide_eq_true_iff,
      decide_eq_true_iff]
    rw [UInt64.lt_iff_toNat_lt, ← UInt64.toNat_inj (a := x.lower), largest, none_above]
    omega
  · rw [if_neg zero]
    have := none_above.not.mp zero
    simp only [zero, decide_false, Bool.false_and, Bool.or_false, Bool.false_eq_true, false_iff]
    omega

theorem toNat_add (x rhs : Uint128) : (x.add rhs).toNat = (x.toNat + rhs.toNat) % 2 ^ 128 := by
  have x_lower := x.lower.toNat_lt
  have rhs_lower := rhs.lower.toNat_lt
  rw [add, toNat, toNat, toNat]
  by_cases carry : x.lower + rhs.lower < x.lower
  · -- the lower word has wrapped exactly if it is below one of its terms
    rw [if_pos carry]
    rw [UInt64.lt_iff_toNat_lt, UInt64.toNat_add] at carry
    simp only [UInt64.toNat_add, UInt64.toNat_one]
    omega
  · rw [if_neg carry]
    rw [UInt64.lt_iff_toNat_lt, UInt64.toNat_add] at carry
    simp only [UInt64.toNat_add, UInt64.toNat_zero]
    omega

theorem toNat_sub (x rhs : Uint128) (enough : rhs.toNat ≤ x.toNat) :
    (x.sub rhs).toNat = x.toNat - rhs.toNat := by
  have x_lower := x.lower.toNat_lt
  have rhs_lower := rhs.lower.toNat_lt
  have x_upper := x.upper.toNat_lt
  have rhs_upper := rhs.upper.toNat_lt
  rw [toNat, toNat] at enough
  rw [sub, toNat, toNat, toNat]
  by_cases borrow : x.lower - rhs.lower > x.lower
  · rw [if_pos borrow]
    rw [gt_iff_lt, UInt64.lt_iff_toNat_lt, UInt64.toNat_sub] at borrow
    simp only [UInt64.toNat_sub, UInt64.toNat_one]
    omega
  · rw [if_neg borrow]
    rw [gt_iff_lt, UInt64.lt_iff_toNat_lt, UInt64.toNat_sub] at borrow
    simp only [UInt64.toNat_sub, UInt64.toNat_zero]
    omega

theorem toNat_or (x rhs : Uint128) : (x.or rhs).toNat = x.toNat ||| rhs.toNat := by
  have halves : ∀ y : Uint128, y.toNat = y.upper.toNat <<< 64 ||| y.lower.toNat := by
    intro y
    rw [toNat, ← Nat.shiftLeft_add_eq_or_of_lt y.lower.toNat_lt, Nat.shiftLeft_eq]
  have rearranged : ∀ a b c d : Nat, (a ||| b) ||| (c ||| d) = (a ||| c) ||| (b ||| d) := by
    intro a b c d
    ac_rfl
  rw [halves, halves, halves, or, UInt64.toNat_or, UInt64.toNat_or, Nat.shiftLeft_or_distrib,
    rearranged]

theorem toNat_half (x : Uint128) : (x.shiftRight (ofWord 1)).toNat = x.toNat / 2 := by
  have halves : x.shiftRight (ofWord 1) =
      ⟨x.upper >>> 1, (x.upper <<< 63) + (x.lower >>> 1)⟩ := rfl
  have lower := x.lower.toNat_lt
  have upper := x.upper.toNat_lt
  have one : UInt64.toNat 1 % 64 = 1 := rfl
  have rest : UInt64.toNat 63 % 64 = 63 := rfl
  rw [halves, toNat, toNat, UInt64.toNat_add, UInt64.toNat_shiftRight, UInt64.toNat_shiftRight,
    UInt64.toNat_shiftLeft, one, rest, Nat.shiftLeft_eq, Nat.shiftRight_eq_div_pow,
    Nat.shiftRight_eq_div_pow]
  omega

/-- What leaves the lower word enters the upper one. -/
theorem shifted_halves (upper lower places : Nat) (inside : places < 64) :
    (upper * 2 ^ 64 + lower) * 2 ^ places % 2 ^ 128 =
      (upper * 2 ^ places % 2 ^ 64 + lower / 2 ^ (64 - places)) % 2 ^ 64 * 2 ^ 64 +
        lower * 2 ^ places % 2 ^ 64 := by
  have whole : 2 ^ (64 - places) * 2 ^ places = 2 ^ 64 := by
    rw [← pow_add, Nat.sub_add_cancel inside.le]
  have carried : lower * 2 ^ places / 2 ^ 64 = lower / 2 ^ (64 - places) := by
    rw [← whole, Nat.mul_div_mul_right _ _ (Nat.two_pow_pos places)]
  have spread : (upper * 2 ^ 64 + lower) * 2 ^ places =
      upper * 2 ^ places * 2 ^ 64 + lower * 2 ^ places := by ring
  rw [← carried, spread]
  generalize upper * 2 ^ places = u
  generalize lower * 2 ^ places = l
  omega

theorem shiftLeft_below (x : Uint128) (places : UInt64) (positive : 0 < places.toNat)
    (below : places.toNat < 64) :
    x.shiftLeft (ofWord places) =
      ⟨(x.upper <<< places) + (x.lower >>> (64 - places)), x.lower <<< places⟩ := by
  have shift : (ofWord places).lower = places := rfl
  have allowed : ¬ ((ofWord places).upper ≠ 0 ∨ 128 ≤ places) := by
    rintro (nonzero | large)
    · exact nonzero rfl
    · exact absurd (UInt64.le_iff_toNat_le.mp large) (not_le.mpr (below.trans (by decide)))
  have not_word : places ≠ 64 := fun same => below.ne (congrArg UInt64.toNat same)
  have nonzero : places ≠ 0 := fun same => positive.ne' (congrArg UInt64.toNat same)
  simp only [shiftLeft, shift, if_neg allowed, if_neg not_word, if_neg nonzero,
    if_pos (UInt64.lt_iff_toNat_lt.mpr below : places < 64)]

theorem shiftLeft_above (x : Uint128) (places : UInt64) (above : 64 < places.toNat)
    (inside : places.toNat < 128) :
    x.shiftLeft (ofWord places) = ⟨x.lower <<< (places - 64), 0⟩ := by
  have shift : (ofWord places).lower = places := rfl
  have allowed : ¬ ((ofWord places).upper ≠ 0 ∨ 128 ≤ places) := by
    rintro (nonzero | large)
    · exact nonzero rfl
    · exact absurd (UInt64.le_iff_toNat_le.mp large) (not_le.mpr inside)
  have not_word : places ≠ 64 := fun same => above.ne' (congrArg UInt64.toNat same)
  have nonzero : places ≠ 0 := fun same => by
    rw [same] at above
    exact absurd above (by decide)
  have not_small : ¬ places < 64 := fun small =>
    absurd (UInt64.lt_iff_toNat_lt.mp small) (not_lt.mpr above.le)
  have between : places < 128 ∧ 64 < places :=
    ⟨UInt64.lt_iff_toNat_lt.mpr inside, UInt64.lt_iff_toNat_lt.mpr above⟩
  simp only [shiftLeft, shift, if_neg allowed, if_neg not_word, if_neg nonzero, if_neg not_small,
    if_pos between]

theorem toNat_shiftLeft (x : Uint128) (places : UInt64) (inside : places.toNat < 128) :
    (x.shiftLeft (ofWord places)).toNat = x.toNat * 2 ^ places.toNat % 2 ^ 128 := by
  rcases Nat.lt_trichotomy places.toNat 64 with below | word | above
  · rcases Nat.eq_zero_or_pos places.toNat with zero | positive
    · obtain rfl : places = 0 := UInt64.toNat_inj.mp zero
      have same : x.shiftLeft (ofWord 0) = x := rfl
      rw [same, UInt64.toNat_zero, pow_zero, Nat.mul_one, Nat.mod_eq_of_lt x.toNat_lt]
    · have rest : (64 - places).toNat = 64 - places.toNat :=
        UInt64.toNat_sub_of_le _ _ (UInt64.le_iff_toNat_le.mpr below.le)
      rw [shiftLeft_below x places positive below, toNat, toNat, shifted_halves _ _ _ below,
        UInt64.toNat_add, UInt64.toNat_shiftLeft, UInt64.toNat_shiftLeft, UInt64.toNat_shiftRight,
        rest, Nat.mod_eq_of_lt below, Nat.mod_eq_of_lt (by omega : 64 - places.toNat < 64),
        Nat.shiftLeft_eq, Nat.shiftLeft_eq, Nat.shiftRight_eq_div_pow]
  · -- a whole word: nothing is shifted at all
    obtain rfl : places = 64 := UInt64.toNat_inj.mp word
    have moved : x.shiftLeft (ofWord 64) = ⟨x.lower, 0⟩ := rfl
    have lower := x.lower.toNat_lt
    rw [moved, toNat_mk, toNat, word, UInt64.toNat_zero]
    omega
  · have rest : (places - 64).toNat = places.toNat - 64 :=
      UInt64.toNat_sub_of_le _ _ (UInt64.le_iff_toNat_le.mpr above.le)
    have split : 2 ^ places.toNat = 2 ^ (places.toNat - 64) * 2 ^ 64 := by
      rw [← pow_add, Nat.sub_add_cancel above.le]
    have spread : (x.upper.toNat * 2 ^ 64 + x.lower.toNat) * 2 ^ places.toNat =
        x.upper.toNat * 2 ^ (places.toNat - 64) * 2 ^ 128 +
          x.lower.toNat * 2 ^ (places.toNat - 64) * 2 ^ 64 := by
      rw [split]
      ring
    rw [shiftLeft_above x places above inside, toNat, toNat, UInt64.toNat_shiftLeft, rest,
      Nat.mod_eq_of_lt (by omega : places.toNat - 64 < 64), Nat.shiftLeft_eq, UInt64.toNat_zero,
      spread]
    generalize x.upper.toNat * 2 ^ (places.toNat - 64) = u
    generalize x.lower.toNat * 2 ^ (places.toNat - 64) = l
    omega

/-! The product. -/

theorem toNat_highPart (word : UInt64) : (highPart word).toNat = word.toNat / 2 ^ 32 := by
  rw [highPart, UInt64.toNat_shiftRight, Nat.shiftRight_eq_div_pow]
  rfl

theorem toNat_lowPart (word : UInt64) : (lowPart word).toNat = word.toNat % 2 ^ 32 := by
  rw [lowPart, Words.toNat_mask word 0xffffffff 32 rfl]

theorem parts_lt (x : Uint128) (i : Fin 4) : (x.parts i).toNat < 2 ^ 32 := by
  have upper := x.upper.toNat_lt
  have lower := x.lower.toNat_lt
  fin_cases i <;> simp only [parts, toNat_highPart, toNat_lowPart] <;> omega

theorem toNat_parts (x : Uint128) :
    x.toNat = (x.parts 0).toNat * 2 ^ 96 + (x.parts 1).toNat * 2 ^ 64 +
      (x.parts 2).toNat * 2 ^ 32 + (x.parts 3).toNat := by
  simp only [toNat, parts, toNat_highPart, toNat_lowPart]
  omega

/-- A product of two parts fits a word. -/
theorem toNat_product (x rhs : Uint128) (i j : Fin 4) :
    (x.parts i * rhs.parts j).toNat = (x.parts i).toNat * (rhs.parts j).toNat := by
  have small := Nat.mul_lt_mul'' (x.parts_lt i) (rhs.parts_lt j)
  rw [UInt64.toNat_mul, Nat.mod_eq_of_lt (small.trans_le (by norm_num))]

/-- What the sixteen products of the parts add up to. The six that are left out stand for
multiples of `2 ^ 128`. -/
theorem product_split (x rhs : Uint128) :
    x.toNat * rhs.toNat % 2 ^ 128 =
      ((x.parts 3).toNat * (rhs.parts 3).toNat +
        ((x.parts 3).toNat * (rhs.parts 2).toNat + (x.parts 2).toNat * (rhs.parts 3).toNat) * 2 ^ 32 +
        ((x.parts 3).toNat * (rhs.parts 1).toNat + (x.parts 2).toNat * (rhs.parts 2).toNat +
          (x.parts 1).toNat * (rhs.parts 3).toNat) * 2 ^ 64 +
        ((x.parts 3).toNat * (rhs.parts 0).toNat + (x.parts 2).toNat * (rhs.parts 1).toNat +
          (x.parts 1).toNat * (rhs.parts 2).toNat + (x.parts 0).toNat * (rhs.parts 3).toNat) *
            2 ^ 96) % 2 ^ 128 := by
  rw [toNat_parts x, toNat_parts rhs]
  generalize (x.parts 0).toNat = a3
  generalize (x.parts 1).toNat = a2
  generalize (x.parts 2).toNat = a1
  generalize (x.parts 3).toNat = a0
  generalize (rhs.parts 0).toNat = b3
  generalize (rhs.parts 1).toNat = b2
  generalize (rhs.parts 2).toNat = b1
  generalize (rhs.parts 3).toNat = b0
  have spread : (a3 * 2 ^ 96 + a2 * 2 ^ 64 + a1 * 2 ^ 32 + a0) *
      (b3 * 2 ^ 96 + b2 * 2 ^ 64 + b1 * 2 ^ 32 + b0) =
        (a0 * b0 + (a0 * b1 + a1 * b0) * 2 ^ 32 + (a0 * b2 + a1 * b1 + a2 * b0) * 2 ^ 64 +
          (a0 * b3 + a1 * b2 + a2 * b1 + a3 * b0) * 2 ^ 96) +
        (a1 * b3 + a2 * b2 + a3 * b1 + (a2 * b3 + a3 * b2) * 2 ^ 32 + a3 * b3 * 2 ^ 64) *
          2 ^ 128 := by ring
  rw [spread, Nat.add_mul_mod_self_right]

/-- The carries of the columns. -/
theorem columns_carry (p03 p02 p01 p00 p13 p12 p11 p23 p22 p33 : Nat) :
    ((p00 % 2 ^ 32 + p01 / 2 ^ 32 + (p11 % 2 ^ 32 + p12 / 2 ^ 32) + (p22 % 2 ^ 32 + p23 / 2 ^ 32) +
          p33 % 2 ^ 32) * 2 ^ 96 +
        (p02 % 2 ^ 32 + p03 / 2 ^ 32 + p13 % 2 ^ 32) * 2 ^ 32 +
        (p01 % 2 ^ 32 + p02 / 2 ^ 32 + (p12 % 2 ^ 32 + p13 / 2 ^ 32) + p23 % 2 ^ 32) * 2 ^ 64 +
        p03 % 2 ^ 32) % 2 ^ 128 =
      (p03 + (p02 + p13) * 2 ^ 32 + (p01 + p12 + p23) * 2 ^ 64 + (p00 + p11 + p22 + p33) * 2 ^ 96) %
        2 ^ 128 := by
  omega

/-- The last line of `operator*`. -/
theorem toNat_combined (first32 third32 second32 fourth32 : UInt64) :
    ((((⟨first32 <<< 32, 0⟩ : Uint128).add ⟨third32 >>> 32, third32 <<< 32⟩).add
      ⟨second32, 0⟩).add (ofWord fourth32)).toNat =
        (first32.toNat * 2 ^ 96 + third32.toNat * 2 ^ 32 + second32.toNat * 2 ^ 64 +
          fourth32.toNat) % 2 ^ 128 := by
  have third := third32.toNat_lt
  have amount : UInt64.toNat 32 % 64 = 32 := rfl
  simp only [toNat_add, toNat_ofWord, toNat_mk, UInt64.toNat_shiftLeft, UInt64.toNat_shiftRight,
    amount, Nat.shiftLeft_eq, Nat.shiftRight_eq_div_pow, UInt64.toNat_zero]
  omega

theorem toNat_mul (x rhs : Uint128) : (x.mul rhs).toNat = x.toNat * rhs.toNat % 2 ^ 128 := by
  rw [product_split]
  simp only [← toNat_product]
  simp only [mul, Fin.reduceSub, toNat_combined]
  generalize x.parts 3 * rhs.parts 3 = p03
  generalize x.parts 3 * rhs.parts 2 = p02
  generalize x.parts 3 * rhs.parts 1 = p01
  generalize x.parts 3 * rhs.parts 0 = p00
  generalize x.parts 2 * rhs.parts 3 = p13
  generalize x.parts 2 * rhs.parts 2 = p12
  generalize x.parts 2 * rhs.parts 1 = p11
  generalize x.parts 1 * rhs.parts 3 = p23
  generalize x.parts 1 * rhs.parts 2 = p22
  generalize x.parts 0 * rhs.parts 3 = p33
  -- a column adds up at most seven parts of 32 bits, which fit a word
  have third32 : (lowPart p02 + highPart p03 + lowPart p13).toNat =
      p02.toNat % 2 ^ 32 + p03.toNat / 2 ^ 32 + p13.toNat % 2 ^ 32 := by
    have := p03.toNat_lt
    simp only [UInt64.toNat_add, toNat_highPart, toNat_lowPart]
    omega
  have second32 : (lowPart p01 + highPart p02 + (lowPart p12 + highPart p13) + lowPart p23).toNat =
      p01.toNat % 2 ^ 32 + p02.toNat / 2 ^ 32 + (p12.toNat % 2 ^ 32 + p13.toNat / 2 ^ 32) +
        p23.toNat % 2 ^ 32 := by
    have := p02.toNat_lt
    have := p13.toNat_lt
    simp only [UInt64.toNat_add, toNat_highPart, toNat_lowPart]
    omega
  have first32 : (lowPart p00 + highPart p01 + (lowPart p11 + highPart p12) +
      (lowPart p22 + highPart p23) + lowPart p33).toNat =
      p00.toNat % 2 ^ 32 + p01.toNat / 2 ^ 32 + (p11.toNat % 2 ^ 32 + p12.toNat / 2 ^ 32) +
        (p22.toNat % 2 ^ 32 + p23.toNat / 2 ^ 32) + p33.toNat % 2 ^ 32 := by
    have := p01.toNat_lt
    have := p12.toNat_lt
    have := p23.toNat_lt
    simp only [UInt64.toNat_add, toNat_highPart, toNat_lowPart]
    omega
  rw [first32, third32, second32, toNat_lowPart, columns_carry]

end Uint128

end EChainLib.Number
