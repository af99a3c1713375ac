import Mathlib

/-! Numbers in positional notation, and the conversion from one base to another in a work
buffer of fixed length. Texts have the most significant digit first, buffers last. -/

namespace EChainLib.Positional

variable (radix base : Nat)

def numeral (text : List Nat) : Nat := text.foldl (fun value digit => value * radix + digit) 0

/-- The text without leading zeros. -/
def spelled (value : Nat) : List Nat := (Nat.digits base value).reverse

/-- Multiply the buffer by `radix` and add: the new buffer, and the carry that is lost. -/
def pass : List Nat → Nat → List Nat × Nat
  | [], carry => ([], carry)
  | digit :: rest, carry =>
      ((digit * radix + carry) % base :: (pass rest ((digit * radix + carry) / base)).1,
        (pass rest ((digit * radix + carry) / base)).2)

/-- The buffer after the text was read into it. -/
def readInto (buffer text : List Nat) : List Nat :=
  text.foldl (fun buffer digit => (pass radix base buffer digit).1) buffer

def convert (size : Nat) (text : List Nat) : List Nat :=
  (readInto radix base (List.replicate size 0) text).reverse.dropWhile (· = 0)

variable {radix base}

/-! Texts. -/

theorem numeral_eq (text : List Nat) : numeral radix text = Nat.ofDigits radix text.reverse := by
  rw [numeral, Nat.ofDigits_eq_foldr, ← List.foldl_reverse, List.reverse_reverse]
  congr 1
  funext value digit
  rw [Nat.mul_comm, Nat.add_comm]
  rfl

theorem numeral_lt (large : 1 < radix) (text : List Nat) (digits : ∀ d ∈ text, d < radix) :
    numeral radix text < radix ^ text.length := by
  rw [numeral_eq, ← List.length_reverse]
  exact Nat.ofDigits_lt_base_pow_length large fun d there => digits d (List.mem_reverse.mp there)

theorem numeral_spelled (value : Nat) : numeral radix (spelled radix value) = value := by
  rw [numeral_eq, spelled, List.reverse_reverse, Nat.ofDigits_digits]

theorem spelled_digits (large : 1 < base) (value : Nat) : ∀ d ∈ spelled base value, d < base :=
  fun _ there => Nat.digits_lt_base large (List.mem_reverse.mp there)

/-- The first digit is not zero. -/
theorem spelled_head (value d : Nat) (first : (spelled base value).head? = some d) : d ≠ 0 := by
  have nonzero : value ≠ 0 := by
    rintro rfl
    simp [spelled] at first
  rw [spelled, List.head?_reverse,
    List.getLast?_eq_some_getLast (Nat.digits_ne_nil_iff_ne_zero.mpr nonzero)] at first
  rw [← Option.some.inj first]
  exact Nat.getLast_digit_ne_zero base nonzero

theorem numeral_zeros (zeros : Nat) (text : List Nat) :
    numeral radix (List.replicate zeros 0 ++ text) = numeral radix text := by
  rw [numeral_eq, numeral_eq, List.reverse_append, List.reverse_replicate,
    Nat.ofDigits_append_replicate_zero]

/-- A text is what spells its number, behind its leading zeros. -/
theorem spelled_numeral (large : 1 < base) (text : List Nat) (digits : ∀ d ∈ text, d < base) :
    spelled base (numeral base text) = text.dropWhile (· = 0) := by
  induction text with
  | nil => simp [numeral, spelled]
  | cons d rest ih =>
      by_cases zero : d = 0
      · subst zero
        rw [show numeral base (0 :: rest) = numeral base rest from numeral_zeros 1 rest,
          ih fun d there => digits d (List.mem_cons_of_mem 0 there)]
        simp
      · rw [List.dropWhile_cons_of_neg (by simpa using zero), spelled, numeral_eq,
          Nat.digits_ofDigits base large, List.reverse_reverse]
        · exact fun d there => digits d (List.mem_reverse.mp there)
        · intro nonempty
          simpa using zero

/-! Buffers. -/

theorem pass_value (buffer : List Nat) (carry : Nat) :
    Nat.ofDigits base (pass radix base buffer carry).1 +
        base ^ buffer.length * (pass radix base buffer carry).2 =
      Nat.ofDigits base buffer * radix + carry := by
  induction buffer generalizing carry with
  | nil => simp [pass]
  | cons digit rest ih =>
      have next := ih ((digit * radix + carry) / base)
      have divided := Nat.mod_add_div (digit * radix + carry) base
      simp only [pass, Nat.ofDigits_cons, List.length_cons, pow_succ]
      nlinarith

theorem pass_length (buffer : List Nat) (carry : Nat) :
    (pass radix base buffer carry).1.length = buffer.length := by
  induction buffer generalizing carry with
  | nil => rfl
  | cons digit rest ih => simp [pass, ih]

theorem pass_digits (positive : 0 < base) (buffer : List Nat) (carry : Nat) :
    ∀ d ∈ (pass radix base buffer carry).1, d < base := by
  induction buffer generalizing carry with
  | nil => simp [pass]
  | cons digit rest ih =>
      simp only [pass, List.mem_cons, forall_eq_or_imp]
      exact ⟨Nat.mod_lt _ positive, ih _⟩

/-- The buffer keeps the number modulo its capacity. -/
theorem pass_mod (large : 1 < base) (buffer : List Nat) (carry : Nat) :
    Nat.ofDigits base (pass radix base buffer carry).1 =
      (Nat.ofDigits base buffer * radix + carry) % base ^ buffer.length := by
  have digits : ∀ d ∈ (pass radix base buffer carry).1, d < base :=
    pass_digits (Nat.zero_lt_of_lt large) buffer carry
  have bound := Nat.ofDigits_lt_base_pow_length large digits
  rw [pass_length] at bound
  rw [← pass_value, Nat.add_mul_mod_self_left, Nat.mod_eq_of_lt bound]

theorem readInto_length (buffer text : List Nat) :
    (readInto radix base buffer text).length = buffer.length := by
  induction text generalizing buffer with
  | nil => rfl
  | cons digit rest ih => exact (ih _).trans (pass_length buffer digit)

theorem readInto_digits (positive : 0 < base) (buffer text : List Nat)
    (digits : ∀ d ∈ buffer, d < base) : ∀ d ∈ readInto radix base buffer text, d < base := by
  induction text generalizing buffer with
  | nil => exact digits
  | cons digit rest ih => exact ih _ (pass_digits positive buffer digit)

theorem foldl_modEq {capacity : Nat} (text : List Nat) {a b : Nat} (same : a ≡ b [MOD capacity]) :
    text.foldl (fun value digit => value * radix + digit) a ≡
      text.foldl (fun value digit => value * radix + digit) b [MOD capacity] := by
  induction text generalizing a b with
  | nil => exact same
  | cons digit rest ih => exact ih ((same.mul_right radix).add_right digit)

theorem readInto_mod (large : 1 < base) (buffer text : List Nat) :
    Nat.ofDigits base (readInto radix base buffer text) ≡
      text.foldl (fun value digit => value * radix + digit) (Nat.ofDigits base buffer)
        [MOD base ^ buffer.length] := by
  induction text generalizing buffer with
  | nil => exact Nat.ModEq.refl _
  | cons digit rest ih =>
      have behind := ih (pass radix base buffer digit).1
      rw [pass_length] at behind
      refine behind.trans (foldl_modEq rest ?_)
      rw [pass_mod large]
      exact Nat.mod_modEq _ _

/-- A buffer that holds the number of the text converts the text. -/
theorem convert_eq (large : 1 < base) (size : Nat) (text : List Nat)
    (room : numeral radix text < base ^ size) :
    convert radix base size text = spelled base (numeral radix text) := by
  have held : Nat.ofDigits base (readInto radix base (List.replicate size 0) text) ≡
      text.foldl (fun value digit => value * radix + digit)
        (Nat.ofDigits base (List.replicate size 0)) [MOD base ^ (List.replicate size 0).length] :=
    readInto_mod large (List.replicate size 0) text
  have digits : ∀ d ∈ readInto radix base (List.replicate size 0) text, d < base := by
    refine readInto_digits (Nat.zero_lt_of_lt large) (List.replicate size 0) text fun d there => ?_
    rw [List.eq_of_mem_replicate there]
    exact Nat.zero_lt_of_lt large
  have small := Nat.ofDigits_lt_base_pow_length large digits
  rw [readInto_length, List.length_replicate] at small
  rw [Nat.ofDigits_replicate_zero, List.length_replicate] at held
  rw [convert, ← spelled_numeral large, numeral_eq, List.reverse_reverse,
    held.eq_of_lt_of_lt small room]
  · rfl
  · exact fun d there => digits d (List.mem_reverse.mp there)

/-! Room for a conversion. -/

/-- A bound on the powers of one block and on those of its parts bounds all powers. -/
theorem pow_le_of_blocks {m k : Nat} (positive : 0 < m) (block : radix ^ m ≤ base ^ k)
    (parts : ∀ r : Fin m, radix ^ r.val ≤ base ^ (r.val * k / m + 1)) (n : Nat) :
    radix ^ n ≤ base ^ (n * k / m + 1) := by
  have split : n * k / m + 1 = k * (n / m) + ((n % m) * k / m + 1) := by
    have whole : n * k = (n % m) * k + m * (k * (n / m)) := by
      calc n * k = (n % m + m * (n / m)) * k := by rw [Nat.mod_add_div]
        _ = (n % m) * k + m * (k * (n / m)) := by ring
    rw [whole, Nat.add_mul_div_left _ _ positive]
    omega
  calc radix ^ n = (radix ^ m) ^ (n / m) * radix ^ (n % m) := by
        rw [← pow_mul, ← pow_add, Nat.div_add_mod]
    _ ≤ (base ^ k) ^ (n / m) * base ^ ((n % m) * k / m + 1) :=
        Nat.mul_le_mul (Nat.pow_le_pow_left block _) (parts ⟨n % m, Nat.mod_lt _ positive⟩)
    _ = base ^ (n * k / m + 1) := by rw [← pow_mul, ← pow_add, split]

end EChainLib.Positional
