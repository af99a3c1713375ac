import Mathlib

/-! Texts that spell each symbol with two digits. The decoder may accept several
spellings of one digit; `norm` names the spelling the encoder uses. -/

namespace EChainLib.DigitPairs

/-- A two-digit code. Decoding accepts what `enc` writes, and every accepted pair
of digits is some spelling of what `enc` writes for its symbol. -/
structure Code (Symbol Digit : Type*) where
  enc : Symbol → Digit × Digit
  dec : Digit → Digit → Option Symbol
  norm : Digit → Digit
  dec_enc : ∀ symbol, dec (enc symbol).1 (enc symbol).2 = some symbol
  enc_dec : ∀ high low symbol, dec high low = some symbol → enc symbol = (norm high, norm low)

variable {Symbol Digit : Type*}

def encode (enc : Symbol → Digit × Digit) (symbols : List Symbol) : List Digit :=
  symbols.flatMap fun symbol => [(enc symbol).1, (enc symbol).2]

def decode (dec : Digit → Digit → Option Symbol) : List Digit → Option (List Symbol)
  | [] => some []
  | [_] => none
  | high :: low :: rest =>
      match dec high low with
      | none => none
      | some symbol => (decode dec rest).map (symbol :: ·)

@[simp] theorem encode_nil (enc : Symbol → Digit × Digit) : encode enc [] = [] := rfl

@[simp] theorem encode_cons (enc : Symbol → Digit × Digit) (symbol : Symbol)
    (symbols : List Symbol) :
    encode enc (symbol :: symbols) = (enc symbol).1 :: (enc symbol).2 :: encode enc symbols := rfl

theorem encode_length (enc : Symbol → Digit × Digit) (symbols : List Symbol) :
    (encode enc symbols).length = 2 * symbols.length := by
  induction symbols with
  | nil => rfl
  | cons symbol rest ih => simp [ih]; omega

theorem decode_encode (code : Code Symbol Digit) (symbols : List Symbol) :
    decode code.dec (encode code.enc symbols) = some symbols := by
  induction symbols with
  | nil => rfl
  | cons symbol rest ih => simp [decode, code.dec_enc, ih]

/-- The head pair and the rest of an accepted text. -/
theorem decode_pair (dec : Digit → Digit → Option Symbol) (high low : Digit)
    (rest : List Digit) (symbols : List Symbol)
    (accepted : decode dec (high :: low :: rest) = some symbols) :
    ∃ symbol tail, dec high low = some symbol ∧ decode dec rest = some tail ∧
      symbols = symbol :: tail := by
  cases head : dec high low with
  | none => simp [decode, head] at accepted
  | some symbol =>
      obtain ⟨tail, found, same⟩ : ∃ tail, decode dec rest = some tail ∧
          symbol :: tail = symbols := by simpa [decode, head] using accepted
      exact ⟨symbol, tail, rfl, found, same.symm⟩

/-- Only the digits of the text are looked up. -/
theorem decode_congr (dec dec' : Digit → Digit → Option Symbol) (text : List Digit)
    (same : ∀ high ∈ text, ∀ low ∈ text, dec high low = dec' high low) :
    decode dec text = decode dec' text := by
  induction text using List.twoStepInduction with
  | nil => rfl
  | singleton digit => rfl
  | cons_cons high low rest ih _ =>
      have head : dec high low = dec' high low := same high (by simp) low (by simp)
      have tail : decode dec rest = decode dec' rest :=
        ih fun h h_there l l_there => same h (by simp [h_there]) l (by simp [l_there])
      rw [decode, decode, head, tail]

/-- Encoding what was decoded gives the text back in the encoder's spelling. -/
theorem encode_of_decode (code : Code Symbol Digit) (text : List Digit)
    (symbols : List Symbol) (accepted : decode code.dec text = some symbols) :
    encode code.enc symbols = text.map code.norm := by
  induction text using List.twoStepInduction generalizing symbols with
  | nil =>
      obtain rfl : symbols = [] := by simpa [decode, eq_comm] using accepted
      rfl
  | singleton digit => simp [decode] at accepted
  | cons_cons high low rest ih _ =>
      obtain ⟨symbol, tail, head, found, rfl⟩ := decode_pair code.dec high low rest symbols accepted
      rw [encode_cons, code.enc_dec high low symbol head, ih tail found]
      rfl

end EChainLib.DigitPairs
