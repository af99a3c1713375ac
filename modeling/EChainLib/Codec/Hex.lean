import Mathlib
import EChainLib.Keys.KeyElement

/-! `basen.h` at the base-16 traits, and the hexadecimal functions of `strings.h`. A
`char` is signed; it is promoted to `int` before a shift. -/

namespace EChainLib.Codec

open Keys (Bytes hexDigit hexPair hexValue hexByte binToHexString hexStringToBin lowerCase)

/-! The generic coders. -/

structure ConversionTraits where
  group_length : Nat
  positive : 0 < group_length
  encode : UInt8 → UInt8
  /-- -1 is `0xFF`. -/
  decode : UInt8 → UInt8

def promoted (c : UInt8) : Int32 := c.toInt8.toInt32

def narrowed (i : Int32) : UInt8 := i.toInt8.toUInt8

def shiftLeft (i : Int32) (bits : Nat) : Int32 := i <<< Int32.ofNat bits

def shiftRight (i : Int32) (bits : Nat) : Int32 := i >>> Int32.ofNat bits

/-- `~(-1 << bits_count)`. -/
def lowBits (bits_count : Nat) : Int32 := ~~~(shiftLeft (-1) bits_count)

def extract_partial_bits (value : UInt8) (start_bit bits_count : Nat) : UInt8 :=
  let t1 := narrowed (shiftRight (promoted value) (8 - bits_count - start_bit))
  narrowed (promoted t1 &&& lowBits bits_count)

def extract_overlapping_bits (previous next : UInt8) (start_bit bits_count : Nat) : UInt8 :=
  let bits_count_in_previous := 8 - start_bit
  let bits_count_in_next := bits_count - bits_count_in_previous
  let t1 := narrowed (shiftLeft (promoted previous) bits_count_in_next &&& 0xFF)
  let t2 := narrowed
    (shiftRight (promoted next) (8 - bits_count_in_next) &&& lowBits bits_count_in_next)
  narrowed ((promoted t1 ||| promoted t2) &&& lowBits bits_count)

/-- `std::isspace` in the C locale. -/
def isspace (c : UInt8) : Bool := c = ' '.toUInt8 || (9 ≤ c && c ≤ 13)

section Coders

variable (traits : ConversionTraits)

/-- The loop of `decode` from `iter` on, and the step behind it. -/
def decodeLoop : Bytes → Nat → UInt8 → Int32 → Bytes
  | [], output_current_bit, buffer, trailing_equal =>
      let trailing_bits :=
        trailing_equal * Int32.ofNat traits.group_length + Int32.ofNat output_current_bit
      if output_current_bit ≠ 0 ∧ trailing_bits &&& 7 ≠ 0 then
        [buffer]
      else []
  | c :: rest, output_current_bit, buffer, trailing_equal =>
      let value := traits.decode c
      let bits_in_current_byte :=
        min (output_current_bit + traits.group_length) 8 - output_current_bit
      let bits_in_next_byte := traits.group_length - bits_in_current_byte
      if c = '='.toUInt8 then
        decodeLoop rest output_current_bit buffer (trailing_equal + 1)
      else if isspace c then
        decodeLoop rest output_current_bit buffer trailing_equal
      else if value = 0xFF then
        -- malformed data is skipped
        decodeLoop rest output_current_bit buffer trailing_equal
      else if bits_in_current_byte = traits.group_length then
        let filled := narrowed (promoted buffer |||
          (shiftLeft (promoted value) (8 - output_current_bit - traits.group_length) &&& 0xFF))
        if output_current_bit + traits.group_length = 8 then
          filled :: decodeLoop rest 0 0 trailing_equal
        else
          decodeLoop rest (output_current_bit + traits.group_length) filled trailing_equal
      else
        narrowed (promoted buffer ||| shiftRight (promoted value) bits_in_next_byte) ::
          decodeLoop rest bits_in_next_byte
            (narrowed (shiftLeft (promoted value) (8 - bits_in_next_byte) &&& 0xFF)) trailing_equal

def decode (text : Bytes) : Bytes := decodeLoop traits text 0 0 0

/-- The `=` at the end. The start bit has eight values, so the loop ends in as many rounds
or not at all. -/
def padding : Nat → Nat → Bytes
  | 0, _ => []
  | rounds + 1, start_bit =>
      if start_bit ≠ 0 then
        '='.toUInt8 :: padding rounds ((start_bit + traits.group_length) % 8)
      else []

def encodeLoop (iter : Bytes) (start_bit : Nat) (backlog : Option UInt8) : Bytes :=
  match backlog with
  | none =>
      match iter with
      | [] => padding traits 8 start_bit
      | value :: rest =>
          if start_bit + traits.group_length < 8 then
            traits.encode (extract_partial_bits value start_bit traits.group_length) ::
              encodeLoop (value :: rest) (start_bit + traits.group_length) none
          else
            encodeLoop rest start_bit (some value)
  | some previous =>
      traits.encode
          (extract_overlapping_bits previous (iter.headD 0) start_bit traits.group_length) ::
        encodeLoop iter ((start_bit + traits.group_length) % 8) none
termination_by (2 * iter.length + if backlog.isSome then 1 else 0, 8 - start_bit)
decreasing_by
  · have := traits.positive
    exact Prod.Lex.right _ (by omega)
  · exact Prod.Lex.left _ _ (by simp; omega)
  · exact Prod.Lex.left _ _ (by simp)

def encode (bytes : Bytes) : Bytes := encodeLoop traits bytes 0 none

end Coders

def b16_conversion_traits : ConversionTraits where
  group_length := 4
  positive := Nat.succ_pos 3
  encode index := ("0123456789abcdef".toList.map Char.toUInt8).getD index.toNat 0
  decode c :=
    if '0'.toUInt8 ≤ c ∧ c ≤ '9'.toUInt8 then c - '0'.toUInt8
    else if 'A'.toUInt8 ≤ c ∧ c ≤ 'F'.toUInt8 then c - 'A'.toUInt8 + 10
    else if 'a'.toUInt8 ≤ c ∧ c ≤ 'f'.toUInt8 then c - 'a'.toUInt8 + 10
    else 0xFF

def encode_b16 (bytes : Bytes) : Bytes := encode b16_conversion_traits bytes

def decode_b16 (text : Bytes) : Bytes := decode b16_conversion_traits text

/-! `utils::String`. -/

def isHexDigit (c : UInt8) : Bool :=
  ('0'.toUInt8 ≤ c && c ≤ '9'.toUInt8) || ('a'.toUInt8 ≤ c && c ≤ 'f'.toUInt8) ||
    ('A'.toUInt8 ≤ c && c ≤ 'F'.toUInt8)

def isHexString (hex_string : Bytes) : Bool :=
  hex_string.length % 2 = 0 && hex_string.all isHexDigit

/-- The overload with an output parameter. -/
def hexStringToBinChecked (hex_string out_put : Bytes) : Bool × Bytes :=
  if isHexString hex_string then (true, hexStringToBin hex_string false) else (false, out_put)

def hexDigits : Bytes := "0123456789abcdefABCDEF".toList.map Char.toUInt8

/-- An even number of hexadecimal digits in any case. -/
structure HexText (text : Bytes) : Prop where
  even : text.length % 2 = 0
  digits : ∀ c ∈ text, c ∈ hexDigits

/-! One digit pair through the generic coders. -/

/-- What the generic coders make of a byte alone. -/
theorem b16_byte (value : UInt8) :
    b16_conversion_traits.encode (extract_partial_bits value 0 4) = (hexPair value).1 ∧
    b16_conversion_traits.encode (extract_overlapping_bits value 0 4 4) = (hexPair value).2 ∧
    b16_conversion_traits.decode value = (hexValue false value).getD 0xFF := by
  refine Keys.byte_cases (fun value =>
    b16_conversion_traits.encode (extract_partial_bits value 0 4) = (hexPair value).1 ∧
    b16_conversion_traits.encode (extract_overlapping_bits value 0 4 4) = (hexPair value).2 ∧
    b16_conversion_traits.decode value = (hexValue false value).getD 0xFF) ?_ value
  decide +kernel

theorem b16_rest (value : UInt8) :
    b16_conversion_traits.encode (extract_partial_bits value 0 4) = (hexPair value).1 :=
  (b16_byte value).1

theorem b16_overlapping (value next : UInt8) :
    b16_conversion_traits.encode (extract_overlapping_bits value next 4 4) =
      (hexPair value).2 := by
  -- no bit of the next byte is wanted
  have none_wanted : lowBits 0 = 0 := by decide
  have alone : extract_overlapping_bits value next 4 4 = extract_overlapping_bits value 0 4 4 := by
    simp only [extract_overlapping_bits, Nat.reduceSub, none_wanted, Int32.and_zero]
  rw [alone]
  exact (b16_byte value).2.1

theorem b16_decode (c : UInt8) :
    b16_conversion_traits.decode c = (hexValue false c).getD 0xFF :=
  (b16_byte c).2.2

theorem encode_b16_cons (value : UInt8) (rest : Bytes) :
    encode_b16 (value :: rest) = (hexPair value).1 :: (hexPair value).2 :: encode_b16 rest := by
  have first : encodeLoop b16_conversion_traits (value :: rest) 0 none =
      (hexPair value).1 :: encodeLoop b16_conversion_traits (value :: rest) 4 none := by
    rw [encodeLoop, if_pos (by decide)]
    exact congrArg (· :: _) (b16_rest value)
  have stored : encodeLoop b16_conversion_traits (value :: rest) 4 none =
      encodeLoop b16_conversion_traits rest 4 (some value) := by
    rw [encodeLoop, if_neg (by decide)]
  have second : encodeLoop b16_conversion_traits rest 4 (some value) =
      (hexPair value).2 :: encodeLoop b16_conversion_traits rest 0 none := by
    rw [encodeLoop]
    exact congrArg (· :: _) (b16_overlapping value _)
  rw [encode_b16, encode, first, stored, second]
  rfl

theorem encode_b16_eq (bytes : Bytes) : encode_b16 bytes = binToHexString bytes := by
  induction bytes with
  | nil => rw [encode_b16, encode, encodeLoop]; rfl
  | cons value rest ih => rw [encode_b16_cons, ih]; rfl

/-! Decoding. -/

/-- The three ways to tell a digit agree. -/
theorem digit_byte (c : UInt8) :
    (hexValue false c).all
        (fun nibble => c ≠ '='.toUInt8 ∧ isspace c = false ∧ nibble < 16) = true ∧
      (hexValue false c).isSome = isHexDigit c ∧ isHexDigit c = hexDigits.contains c := by
  refine Keys.byte_cases (fun c =>
    (hexValue false c).all
        (fun nibble => c ≠ '='.toUInt8 ∧ isspace c = false ∧ nibble < 16) = true ∧
      (hexValue false c).isSome = isHexDigit c ∧ isHexDigit c = hexDigits.contains c) ?_ c
  decide +kernel

/-- A hexadecimal digit is neither `=` nor a blank. -/
theorem hexValue_digit (c nibble : UInt8) (found : hexValue false c = some nibble) :
    c ≠ '='.toUInt8 ∧ isspace c = false ∧ nibble < 16 := by
  have every := (digit_byte c).1
  simpa [found] using every

theorem hexValue_isSome (c : UInt8) : (hexValue false c).isSome = isHexDigit c :=
  (digit_byte c).2.1

theorem nibbles_filled (high low : UInt8) (high_small : high < 16) (low_small : low < 16) :
    narrowed (promoted (narrowed (promoted 0 ||| (shiftLeft (promoted high) 4 &&& 0xFF))) |||
      (shiftLeft (promoted low) 0 &&& 0xFF)) = (high <<< 4) + low := by
  have nibbles : ∀ h l : Fin 16,
      narrowed (promoted (narrowed (promoted 0 |||
        (shiftLeft (promoted (UInt8.ofNat h)) 4 &&& 0xFF))) |||
          (shiftLeft (promoted (UInt8.ofNat l)) 0 &&& 0xFF)) =
        (UInt8.ofNat h <<< 4) + UInt8.ofNat l := by decide +kernel
  simpa using nibbles ⟨high.toNat, high_small⟩ ⟨low.toNat, low_small⟩

theorem decodeLoop_pair (high low h l : UInt8) (rest : Bytes) (trailing : Int32)
    (high_found : hexValue false high = some h) (low_found : hexValue false low = some l) :
    decodeLoop b16_conversion_traits (high :: low :: rest) 0 0 trailing =
      ((h <<< 4) + l) :: decodeLoop b16_conversion_traits rest 0 0 trailing := by
  obtain ⟨high_sign, high_solid, h_small⟩ := hexValue_digit high h high_found
  obtain ⟨low_sign, low_solid, l_small⟩ := hexValue_digit low l low_found
  have high_value : b16_conversion_traits.decode high = h := by rw [b16_decode, high_found]; rfl
  have low_value : b16_conversion_traits.decode low = l := by rw [b16_decode, low_found]; rfl
  have h_fine : h ≠ 0xFF := by
    rintro rfl
    exact absurd h_small (by decide)
  have l_fine : l ≠ 0xFF := by
    rintro rfl
    exact absurd l_small (by decide)
  have width : b16_conversion_traits.group_length = 4 := rfl
  rw [← nibbles_filled h l h_small l_small]
  simp [decodeLoop, high_value, low_value, high_sign, high_solid, low_sign, low_solid, h_fine,
    l_fine, width]

theorem isHexDigit_iff (c : UInt8) : isHexDigit c = true ↔ c ∈ hexDigits := by
  have same := (digit_byte c).2.2
  rw [same, List.contains_iff_mem]

theorem isHexString_iff (text : Bytes) : isHexString text = true ↔ HexText text := by
  simp only [isHexString, Bool.and_eq_true, decide_eq_true_eq, List.all_eq_true, isHexDigit_iff]
  exact ⟨fun ⟨even, digits⟩ => ⟨even, digits⟩, fun ⟨even, digits⟩ => ⟨even, digits⟩⟩

/-- Every digit has a value, so the direct decoder reads the text to its end. -/
theorem decode_pairs (text : Bytes) (trailing : Int32) (hex : HexText text) :
    DigitPairs.decode (hexByte false) text =
      some (decodeLoop b16_conversion_traits text 0 0 trailing) := by
  induction text using List.twoStepInduction with
  | nil => rfl
  | singleton digit => exact absurd hex.even (by simp)
  | cons_cons high low rest ih _ =>
      have valued : ∀ c ∈ high :: low :: rest, ∃ nibble, hexValue false c = some nibble :=
        fun c there => Option.isSome_iff_exists.mp
          ((hexValue_isSome c).trans ((isHexDigit_iff c).mpr (hex.digits c there)))
      obtain ⟨h, high_found⟩ := valued high (by simp)
      obtain ⟨l, low_found⟩ := valued low (by simp)
      have tail : HexText rest := by
        constructor
        · have even := hex.even
          simp only [List.length_cons] at even
          omega
        · exact fun c there => hex.digits c (by simp [there])
      rw [decodeLoop_pair high low h l rest trailing high_found low_found, DigitPairs.decode,
        ih tail]
      simp [hexByte, high_found, low_found]

theorem hexStringToBin_eq (text : Bytes) (hex : HexText text) :
    hexStringToBin text false = decode_b16 text := by
  have decoded := decode_pairs text 0 hex
  cases text with
  | nil => rfl
  | cons c rest =>
      have regular : ¬ ((c :: rest).length % 2 ≠ 0 ∨ c :: rest = []) := by
        rintro (odd | empty)
        · exact odd hex.even
        · cases empty
      rw [hexStringToBin, if_neg regular, decoded]
      rfl

theorem binToHexString_decode (text : Bytes) (hex : HexText text) :
    binToHexString (decode_b16 text) = text.map lowerCase :=
  DigitPairs.encode_of_decode Keys.hexCode text _ (decode_pairs text 0 hex)

/-- The generic coder and the direct one write the same text and read the same bytes. -/
theorem hex_codecs_agree (b h s out : Bytes) (hex : HexText h) :
    (encode_b16 b = binToHexString b ∧ hexStringToBin (binToHexString b) false = b) ∧
      (decode_b16 h = hexStringToBin h false ∧
        binToHexString (hexStringToBin h false) = h.map lowerCase) ∧
      ((hexStringToBinChecked s out).1 = true ↔ HexText s) ∧
      ((hexStringToBinChecked s out).1 = true → (hexStringToBinChecked s out).2 = decode_b16 s) := by
  refine ⟨⟨encode_b16_eq b, Keys.hexStringToBin_binToHexString b⟩, ⟨?_, ?_⟩, ?_, ?_⟩
  · exact (hexStringToBin_eq h hex).symm
  · rw [hexStringToBin_eq h hex]
    exact binToHexString_decode h hex
  · rw [← isHexString_iff, hexStringToBinChecked]
    cases isHexString s <;> simp
  · intro accepted
    rw [hexStringToBinChecked] at accepted ⊢
    cases regular : isHexString s with
    | false => simp [regular] at accepted
    | true => exact hexStringToBin_eq s ((isHexString_iff s).mp regular)

/-- `0aF9`. -/
def mixedCase : Bytes := "0aF9".toList.map Char.toUInt8

theorem hex_codecs_agree_applies :
    (encode_b16 [0x0a, 0xf9] = binToHexString [0x0a, 0xf9] ∧
        hexStringToBin (binToHexString [0x0a, 0xf9]) false = [0x0a, 0xf9]) ∧
      (decode_b16 mixedCase = hexStringToBin mixedCase false ∧
        binToHexString (hexStringToBin mixedCase false) = mixedCase.map lowerCase) ∧
      ((hexStringToBinChecked mixedCase []).1 = true ↔ HexText mixedCase) ∧
      ((hexStringToBinChecked mixedCase []).1 = true →
        (hexStringToBinChecked mixedCase []).2 = decode_b16 mixedCase) :=
  hex_codecs_agree _ _ _ _ ((isHexString_iff mixedCase).mp (by decide +kernel))

end EChainLib.Codec
