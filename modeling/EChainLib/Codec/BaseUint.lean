import EChainLib.Codec.Hex
import EChainLib.Utils.LetterCase

/-! `utils::base_uint` of `base_int.h`, read by the tolerant decoder of `basen.h` and printed
in two ways, and `Char2Hex`. -/

namespace EChainLib.Codec

open Keys (Bytes hexPair hexValue hexDigit lowerCase binToHexString hexStringToBin)
open Utils (toUpper upperByte)

/-- `WIDTH`, the bytes of a `base_uint`. -/
def byteWidth (bits : Nat) : Nat := bits / 8

/-- What `FromB16` returns and what `data_` is behind it. -/
def fromB16 (bits : Nat) (data_ str : Bytes) : Bool × Bytes :=
  let strDecode := decode_b16 str
  if strDecode.length ≠ byteWidth bits then (false, data_) else (true, strDecode)

def toB16 (data_ : Bytes) : Bytes := encode_b16 data_

/-- `%02X` of a `char`, which is promoted with its sign. -/
def formatX02 (c : UInt8) : Bytes :=
  let digits := ((Nat.digits 16 (promoted c).toUInt32.toNat).map fun digit =>
    upperByte (hexDigit (UInt8.ofNat digit))).reverse
  List.replicate (2 - digits.length) '0'.toUInt8 ++ digits

def toHex (bits : Nat) (data_ : Bytes) : Bytes :=
  (List.range (byteWidth bits)).flatMap fun i => formatX02 (data_.getD i 0)

def char2Hex (blob : Bytes) : Bytes := blob.flatMap formatX02

/-- The digits that are read: a 0 completes an odd number of them, unless the `=` are odd too,
which drop the last one. -/
def readDigits (s : Bytes) : Bytes :=
  let digits := s.filter isHexDigit
  if digits.length % 2 = 0 then digits
  else if s.count '='.toUInt8 % 2 = 0 then digits ++ ['0'.toUInt8]
  else digits.dropLast

/-! The loop of the decoder sees the digits and how many `=` there are. -/

theorem decode_foreign_iff (c : UInt8) :
    b16_conversion_traits.decode c = 0xFF ↔ isHexDigit c = false := by
  rw [b16_decode, ← hexValue_isSome]
  cases found : hexValue false c with
  | none => simp
  | some nibble =>
      have small := (hexValue_digit c nibble found).2.2
      simp only [Option.getD_some, Option.isSome_some, reduceCtorEq, iff_false]
      rintro rfl
      exact absurd small (by decide)

theorem digit_solid (c : UInt8) (digit : isHexDigit c = true) :
    c ≠ '='.toUInt8 ∧ isspace c = false := by
  rw [← hexValue_isSome] at digit
  obtain ⟨nibble, found⟩ := Option.isSome_iff_exists.mp digit
  have solid := hexValue_digit c nibble found
  exact ⟨solid.1, solid.2.1⟩

theorem decodeLoop_filter (s : Bytes) (output_current_bit : Nat) (buffer : UInt8)
    (trailing_equal : Int32) :
    decodeLoop b16_conversion_traits s output_current_bit buffer trailing_equal =
      decodeLoop b16_conversion_traits (s.filter isHexDigit) output_current_bit buffer
        (trailing_equal + Int32.ofNat (s.count '='.toUInt8)) := by
  induction s generalizing output_current_bit buffer trailing_equal with
  | nil => simp
  | cons c rest ih =>
      cases digit : isHexDigit c with
      | true =>
          obtain ⟨sign, _⟩ := digit_solid c digit
          rw [List.filter_cons_of_pos digit, List.count_cons_of_ne sign]
          simp only [decodeLoop, ih, sign, if_false]
      | false =>
          have foreign := (decode_foreign_iff c).mpr digit
          rw [List.filter_cons_of_neg (by simp [digit])]
          by_cases sign : c = '='.toUInt8
          · rw [decodeLoop, if_pos sign, ih, sign, List.count_cons_self]
            congr 1
            rw [Int32.ofNat_add, Int32.add_assoc, Int32.add_comm 1]
            rfl
          · rw [decodeLoop, if_neg sign, List.count_cons_of_ne sign]
            simp only [foreign, if_true, ite_self, ih]

theorem lone_nibble (nibble : UInt8) (small : nibble < 16) :
    narrowed (promoted 0 ||| (shiftLeft (promoted nibble) 4 &&& 0xFF)) = nibble <<< 4 := by
  have every : ∀ n : Fin 16, narrowed (promoted 0 |||
      (shiftLeft (promoted (UInt8.ofNat n)) 4 &&& 0xFF)) = UInt8.ofNat n <<< 4 := by decide
  simpa using every ⟨nibble.toNat, small⟩

theorem rounded_off_iff (trailing_equal : Nat) :
    (Int32.ofNat trailing_equal * 4 + 4) &&& 7 = 0 ↔
      ¬ trailing_equal % 2 = 0 := by
  have same : Int32.ofNat trailing_equal * 4 + 4 = Int32.ofNat (trailing_equal * 4 + 4) := by
    rw [Int32.ofNat_add, Int32.ofNat_mul]
    rfl
  have bits : (BitVec.ofNat 32 (trailing_equal * 4 + 4) &&& 7).toNat =
      (trailing_equal * 4 + 4) % 2 ^ 32 % 2 ^ 3 := by
    rw [BitVec.toNat_and, BitVec.toNat_ofNat, ← Nat.and_two_pow_sub_one_eq_mod _ 3]
    rfl
  rw [same, ← Int32.toBitVec_inj, Int32.toBitVec_and, Int32.toBitVec_ofNat', ← BitVec.toNat_inj]
  refine (Eq.congr_left bits).trans ?_
  show (trailing_equal * 4 + 4) % 2 ^ 32 % 2 ^ 3 = 0 ↔ _
  omega

/-- A digit without a second one is half a byte, unless the `=` round it off. -/
theorem decodeLoop_lone (c nibble : UInt8) (found : hexValue false c = some nibble)
    (trailing_equal : Nat) :
    decodeLoop b16_conversion_traits [c] 0 0 (Int32.ofNat trailing_equal) =
      if trailing_equal % 2 = 0 then [nibble <<< 4] else [] := by
  obtain ⟨sign, solid, small⟩ := hexValue_digit c nibble found
  have value : b16_conversion_traits.decode c = nibble := by rw [b16_decode, found]; rfl
  have fine : nibble ≠ 0xFF := by
    rintro rfl
    exact absurd small (by decide)
  have width : b16_conversion_traits.group_length = 4 := rfl
  have rounded := rounded_off_iff trailing_equal
  rw [← lone_nibble nibble small]
  by_cases even : trailing_equal % 2 = 0 <;>
    simp [decodeLoop, value, sign, solid, fine, width, rounded, even]

/-- An odd number of digits is read as an even one. -/
theorem decodeLoop_odd (text : Bytes) (odd : text.length % 2 ≠ 0)
    (digits : ∀ c ∈ text, isHexDigit c = true) (trailing_equal : Nat) :
    decodeLoop b16_conversion_traits text 0 0 (Int32.ofNat trailing_equal) =
      decodeLoop b16_conversion_traits
        (if trailing_equal % 2 = 0 then text ++ ['0'.toUInt8] else text.dropLast) 0 0
        (Int32.ofNat trailing_equal) := by
  have valued : ∀ c ∈ text, ∃ nibble, hexValue false c = some nibble := fun c there =>
    Option.isSome_iff_exists.mp ((hexValue_isSome c).trans (digits c there))
  induction text using List.twoStepInduction with
  | nil => exact absurd rfl odd
  | singleton c =>
      obtain ⟨nibble, found⟩ := valued c (List.mem_singleton_self c)
      have zero : hexValue false '0'.toUInt8 = some 0 := by decide
      rw [decodeLoop_lone c nibble found]
      split_ifs with even
      · rw [List.singleton_append, decodeLoop_pair c _ nibble 0 [] _ found zero, UInt8.add_zero]
        simp [decodeLoop]
      · simp [decodeLoop]
  | cons_cons high low rest ih _ =>
      obtain ⟨h, high_found⟩ := valued high (by simp)
      obtain ⟨l, low_found⟩ := valued low (by simp)
      have rest_odd : rest.length % 2 ≠ 0 := by
        simp only [List.length_cons] at odd
        omega
      have filled : rest ≠ [] := by
        rintro rfl
        exact rest_odd rfl
      have step := ih rest_odd (fun c there => digits c (by simp [there]))
        fun c there => valued c (by simp [there])
      rw [decodeLoop_pair high low h l rest _ high_found low_found, step]
      split_ifs with even
      · rw [List.cons_append, List.cons_append,
          decodeLoop_pair high low h l _ _ high_found low_found]
      · rw [List.dropLast_cons_of_ne_nil (by simp), List.dropLast_cons_of_ne_nil filled,
          decodeLoop_pair high low h l _ _ high_found low_found]

theorem readDigits_hex (s : Bytes) : HexText (readDigits s) := by
  have digits : ∀ c ∈ s.filter isHexDigit, c ∈ hexDigits := fun c there =>
    (isHexDigit_iff c).mp (List.mem_filter.mp there).2
  unfold readDigits
  dsimp only
  split_ifs with even marks
  · exact ⟨even, digits⟩
  · constructor
    · rw [List.length_append, List.length_singleton]
      omega
    · intro c there
      rcases List.mem_append.mp there with digit | zero
      · exact digits c digit
      · rw [List.mem_singleton.mp zero]
        decide
  · constructor
    · rw [List.length_dropLast]
      omega
    · exact fun c there => digits c (List.mem_of_mem_dropLast there)

/-- The tolerant decoder reads a text as the digits that it takes from it. -/
theorem decode_b16_eq (s : Bytes) : decode_b16 s = hexStringToBin (readDigits s) false := by
  have hex := readDigits_hex s
  have trailing := decode_pairs (readDigits s) (Int32.ofNat (s.count '='.toUInt8)) hex
  rw [decode_pairs (readDigits s) 0 hex] at trailing
  rw [hexStringToBin_eq _ hex, decode_b16, decode_b16, decode, decode, Option.some.inj trailing,
    decodeLoop_filter s, Int32.zero_add]
  by_cases even : (s.filter isHexDigit).length % 2 = 0
  · rw [readDigits, if_pos even]
  · rw [decodeLoop_odd _ even fun c there => (List.mem_filter.mp there).2, readDigits, if_neg even]

theorem decode_b16_length (s : Bytes) : 2 * (decode_b16 s).length = (readDigits s).length := by
  have printed := binToHexString_decode (readDigits s) (readDigits_hex s)
  have length := DigitPairs.encode_length hexPair (decode_b16 (readDigits s))
  rw [← binToHexString, printed, List.length_map] at length
  rw [decode_b16_eq s, hexStringToBin_eq _ (readDigits_hex s)]
  exact length.symm

/-! The two ways to print. -/

theorem formatX02_low (c : UInt8) (low : c < 0x80) :
    formatX02 c = [upperByte (hexPair c).1, upperByte (hexPair c).2] := by
  refine Keys.byte_cases (fun c => c < 0x80 →
    formatX02 c = [upperByte (hexPair c).1, upperByte (hexPair c).2]) ?_ c low
  decide +kernel

theorem upper_lower (c : UInt8) (digit : c ∈ hexDigits) :
    upperByte (lowerCase c) = upperByte c := by
  refine Keys.byte_cases (fun c => c ∈ hexDigits → upperByte (lowerCase c) = upperByte c) ?_ c digit
  decide +kernel

theorem char2Hex_low (blob : Bytes) (low : ∀ c ∈ blob, c < 0x80) :
    char2Hex blob = toUpper (binToHexString blob) := by
  induction blob with
  | nil => rfl
  | cons c rest ih =>
      have tail := ih fun d there => low d (List.mem_cons_of_mem c there)
      rw [char2Hex, List.flatMap_cons, formatX02_low c (low c List.mem_cons_self), ← char2Hex, tail]
      rfl

theorem toHex_eq (bits : Nat) (data_ : Bytes) (whole : data_.length = byteWidth bits) :
    toHex bits data_ = char2Hex data_ := by
  have read : (List.range data_.length).map (fun i => data_.getD i 0) = data_ := by
    apply List.ext_getElem
    · simp
    · intro i _ inside
      rw [List.getElem_map, List.getElem_range, List.getD_eq_getElem _ _ inside]
  conv_rhs => rw [char2Hex, ← read, List.flatMap_map]
  rw [toHex, ← whole]

theorem fromB16_eq (bits : Nat) (data_ s : Bytes) :
    fromB16 bits data_ s =
      if (readDigits s).length = 2 * byteWidth bits then
        (true, hexStringToBin (readDigits s) false)
      else (false, data_) := by
  have length := decode_b16_length s
  have same : (decode_b16 s).length ≠ byteWidth bits ↔
      ¬ (readDigits s).length = 2 * byteWidth bits := by omega
  rw [fromB16, if_congr same rfl rfl, ite_not, decode_b16_eq]

/-- What the decoder reads of a text makes the value; the value is printed as these digits. -/
theorem uint256_texts (data_ s b : Bytes) (low : ∀ c ∈ b, c < 0x80) :
    ((fromB16 256 data_ s).1 = true ↔ (readDigits s).length = 64) ∧
      ((fromB16 256 data_ s).1 = true →
        toB16 (fromB16 256 data_ s).2 = (readDigits s).map lowerCase ∧
          ((∀ c ∈ (fromB16 256 data_ s).2, c < 0x80) →
            toHex 256 (fromB16 256 data_ s).2 = toUpper (readDigits s))) ∧
      ((fromB16 256 data_ s).1 = false → (fromB16 256 data_ s).2 = data_) ∧
      char2Hex b = toUpper (binToHexString b) := by
  have hex := readDigits_hex s
  have width : byteWidth 256 = 32 := rfl
  have printed := binToHexString_decode (readDigits s) hex
  rw [← hexStringToBin_eq _ hex] at printed
  have upper : toUpper ((readDigits s).map lowerCase) = toUpper (readDigits s) := by
    rw [toUpper, toUpper, List.map_map]
    exact List.map_congr_left fun c there => upper_lower c (hex.digits c there)
  rw [fromB16_eq 256 data_ s, width]
  refine ⟨?_, ?_, ?_, char2Hex_low b low⟩
  · split_ifs with counted <;> simpa using counted
  · split_ifs with counted
    · intro _
      refine ⟨(encode_b16_eq _).trans printed, fun plain => ?_⟩
      have length := decode_b16_length s
      rw [decode_b16_eq, counted] at length
      have whole : (hexStringToBin (readDigits s) false).length = byteWidth 256 :=
        Nat.eq_of_mul_eq_mul_left Nat.two_pos length
      rw [toHex_eq 256 _ whole, char2Hex_low _ plain, printed, upper]
    · intro accepted
      cases accepted
  · split_ifs
    · intro refused
      cases refused
    · exact fun _ => rfl

/-- The 64 digits `00` to `1f`, with a blank in front. -/
def spacedDigits : Bytes :=
  ' '.toUInt8 :: binToHexString ((List.range 32).map UInt8.ofNat)

theorem uint256_texts_applies :
    ((fromB16 256 [] spacedDigits).1 = true ↔ (readDigits spacedDigits).length = 64) ∧
      ((fromB16 256 [] spacedDigits).1 = true →
        toB16 (fromB16 256 [] spacedDigits).2 = (readDigits spacedDigits).map lowerCase ∧
          ((∀ c ∈ (fromB16 256 [] spacedDigits).2, c < 0x80) →
            toHex 256 (fromB16 256 [] spacedDigits).2 = toUpper (readDigits spacedDigits))) ∧
      ((fromB16 256 [] spacedDigits).1 = false → (fromB16 256 [] spacedDigits).2 = []) ∧
      char2Hex [0x0a, 0x7f] = toUpper (binToHexString [0x0a, 0x7f]) :=
  uint256_texts [] spacedDigits [0x0a, 0x7f] (by decide +kernel)

/-- The blank is skipped, so a text of 65 characters is taken for a value. -/
theorem spaced_digits_accepted :
    (fromB16 256 [] spacedDigits).1 = true ∧ spacedDigits.length = 65 ∧
      toB16 (fromB16 256 [] spacedDigits).2 ≠ spacedDigits.map lowerCase := by
  rw [toB16, encode_b16_eq]
  decide +kernel

end EChainLib.Codec
