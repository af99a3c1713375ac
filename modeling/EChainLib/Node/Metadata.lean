import Mathlib
import EChainLib.Codec.Hex
import EChainLib.Node.BusinessData
import EChainLib.Support.Words

/-! The hexadecimal form of the metadata: `StrToHex`, `HexToStr` and
`ParseCreditInfoFromHexString` with their pointers, their return values and their counters of
type `int`. A result of `none` is undefined in C. -/

namespace EChainLib.Node.Metadata

open EChainLib.Keys (Bytes hexStringToBin hexByte hexValue cString cString_of_text text)
open EChainLib.Codec (HexText hexDigits)

/-- The index `i*2`. -/
def twice (i : Nat) : Option Nat := if i * 2 < 2 ^ 31 then some (i * 2) else none

def strToHexLoop : Bytes → Nat → Option Bytes
  | [], _ => some []
  | byte :: rest, i => do
      let _ ← twice i
      let hexData ← strToHexLoop rest (i + 1)
      some ((upperPair byte).1 :: (upperPair byte).2 :: hexData)

/-- The return value, and the text at `hexData`. A null pointer is `none`. -/
def strToHex (strData hexData : Option Bytes) : Option (Int × Option Bytes) :=
  match strData, hexData with
  | some value, some _ =>
      if cString value = [] then some (-2, hexData)
      else (strToHexLoop (cString value) 0).map fun text => (0, some text)
  | _, _ => some (-1, hexData)

/-- The scan may read on behind the two characters, but the next one starts two further. -/
def hexToStrLoop : Bytes → Nat → Option Bytes
  | high :: low :: rest, i => do
      let _ ← twice i
      match scanHex2 (high :: low :: rest) with
      | none => some []
      | some byte => (hexToStrLoop rest (i + 1)).map (byte :: ·)
  | _, i => (twice i).map fun _ => []

/-- The return value, and the bytes before the last `'\0'` at `strData`. -/
def hexToStr (hexData strData : Option Bytes) : Option (Int × Option Bytes) :=
  match hexData, strData with
  | some value, some _ =>
      if (cString value).length % 2 = 1 then some (-2, strData)
      else (hexToStrLoop (cString value) 0).map fun bytes => (0, some bytes)
  | _, _ => some (-1, strData)

/-- `malloc` says whether a size is granted. -/
def parseCreditInfoFromHexString (malloc : UInt64 → Bool) (metaData creditInfo : Bytes) :
    Option (Int × Bytes) :=
  let iLen := Int32.ofNat metaData.length
  let size := (iLen / 2 + 1).toInt64.toUInt64
  if malloc size then
    match hexToStr (some metaData) (some []) with
    | none => none
    | some (code, pCreditData) =>
        if code < 0 then some (-1, creditInfo)
        else
          let bytes := pCreditData.getD []
          -- with the `'\0'` the bytes have to fit the block
          if bytes.length < size.toNat then some (1, cString bytes) else none
  else some (-1, creditInfo)

/-! The loops. -/

theorem twice_inside (i : Nat) (inside : i < 2 ^ 30) : twice i = some (i * 2) :=
  if_pos (by omega)

theorem twice_outside (i : Nat) (outside : 2 ^ 30 ≤ i) : twice i = none := if_neg (by omega)

theorem strToHexLoop_short (value : Bytes) (i : Nat) (short : i + value.length ≤ 2 ^ 30) :
    strToHexLoop value i = some (DigitPairs.encode upperPair value) := by
  induction value generalizing i with
  | nil => rfl
  | cons byte rest ih =>
      rw [List.length_cons] at short
      rw [strToHexLoop, twice_inside i (by omega), ih (i + 1) (by omega)]
      rfl

theorem strToHexLoop_long (value : Bytes) (i : Nat) (entered : value ≠ [])
    (long : 2 ^ 30 < i + value.length) : strToHexLoop value i = none := by
  induction value generalizing i with
  | nil => exact absurd rfl entered
  | cons byte rest ih =>
      rw [List.length_cons] at long
      rw [strToHexLoop]
      by_cases outside : 2 ^ 30 ≤ i
      · rw [twice_outside i outside]
        rfl
      · -- more characters follow, since this one is not the last that fits
        have more : rest ≠ [] := by
          rintro rfl
          rw [List.length_nil] at long
          omega
        rw [twice_inside i (by omega), ih (i + 1) more (by omega)]
        rfl

/-- As long as the index stays an `int`, the counter does not matter. -/
theorem hexToStrLoop_short (hexData : Bytes) (i : Nat) (short : i * 2 + hexData.length < 2 ^ 31) :
    hexToStrLoop hexData i = some (Node.hexToStrLoop hexData) := by
  induction hexData using List.twoStepInduction generalizing i with
  | nil =>
      rw [hexToStrLoop, twice_inside i (by simp at short; omega)]
      · rfl
      · exact fun _ _ _ cells => nomatch cells
  | singleton digit =>
      rw [hexToStrLoop, twice_inside i (by simp at short; omega)]
      · rfl
      · exact fun _ _ _ cells => nomatch cells
  | cons_cons high low rest ih _ =>
      rw [List.length_cons, List.length_cons] at short
      rw [hexToStrLoop, twice_inside i (by omega), Node.hexToStrLoop, ih (i + 1) (by omega)]
      cases scanHex2 (high :: low :: rest) <;> rfl

theorem hexToStrLoop_length (hexData : Bytes) :
    (Node.hexToStrLoop hexData).length ≤ hexData.length / 2 := by
  induction hexData using List.twoStepInduction with
  | nil => exact Nat.le_refl _
  | singleton digit => exact Nat.zero_le _
  | cons_cons high low rest ih _ =>
      rw [Node.hexToStrLoop]
      cases scanHex2 (high :: low :: rest) with
      | none => exact Nat.zero_le _
      | some byte =>
          simp only [List.length_cons]
          omega

/-- A text of digit pairs is read to its end, unless the index overflows on the way. -/
theorem hexToStrLoop_digits (hexData bytes : Bytes) (i : Nat)
    (decoded : DigitPairs.decode (hexByte false) hexData = some bytes) :
    Node.hexToStrLoop hexData = bytes ∧
      (2 ^ 31 ≤ i * 2 + hexData.length → hexToStrLoop hexData i = none) := by
  induction hexData using List.twoStepInduction generalizing i bytes with
  | nil =>
      refine ⟨Option.some.inj decoded, fun long => ?_⟩
      rw [hexToStrLoop, twice_outside i (by simp at long; omega)]
      · rfl
      · exact fun _ _ _ cells => nomatch cells
  | singleton digit => cases decoded
  | cons_cons high low rest ih _ =>
      obtain ⟨byte, tail, pair, found, rfl⟩ := DigitPairs.decode_pair _ high low rest bytes decoded
      have scanned := scanHex2_pair high low byte rest pair
      obtain ⟨read, overflows⟩ := ih tail (i + 1) found
      refine ⟨by rw [Node.hexToStrLoop, scanned, read], fun long => ?_⟩
      rw [List.length_cons, List.length_cons] at long
      rw [hexToStrLoop]
      by_cases outside : 2 ^ 30 ≤ i
      · rw [twice_outside i outside]
        rfl
      · rw [twice_inside i (by omega), scanned, overflows (by omega)]
        rfl

/-! Texts. -/

theorem cString_hex (h : Bytes) (hex : HexText h) : cString h = h := by
  refine cString_of_text h fun zero => ?_
  exact absurd (hex.digits 0 zero) (by decide)

theorem decode_hex (h : Bytes) (hex : HexText h) :
    DigitPairs.decode (hexByte false) h = some (hexStringToBin h false) := by
  rw [Codec.hexStringToBin_eq h hex]
  exact Codec.decode_pairs h 0 hex

/-- What `hexToStr` promises of a text. -/
def DecodesHex (h strData : Bytes) : Prop :=
  ∃ code out, hexToStr (some h) (some strData) = some (code, some out) ∧
    (code = 0 ↔ HexText h) ∧
    (code = 0 → cString out = cString (hexStringToBin h false) ∧
      (cString out).length ≤ h.length / 2)

theorem decodesHex_iff (h strData : Bytes) :
    DecodesHex h strData ↔ (cString h).length % 2 = 1 ∨ (HexText h ∧ h.length < 2 ^ 31) := by
  constructor
  · rintro ⟨code, out, returned, accepted, -⟩
    rw [hexToStr] at returned
    split_ifs at returned with odd
    · exact Or.inl odd
    · cases loop : hexToStrLoop (cString h) 0 with
      | none => rw [loop] at returned; cases returned
      | some bytes =>
          rw [loop] at returned
          cases returned
          -- 0 was returned, so only the overflow is left to rule out
          have hex := accepted.mp rfl
          refine Or.inr ⟨hex, not_le.mp fun long => ?_⟩
          have overflows := (hexToStrLoop_digits h _ 0 (decode_hex h hex)).2 (by omega)
          rw [cString_hex h hex, overflows] at loop
          cases loop
  · rintro (odd | ⟨hex, short⟩)
    · refine ⟨-2, strData, by rw [hexToStr, if_pos odd], ?_, fun taken => absurd taken (by decide)⟩
      refine ⟨fun taken => absurd taken (by decide), fun hex => ?_⟩
      rw [cString_hex h hex] at odd
      have even := hex.even
      omega
    · have even := hex.even
      have read := (hexToStrLoop_digits h _ 0 (decode_hex h hex)).1
      refine ⟨0, hexStringToBin h false, ?_, ⟨fun _ => hex, fun _ => rfl⟩, fun _ => ⟨rfl, ?_⟩⟩
      · rw [hexToStr, cString_hex h hex, if_neg (by omega), hexToStrLoop_short h 0 (by omega), read]
        rfl
      · have bound := hexToStrLoop_length h
        rw [read] at bound
        exact (List.takeWhile_prefix _).length_le.trans bound

/-! The round trip. -/

theorem block_size (n : Nat) (short : n < 2 ^ 31) :
    (Int32.ofNat n / 2 + 1).toInt64.toUInt64.toNat = n / 2 + 1 := by
  have two : Int32.toInt 2 = 2 := rfl
  have one : Int32.toInt 1 = 1 := rfl
  -- no step of the size leaves the range of an `int`
  have half : (Int32.ofNat n / 2).toInt = ((n / 2 : Nat) : Int) := by
    rw [Int32.toInt_div_of_ne_right _ _ (by decide), Int32.toInt_ofNat_of_lt short, two]
    exact Int.tdiv_eq_ediv_of_nonneg (Int.natCast_nonneg n)
  have value : (Int32.ofNat n / 2 + 1).toInt64.toInt = ((n / 2 + 1 : Nat) : Int) := by
    rw [Int32.toInt_toInt64, Int32.toInt_add, half, one,
      Int.bmod_eq_of_le (by omega) (by omega)]
    rfl
  exact Words.toNat_toUInt64 _ _ value

/-- The block for the text of a document, `sizeof(char)*(iLen*2 + 1)`. -/
def hexBlock (length : Nat) : UInt64 := (Int32.ofNat length * 2 + 1).toInt64.toUInt64

theorem hexBlock_short (n : Nat) (short : n < 2 ^ 30) : (hexBlock n).toNat = 2 * n + 1 := by
  have inside : (Int32.ofNat n).toInt = n := Int32.toInt_ofNat_of_lt (by omega)
  have two : (2 : Int32).toInt = 2 := by decide
  have one : (1 : Int32).toInt = 1 := by decide
  have value : (Int32.ofNat n * 2 + 1).toInt64.toInt = ((2 * n + 1 : Nat) : Int) := by
    rw [Int32.toInt_toInt64, Int32.toInt_add, Int32.toInt_mul, inside, two, one,
      Int.bmod_eq_of_le (n := (n : Int) * 2) (by omega) (by omega),
      Int.bmod_eq_of_le (by omega) (by omega)]
    push_cast
    ring
  exact Words.toNat_toUInt64 _ _ value

/-- `malloc` grants what an `int` can ask for, and nothing that is a negative number. -/
structure Allocates (malloc : UInt64 → Bool) : Prop where
  granted : ∀ size : UInt64, size.toNat < 2 ^ 31 → malloc size = true
  refused : ∀ size : UInt64, 2 ^ 63 ≤ size.toNat → malloc size = false

variable {malloc : UInt64 → Bool} (allocates : Allocates malloc)

include allocates

/-- Metadata whose length is an `int` are read as the calls of the node read them. -/
theorem parseCreditInfo_short (metaData creditInfo : Bytes) (short : metaData.length < 2 ^ 31) :
    parseCreditInfoFromHexString malloc metaData creditInfo =
      some (match Node.parseCreditInfoFromHexString metaData with
        | none => (-1, creditInfo)
        | some info => (1, info)) := by
  have size := block_size metaData.length short
  have visible : (cString metaData).length ≤ metaData.length :=
    (List.takeWhile_prefix _).length_le
  have fits := hexToStrLoop_length (cString metaData)
  rw [parseCreditInfoFromHexString, allocates.granted _ (by omega), if_pos rfl, hexToStr,
    hexToStrLoop_short _ 0 (by omega), Node.parseCreditInfoFromHexString, Node.hexToStr]
  by_cases odd : (cString metaData).length % 2 = 1
  · simp [odd]
  · simp only [odd, if_false, Option.map_some, lt_irrefl, Option.getD_some]
    rw [if_pos (by omega)]

/-- Documents below 2^30 bytes are written as the calls of the node write them: `malloc` grants
the block of `iLen*2 + 1` bytes, and the text has room in it with its `'\0'`. -/
theorem strToHex_short (document hexData : Bytes) (short : document.length < 2 ^ 30) :
    malloc (hexBlock document.length) = true ∧
      strToHex (some document) (some hexData) =
        some (match Node.strToHex document with
          | none => (-2, some hexData)
          | some text => (0, some text)) ∧
      ∀ text ∈ Node.strToHex document, text.length < (hexBlock document.length).toNat := by
  have size := hexBlock_short document.length short
  have visible : (cString document).length ≤ document.length :=
    (List.takeWhile_prefix _).length_le
  have spelled := DigitPairs.encode_length upperPair (cString document)
  refine ⟨allocates.granted _ (by omega), ?_, fun text written => ?_⟩
  · rw [strToHex, Node.strToHex, strToHexLoop_short _ 0 (by omega)]
    split_ifs with empty
    · rfl
    · rfl
  · rw [Node.strToHex] at written
    split_ifs at written with empty
    · cases written
    · obtain rfl := Option.mem_some_iff.mp written
      omega

/-- What is promised of a text that is written and read back. -/
def RoundTrip (malloc : UInt64 → Bool) (x hexData creditInfo : Bytes) : Prop :=
  ∃ metaData, strToHex (some x) (some hexData) = some (0, some metaData) ∧
    parseCreditInfoFromHexString malloc metaData creditInfo = some (1, x)

theorem roundTrip_iff (x hexData creditInfo : Bytes) (filled : x ≠ []) (clean : (0 : UInt8) ∉ x) :
    RoundTrip malloc x hexData creditInfo ↔ x.length < 2 ^ 30 := by
  have whole := cString_of_text x clean
  have length := DigitPairs.encode_length upperPair x
  constructor
  · rintro ⟨metaData, written, read⟩
    rw [strToHex, whole, if_neg filled] at written
    refine not_le.mp fun long => ?_
    rcases long.eq_or_lt with last | above
    · -- the length of the text is narrowed to the smallest `int`
      rw [strToHexLoop_short x 0 (by omega)] at written
      cases written
      have narrowed : (DigitPairs.encode upperPair x).length = 2 ^ 31 := by omega
      rw [parseCreditInfoFromHexString, narrowed, allocates.refused _ (by decide)] at read
      cases read
    · rw [strToHexLoop_long x 0 filled (by omega)] at written
      cases written
  · intro short
    have spelled : Node.strToHex x = some (DigitPairs.encode upperPair x) := by
      rw [Node.strToHex, whole, if_neg filled]
    refine ⟨DigitPairs.encode upperPair x, ?_, ?_⟩
    · rw [(strToHex_short allocates x hexData short).2.1, spelled]
    · rw [parseCreditInfo_short allocates _ _ (by omega), Node.parseCreditInfoFromHexString,
        hexToStr_strToHex x _ clean spelled, Option.map_some, whole]

theorem metadata_hex_iff :
    (∀ x hexData creditInfo, x ≠ [] → (0 : UInt8) ∉ x →
      (RoundTrip malloc x hexData creditInfo ↔ x.length < 2 ^ 30)) ∧
    ∀ h strData, DecodesHex h strData ↔
      (cString h).length % 2 = 1 ∨ (HexText h ∧ h.length < 2 ^ 31) :=
  ⟨roundTrip_iff allocates, decodesHex_iff⟩

omit allocates

/-- An allocator with the whole address space. -/
theorem allocates_half : Allocates fun size => decide (size.toNat < 2 ^ 63) :=
  ⟨fun _ small => decide_eq_true (by omega), fun _ large => decide_eq_false (by omega)⟩

theorem metadata_hex_iff_applies :
    (∀ x hexData creditInfo, x ≠ [] → (0 : UInt8) ∉ x →
      (RoundTrip (fun size => decide (size.toNat < 2 ^ 63)) x hexData creditInfo ↔
        x.length < 2 ^ 30)) ∧
    ∀ h strData, DecodesHex h strData ↔
      (cString h).length % 2 = 1 ∨ (HexText h ∧ h.length < 2 ^ 31) :=
  metadata_hex_iff allocates_half

/-- No digit is read of `zz`, and the text is accepted. -/
theorem letters_accepted :
    hexToStr (some (text "zz")) (some []) = some (0, some []) ∧
      ¬ ∀ h strData, DecodesHex h strData := by
  have returned : hexToStr (some (text "zz")) (some []) = some (0, some []) := by decide +kernel
  refine ⟨returned, fun promised => ?_⟩
  obtain ⟨code, out, result, accepted, -⟩ := promised (text "zz") []
  rw [returned] at result
  cases result
  exact absurd (accepted.mp rfl).digits (by decide +kernel)

end EChainLib.Node.Metadata
