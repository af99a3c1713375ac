import Mathlib
import EChainLib.Support.Positional
import EChainLib.Keys.KeyElement

/-! `utils::Base58`. A size that does not fit the `int` it is stored in leaves the call
without a result. -/

namespace EChainLib.Codec

open EChainLib.Positional
open Keys (Bytes)

def kBase58Dictionary : Bytes :=
  "123456789AbCDEFGHJKLMNPQRSTuVWXYZaBcdefghijkmnopqrstUvwxyz".toList.map Char.toUInt8

def kBase58digits : List Int :=
  [-1, -1, -1, -1, -1, -1, -1, -1, -1, -1, -1, -1, -1, -1, -1, -1,
    -1, -1, -1, -1, -1, -1, -1, -1, -1, -1, -1, -1, -1, -1, -1, -1,
    -1, -1, -1, -1, -1, -1, -1, -1, -1, -1, -1, -1, -1, -1, -1, -1,
    -1, 0, 1, 2, 3, 4, 5, 6, 7, 8, -1, -1, -1, -1, -1, -1,
    -1, 9, 34, 11, 12, 13, 14, 15, 16, -1, 17, 18, 19, 20, 21, -1,
    22, 23, 24, 25, 26, 52, 28, 29, 30, 31, 32, -1, -1, -1, -1, -1,
    -1, 33, 10, 35, 36, 37, 38, 39, 40, 41, 42, 43, -1, 44, 45, 46,
    47, 48, 49, 50, 51, 27, 53, 54, 55, 56, 57, -1, -1, -1, -1, -1]

def dictionaryAt (digit : Nat) : UInt8 := kBase58Dictionary.getD digit 0

/-- How often `c` stands at the front. -/
def leading (c : UInt8) (text : Bytes) : Nat := (text.takeWhile (· = c)).length

def Base58.encode (str_in : Bytes) : Option Bytes :=
  let zeros := leading 0 str_in
  -- the last of the leading zeros
  let first_no_zero := zeros - 1
  let b58 := convert 256 58 (str_in.length * 138 / 100 + 1)
    ((str_in.drop first_no_zero).map UInt8.toNat)
  if zeros < 2 ^ 31 then some (List.replicate zeros '1'.toUInt8 ++ b58.map dictionaryAt) else none

/-- A negative `char` indexes in front of the table. -/
def tableEntry (c : UInt8) : Option Int := kBase58digits[c.toNat]?

/-- `(unsigned char)`, which makes 255 of -1. -/
def unsigned (entry : Int) : Nat := (entry % 256).toNat

theorem unsigned_digit (digit : Nat) (small : digit < 58) : unsigned digit = digit := by
  rw [unsigned]
  omega

/-- `new_size` is `size_t(left_size * log2(58.0) / 8 + 2)`. -/
def Base58.decode (new_size : Nat → Nat) (strIn : Bytes) : Option (Int32 × Bytes) :=
  let nZeros := leading (dictionaryAt 0) strIn
  match (strIn.drop nZeros).mapM tableEntry with
  | none => none
  | some entries =>
      if new_size (strIn.length - nZeros) ≤ 2 ^ 31 then
        let tmp_str := convert 58 256 (new_size (strIn.length - nZeros)) (entries.map unsigned)
        -- `k` has come to the end of `tmp_str`, so `tmp_str.size() - k` is 0
        some (Int32.ofNat nZeros, List.replicate nZeros 0 ++ tmp_str.map UInt8.ofNat)
      else none

/-- The checks on one character of `str_trim`. -/
def Base58.trimmedDigit (c : UInt8) : Option Nat :=
  match kBase58digits[c.toNat]? with
  | none => none
  | some entry => if entry = -1 then none else some entry.toNat

/-- With exact big numbers. -/
def Base58.decode_old (strIn : Bytes) : Option (Int32 × Bytes) :=
  let nZeros := leading (dictionaryAt 0) strIn
  match (strIn.drop nZeros).mapM Base58.trimmedDigit with
  | none => some (0, [])
  | some digits =>
      let bn := digits.foldl (fun bn bnchar => bn * 58 + bnchar) 0
      let out := (Nat.digits 256 bn).reverse
      if out.length < 2 ^ 31 then
        some (Int32.ofNat (out.length + nZeros), List.replicate nZeros 0 ++ out.map UInt8.ofNat)
      else none

/-! What stands at the front. -/

theorem leading_append (c : UInt8) (count : Nat) (text : Bytes) (other : text.head? ≠ some c) :
    leading c (List.replicate count c ++ text) = count := by
  rw [leading, List.takeWhile_append_of_pos (by simp)]
  cases text with
  | nil => simp
  | cons d rest =>
      have differs : d ≠ c := fun same => other (congrArg some same)
      simp [differs]

theorem leading_split (c : UInt8) (text : Bytes) :
    text = List.replicate (leading c text) c ++ text.drop (leading c text) ∧
      (text.drop (leading c text)).head? ≠ some c := by
  induction text with
  | nil => simp [leading]
  | cons d rest ih =>
      by_cases same : d = c
      · subst same
        have length : leading d (d :: rest) = leading d rest + 1 := by simp [leading]
        rw [length, List.replicate_succ, List.drop_succ_cons, List.cons_append]
        exact ⟨congrArg (d :: ·) ih.1, ih.2⟩
      · have length : leading c (d :: rest) = 0 := by simp [leading, same]
        rw [length]
        simp [same]

/-! The dictionary. -/

theorem dictionary_bytes : kBase58Dictionary =
    [49, 50, 51, 52, 53, 54, 55, 56, 57, 65, 98, 67, 68, 69, 70, 71, 72, 74, 75, 76, 77, 78, 80,
      81, 82, 83, 84, 117, 86, 87, 88, 89, 90, 97, 66, 99, 100, 101, 102, 103, 104, 105, 106, 107,
      109, 110, 111, 112, 113, 114, 115, 116, 85, 118, 119, 120, 121, 122] := by decide

theorem entry_dictionaryAt (digit : Nat) (small : digit < 58) :
    tableEntry (dictionaryAt digit) = some (digit : Int) ∧
      Base58.trimmedDigit (dictionaryAt digit) = some digit := by
  have every : ∀ d : Fin 58, tableEntry (dictionaryAt d) = some (d : Int) ∧
      Base58.trimmedDigit (dictionaryAt d) = some d := by
    simp only [dictionaryAt, dictionary_bytes]
    decide +kernel
  exact every ⟨digit, small⟩

theorem tableEntry_dictionaryAt (digit : Nat) (small : digit < 58) :
    tableEntry (dictionaryAt digit) = some (digit : Int) :=
  (entry_dictionaryAt digit small).1

theorem trimmedDigit_dictionaryAt (digit : Nat) (small : digit < 58) :
    Base58.trimmedDigit (dictionaryAt digit) = some digit :=
  (entry_dictionaryAt digit small).2

theorem dictionaryAt_first (digit : Nat) (small : digit < 58)
    (first : dictionaryAt digit = dictionaryAt 0) : digit = 0 := by
  have here := tableEntry_dictionaryAt digit small
  rw [first, tableEntry_dictionaryAt 0 (by decide)] at here
  simpa [eq_comm] using here

theorem dictionaryAt_mem (digit : Nat) (small : digit < 58) :
    dictionaryAt digit ∈ kBase58Dictionary := by
  have bound : digit < kBase58Dictionary.length := by
    rw [dictionary_bytes]
    exact small
  rw [dictionaryAt, List.getD_eq_getElem _ _ bound]
  exact List.getElem_mem bound

/-- An entry other than -1 is the place of its character. -/
theorem dictionaryAt_tableEntry (c : UInt8) :
    ∀ entry ∈ tableEntry c, entry = -1 ∨ entry.toNat < 58 ∧ dictionaryAt entry.toNat = c := by
  refine Keys.byte_cases (fun c => ∀ entry ∈ tableEntry c,
    entry = -1 ∨ entry.toNat < 58 ∧ dictionaryAt entry.toNat = c) ?_ c
  simp only [dictionaryAt, dictionary_bytes]
  decide +kernel

/-- Outside the dictionary the table is left or holds -1. -/
theorem outside_dictionary (c : UInt8) (outside : c ∉ kBase58Dictionary) :
    (tableEntry c = none ∨ tableEntry c = some (-1)) ∧ Base58.trimmedDigit c = none := by
  have entries : tableEntry c = none ∨ tableEntry c = some (-1) := by
    cases read : tableEntry c with
    | none => exact Or.inl rfl
    | some entry =>
        obtain minus | ⟨small, same⟩ := dictionaryAt_tableEntry c entry read
        · exact Or.inr (congrArg some minus)
        · exact absurd (same ▸ dictionaryAt_mem entry.toNat small) outside
  refine ⟨entries, ?_⟩
  rw [tableEntry] at entries
  obtain none | minus := entries
  · rw [Base58.trimmedDigit, none]
  · rw [Base58.trimmedDigit, minus]
    rfl

theorem mem_dictionary (c : UInt8) (inside : c ∈ kBase58Dictionary) :
    ∃ digit < 58, dictionaryAt digit = c := by
  obtain ⟨digit, bound, at_digit⟩ := List.mem_iff_getElem.mp inside
  refine ⟨digit, bound, ?_⟩
  rw [dictionaryAt, List.getD_eq_getElem _ _ bound, at_digit]

theorem digits_of_text (text : Bytes) (inside : ∀ c ∈ text, c ∈ kBase58Dictionary) :
    ∃ digits : List Nat, (∀ d ∈ digits, d < 58) ∧ text = digits.map dictionaryAt := by
  induction text with
  | nil => exact ⟨[], by simp, rfl⟩
  | cons c rest ih =>
      obtain ⟨digit, small, rfl⟩ := mem_dictionary c (inside c List.mem_cons_self)
      obtain ⟨digits, bound, rfl⟩ := ih fun c there => inside c (List.mem_cons_of_mem _ there)
      exact ⟨digit :: digits, by simpa [small] using bound, rfl⟩

theorem mapM_digits {Entry : Type} (entry : UInt8 → Option Entry) (read : Nat → Entry)
    (known : ∀ d < 58, entry (dictionaryAt d) = some (read d)) (digits : List Nat)
    (bound : ∀ d ∈ digits, d < 58) :
    (digits.map dictionaryAt).mapM entry = some (digits.map read) := by
  induction digits with
  | nil => rfl
  | cons d rest ih =>
      rw [List.map_cons, List.mapM_cons, known d (bound d List.mem_cons_self),
        ih fun d there => bound d (List.mem_cons_of_mem _ there)]
      rfl

/-! Bytes as digits to the base 256. -/

def number (bytes : Bytes) : Nat := numeral 256 (bytes.map UInt8.toNat)

def base58Length (bytes : Bytes) : Nat := (spelled 58 (number bytes)).length

theorem byte_digits (bytes : Bytes) : ∀ d ∈ bytes.map UInt8.toNat, d < 256 := by
  intro d there
  obtain ⟨byte, _, rfl⟩ := List.mem_map.mp there
  exact byte.toNat_lt

theorem number_zeros (zeros : Nat) (bytes : Bytes) :
    number (List.replicate zeros 0 ++ bytes) = number bytes := by
  rw [number, List.map_append, List.map_replicate]
  exact numeral_zeros zeros _

/-- Behind its leading zeros a byte string spells its number. -/
theorem spelled_number (bytes : Bytes) (solid : bytes.head? ≠ some 0) :
    (spelled 256 (number bytes)).map UInt8.ofNat = bytes := by
  rw [number, spelled_numeral (by decide) _ (byte_digits bytes)]
  have whole : (bytes.map UInt8.toNat).dropWhile (· = 0) = bytes.map UInt8.toNat := by
    cases bytes with
    | nil => rfl
    | cons byte rest =>
        have nonzero : byte ≠ 0 := fun zero => solid (congrArg some zero)
        have value : byte.toNat ≠ 0 := fun zero => nonzero (UInt8.toNat_inj.mp zero)
        simp [value]
  have same : UInt8.ofNat ∘ UInt8.toNat = id := funext fun byte => UInt8.ofNat_toNat
  rw [whole, List.map_map, same, List.map_id]

/-! Encoding. -/

theorem encode_room (n : Nat) : 256 ^ n ≤ 58 ^ (n * 138 / 100 + 1) :=
  pow_le_of_blocks (by decide) (by decide +kernel) (by decide +kernel) n

/-- What stands in front of the first byte that is not zero adds nothing. -/
theorem number_from_last_zero (bytes : Bytes) :
    number (bytes.drop (leading 0 bytes - 1)) = number bytes := by
  have split := (leading_split 0 bytes).1
  have dropped : ∀ (zeros : Nat) (rest : Bytes),
      number ((List.replicate zeros 0 ++ rest).drop (zeros - 1)) = number rest := by
    intro zeros rest
    rw [List.drop_append_of_le_length (by simp), List.drop_replicate, number_zeros]
  calc number (bytes.drop (leading 0 bytes - 1))
      = number ((List.replicate (leading 0 bytes) 0 ++ bytes.drop (leading 0 bytes)).drop
          (leading 0 bytes - 1)) :=
        congrArg (fun text => number (text.drop (leading 0 bytes - 1))) split
    _ = number (bytes.drop (leading 0 bytes)) := dropped _ _
    _ = number (List.replicate (leading 0 bytes) 0 ++ bytes.drop (leading 0 bytes)) :=
        (number_zeros _ _).symm
    _ = number bytes := congrArg number split.symm

theorem encode_eq (bytes : Bytes) :
    Base58.encode bytes =
      if leading 0 bytes < 2 ^ 31 then
        some (List.replicate (leading 0 bytes) '1'.toUInt8 ++
          (spelled 58 (number bytes)).map dictionaryAt)
      else none := by
  have held := number_from_last_zero bytes
  have room : numeral 256 ((bytes.drop (leading 0 bytes - 1)).map UInt8.toNat) <
      58 ^ (bytes.length * 138 / 100 + 1) := by
    have bound := numeral_lt (by decide) _ (byte_digits bytes)
    rw [List.length_map] at bound
    exact (held.trans_lt bound).trans_le (encode_room bytes.length)
  rw [Base58.encode, convert_eq (by decide) _ _ room]
  exact congrArg (fun n => if leading 0 bytes < 2 ^ 31 then
    some (List.replicate (leading 0 bytes) '1'.toUInt8 ++ (spelled 58 n).map dictionaryAt)
      else none) held

/-! Decoding. -/

/-- The size of the decoder's work buffer is `left * log2(58) / 8 + 1` at least, up to the
rounding of a `double`, as long as it fits an `int`; for nothing left it is 2. -/
structure HasRoom (new_size : Nat → Nat) : Prop where
  empty : new_size 0 = 2
  room : ∀ left, new_size left ≤ 2 ^ 31 → 128 * 58 ^ left ≤ 256 ^ new_size left

variable {new_size : Nat → Nat}

theorem leading_ones (ones : Nat) (digits : List Nat) (bound : ∀ d ∈ digits, d < 58)
    (solid : digits.head? ≠ some 0) :
    leading (dictionaryAt 0) (List.replicate ones (dictionaryAt 0) ++ digits.map dictionaryAt) =
      ones := by
  apply leading_append
  cases digits with
  | nil => simp
  | cons d rest =>
      intro first
      have zero := dictionaryAt_first d (bound d List.mem_cons_self) (Option.some.inj first)
      exact solid (congrArg some zero)

theorem decode_eq (room : HasRoom new_size) (ones : Nat) (digits : List Nat)
    (bound : ∀ d ∈ digits, d < 58) (solid : digits.head? ≠ some 0) :
    Base58.decode new_size
        (List.replicate ones (dictionaryAt 0) ++ digits.map dictionaryAt) =
      if new_size digits.length ≤ 2 ^ 31 then
        some (Int32.ofNat ones,
          List.replicate ones 0 ++ (spelled 256 (numeral 58 digits)).map UInt8.ofNat)
      else none := by
  have entries := mapM_digits tableEntry Int.ofNat tableEntry_dictionaryAt digits bound
  have left : (List.replicate ones (dictionaryAt 0) ++ digits.map dictionaryAt).length - ones =
      digits.length := by simp
  have trimmed : (List.replicate ones (dictionaryAt 0) ++ digits.map dictionaryAt).drop ones =
      digits.map dictionaryAt := by simp
  have unsigned_digits : (digits.map Int.ofNat).map unsigned = digits := by
    rw [List.map_map]
    exact (List.map_congr_left fun d there => unsigned_digit d (bound d there)).trans
      (List.map_id digits)
  rw [Base58.decode, leading_ones ones digits bound solid]
  simp only [trimmed, entries, left, unsigned_digits]
  by_cases fits : new_size digits.length ≤ 2 ^ 31
  · have held : numeral 58 digits < 256 ^ new_size digits.length := by
      have small := numeral_lt (by decide) digits bound
      have spare := room.room digits.length fits
      omega
    rw [if_pos fits, if_pos fits, convert_eq (by decide) _ _ held]
  · rw [if_neg fits, if_neg fits]

/-! The two round trips. -/

/-- `Decode(Encode(b))` yields `b` and returns its length. -/
def RoundTrips (new_size : Nat → Nat) (b : Bytes) : Prop :=
  ∃ s count, Base58.encode b = some s ∧ Base58.decode new_size s = some (count, b) ∧
    count.toInt = b.length

/-- `Encode(Decode(s))` is `s`. -/
def TextRoundTrips (new_size : Nat → Nat) (s : Bytes) : Prop :=
  ∃ count b, Base58.decode new_size s = some (count, b) ∧ Base58.encode b = some s

theorem one_eq : '1'.toUInt8 = dictionaryAt 0 := by decide

theorem decode_encoded (room : HasRoom new_size) (b : Bytes) :
    Base58.decode new_size (List.replicate (leading 0 b) '1'.toUInt8 ++
        (spelled 58 (number b)).map dictionaryAt) =
      if new_size (base58Length b) ≤ 2 ^ 31 then some (Int32.ofNat (leading 0 b), b) else none := by
  obtain ⟨split, solid⟩ := leading_split 0 b
  have rest : (spelled 256 (number b)).map UInt8.ofNat = b.drop (leading 0 b) := by
    conv_lhs => rw [split]
    rw [number_zeros, spelled_number _ solid]
  have nonzero : (spelled 58 (number b)).head? ≠ some 0 := fun first =>
    spelled_head (number b) 0 first rfl
  rw [one_eq, decode_eq room _ _ (spelled_digits (by decide) _) nonzero, numeral_spelled, rest,
    ← split]
  rfl

theorem count_fits (n : Nat) : (Int32.ofNat n).toInt = n ↔ n < 2 ^ 31 := by
  constructor
  · intro same
    have bound := Int32.toInt_lt (Int32.ofNat n)
    omega
  · exact Int32.toInt_ofNat_of_lt

theorem leading_zeros (count : Nat) : leading 0 (List.replicate count 0) = count := by
  have counted := leading_append 0 count [] (by simp)
  rwa [List.append_nil] at counted

theorem leading_all (b : Bytes) : leading 0 b = b.length ↔ b = List.replicate b.length 0 := by
  constructor
  · intro all
    have split := (leading_split 0 b).1
    rw [all, List.drop_length, List.append_nil] at split
    exact split
  · intro zeros
    rw [zeros, leading_zeros, List.length_replicate]

/-- What `Decode` returns is the number of leading zeros. -/
theorem roundTrips_iff (room : HasRoom new_size) (b : Bytes) :
    RoundTrips new_size b ↔ b = List.replicate b.length 0 ∧ b.length < 2 ^ 31 := by
  rw [← leading_all]
  constructor
  · rintro ⟨s, count, encoded, decoded, same⟩
    rw [encode_eq] at encoded
    split at encoded
    · rename_i few
      cases encoded
      rw [decode_encoded room] at decoded
      split at decoded
      · cases decoded
        rw [(count_fits (leading 0 b)).mpr few] at same
        have all : leading 0 b = b.length := by exact_mod_cast same
        exact ⟨all, all ▸ few⟩
      · cases decoded
    · cases encoded
  · rintro ⟨all, short⟩
    have few : leading 0 b < 2 ^ 31 := all ▸ short
    -- behind the zeros there is nothing, the number 0
    have nothing : base58Length b = 0 := by
      have zeros := (leading_all b).mp all
      rw [base58Length, zeros, ← List.append_nil (List.replicate b.length 0), number_zeros]
      rfl
    have fits : new_size (base58Length b) ≤ 2 ^ 31 := by
      rw [nothing, room.empty]
      decide
    refine ⟨_, Int32.ofNat (leading 0 b), (encode_eq b).trans (if_pos few), ?_, ?_⟩
    · rw [decode_encoded room, if_pos fits]
    · rw [(count_fits (leading 0 b)).mpr few, all]

theorem number_digits (digits : List Nat) (bound : ∀ d ∈ digits, d < 256) :
    number (digits.map UInt8.ofNat) = numeral 256 digits := by
  have same : (digits.map UInt8.ofNat).map UInt8.toNat = digits := by
    rw [List.map_map]
    refine (List.map_congr_left fun d there => ?_).trans (List.map_id digits)
    exact UInt8.toNat_ofNat_of_lt (bound d there)
  rw [number, same]

theorem leading_decoded (ones value : Nat) :
    leading 0 (List.replicate ones 0 ++ (spelled 256 value).map UInt8.ofNat) = ones := by
  apply leading_append
  intro first
  rw [List.head?_map] at first
  obtain ⟨d, head, zero⟩ := Option.map_eq_some_iff.mp first
  have small : d < 256 := spelled_digits (by decide) value d (List.mem_of_head? head)
  have value_d : (UInt8.ofNat d).toNat = d := UInt8.toNat_ofNat_of_lt small
  rw [zero] at value_d
  exact spelled_head value d head value_d.symm

/-- Digits without a leading zero spell their number. -/
theorem spelled_digits_self (digits : List Nat) (bound : ∀ d ∈ digits, d < 58)
    (solid : digits.head? ≠ some 0) : spelled 58 (numeral 58 digits) = digits := by
  rw [spelled_numeral (by decide) digits bound]
  cases digits with
  | nil => rfl
  | cons d rest =>
      have nonzero : d ≠ 0 := fun zero => solid (congrArg some zero)
      simp [nonzero]

/-- A text over the dictionary: its leading ones, and the digits behind them. -/
theorem dictionary_text (s : Bytes) (inside : ∀ c ∈ s, c ∈ kBase58Dictionary) :
    ∃ digits : List Nat, (∀ d ∈ digits, d < 58) ∧ digits.head? ≠ some 0 ∧
      s = List.replicate (leading (dictionaryAt 0) s) (dictionaryAt 0) ++
        digits.map dictionaryAt ∧
      s.drop (leading (dictionaryAt 0) s) = digits.map dictionaryAt := by
  obtain ⟨split, solid⟩ := leading_split (dictionaryAt 0) s
  obtain ⟨digits, bound, same⟩ := digits_of_text (s.drop (leading (dictionaryAt 0) s))
    fun c there => inside c (List.mem_of_mem_drop there)
  rw [same] at split solid
  refine ⟨digits, bound, ?_, split, same⟩
  intro zero
  rw [List.head?_map, zero] at solid
  exact solid rfl

theorem digits_length (s : Bytes) (digits : List Nat)
    (behind : s.drop (leading (dictionaryAt 0) s) = digits.map dictionaryAt) :
    digits.length = s.length - leading (dictionaryAt 0) s := by
  have length := congrArg List.length behind
  rw [List.length_drop, List.length_map] at length
  exact length.symm

theorem textRoundTrips_iff (room : HasRoom new_size) (s : Bytes)
    (inside : ∀ c ∈ s, c ∈ kBase58Dictionary) :
    TextRoundTrips new_size s ↔
      leading (dictionaryAt 0) s < 2 ^ 31 ∧
        new_size (s.length - leading (dictionaryAt 0) s) ≤ 2 ^ 31 := by
  obtain ⟨digits, bound, solid, split, behind⟩ := dictionary_text s inside
  have decoded := decode_eq room (leading (dictionaryAt 0) s) digits bound solid
  have encoded := encode_eq (List.replicate (leading (dictionaryAt 0) s) 0 ++
    (spelled 256 (numeral 58 digits)).map UInt8.ofNat)
  rw [leading_decoded, number_zeros, number_digits _ (spelled_digits (by decide) _),
    numeral_spelled, spelled_digits_self digits bound solid, one_eq, ← split] at encoded
  rw [← split, digits_length s digits behind] at decoded
  constructor
  · rintro ⟨count, b, returned, same⟩
    rw [decoded] at returned
    split at returned
    · cases returned
      rw [encoded] at same
      split at same
      · exact ⟨by assumption, by assumption⟩
      · cases same
    · cases returned
  · rintro ⟨few, fits⟩
    rw [if_pos fits] at decoded
    rw [if_pos few] at encoded
    exact ⟨_, _, decoded, encoded⟩

/-- A byte string comes back with its length only where it is all zeros; a text comes back as long
as the counts and the decoder's buffer fit an `int`. -/
theorem base58_bijective_iff (room : HasRoom new_size) (b s : Bytes)
    (inside : ∀ c ∈ s, c ∈ kBase58Dictionary) :
    (RoundTrips new_size b ↔ b = List.replicate b.length 0 ∧ b.length < 2 ^ 31) ∧
      (TextRoundTrips new_size s ↔
        leading (dictionaryAt 0) s < 2 ^ 31 ∧
          new_size (s.length - leading (dictionaryAt 0) s) ≤ 2 ^ 31) :=
  ⟨roundTrips_iff room b, textRoundTrips_iff room s inside⟩

/-- 733/1000 for `log2(58.0) / 8`. -/
def workSize (left : Nat) : Nat := left * 733 / 1000 + 2

theorem workSize_room : HasRoom workSize := by
  refine ⟨rfl, fun left _ => ?_⟩
  have blocks : 58 ^ left ≤ 256 ^ (left * 733 / 1000 + 1) :=
    pow_le_of_blocks (by decide) (by decide +kernel) (by decide +kernel) left
  calc 128 * 58 ^ left ≤ 256 * 256 ^ (left * 733 / 1000 + 1) :=
        Nat.mul_le_mul (by decide) blocks
    _ = 256 ^ workSize left := (pow_succ' 256 _).symm

/-- `11A` and two zero bytes. -/
theorem base58_bijective_iff_applies :
    (RoundTrips workSize [0, 0] ↔
        [(0 : UInt8), 0] = List.replicate [(0 : UInt8), 0].length 0 ∧
          [(0 : UInt8), 0].length < 2 ^ 31) ∧
      (TextRoundTrips workSize ("11A".toList.map Char.toUInt8) ↔
        leading (dictionaryAt 0) ("11A".toList.map Char.toUInt8) < 2 ^ 31 ∧
          workSize (("11A".toList.map Char.toUInt8).length -
            leading (dictionaryAt 0) ("11A".toList.map Char.toUInt8)) ≤ 2 ^ 31) :=
  base58_bijective_iff workSize_room _ _ fun c there => List.contains_iff_mem.mp
    (List.all_eq_true.mp (by decide +kernel :
      ("11A".toList.map Char.toUInt8).all (kBase58Dictionary.contains ·) = true) c there)

/-- `Decode` gives the byte back and returns 0. -/
theorem one_byte_not_counted :
    Base58.encode [1] = some ['2'.toUInt8] ∧
      Base58.decode workSize ['2'.toUInt8] = some (0, [1]) ∧ ¬ RoundTrips workSize [1] := by
  have encoded : Base58.encode [1] = some ['2'.toUInt8] := by decide +kernel
  have decoded : Base58.decode workSize ['2'.toUInt8] = some (0, [1]) := by decide +kernel
  refine ⟨encoded, decoded, ?_⟩
  rintro ⟨s, count, again, read, same⟩
  obtain rfl := Option.some.inj (encoded.symm.trans again)
  obtain rfl := (Prod.mk.inj (Option.some.inj (decoded.symm.trans read))).1
  cases same

/-! The old decoder. -/

theorem decode_old_eq (ones : Nat) (digits : List Nat) (bound : ∀ d ∈ digits, d < 58)
    (solid : digits.head? ≠ some 0) :
    Base58.decode_old (List.replicate ones (dictionaryAt 0) ++ digits.map dictionaryAt) =
      if (spelled 256 (numeral 58 digits)).length < 2 ^ 31 then
        some (Int32.ofNat (ones + (spelled 256 (numeral 58 digits)).length),
          List.replicate ones 0 ++ (spelled 256 (numeral 58 digits)).map UInt8.ofNat)
      else none := by
  have entries := mapM_digits Base58.trimmedDigit id trimmedDigit_dictionaryAt digits bound
  have trimmed : (List.replicate ones (dictionaryAt 0) ++ digits.map dictionaryAt).drop ones =
      digits.map dictionaryAt := by simp
  rw [Base58.decode_old, leading_ones ones digits bound solid, Nat.add_comm ones]
  simp only [trimmed, entries, List.map_id]
  rfl

theorem mapM_none {Entry : Type} (entry : UInt8 → Option Entry) (text : Bytes) (c : UInt8)
    (there : c ∈ text) (unknown : entry c = none) : text.mapM entry = none := by
  induction text with
  | nil => cases there
  | cons d rest ih =>
      rw [List.mapM_cons]
      rcases List.mem_cons.mp there with rfl | behind
      · rw [unknown]
        rfl
      · rw [ih behind]
        cases entry d <;> rfl

theorem mapM_entry {Entry : Type} (entry : UInt8 → Option Entry) (text : Bytes)
    (entries : List Entry) (read : text.mapM entry = some entries) (c : UInt8) (there : c ∈ text)
    (e : Entry) (known : entry c = some e) : e ∈ entries := by
  induction text generalizing entries with
  | nil => cases there
  | cons d rest ih =>
      rw [List.mapM_cons] at read
      obtain ⟨first, first_read, rest_read⟩ := Option.bind_eq_some_iff.mp read
      obtain ⟨others, others_read, same⟩ := Option.bind_eq_some_iff.mp rest_read
      cases same
      rcases List.mem_cons.mp there with rfl | behind
      · rw [known] at first_read
        cases first_read
        exact List.mem_cons_self
      · exact List.mem_cons_of_mem first (ih others others_read behind)

theorem mapM_length {Entry : Type} (entry : UInt8 → Option Entry) (text : Bytes)
    (entries : List Entry) (read : text.mapM entry = some entries) :
    entries.length = text.length := by
  induction text generalizing entries with
  | nil =>
      cases read
      rfl
  | cons d rest ih =>
      rw [List.mapM_cons] at read
      obtain ⟨first, _, rest_read⟩ := Option.bind_eq_some_iff.mp read
      obtain ⟨others, others_read, same⟩ := Option.bind_eq_some_iff.mp rest_read
      cases same
      exact congrArg (· + 1) (ih others others_read)

/-- Digits up to 255 to the base 58. -/
theorem numeral_bytes_lt (digits : List Nat) (bound : ∀ d ∈ digits, d ≤ 255) :
    numeral 58 digits < 128 * 58 ^ digits.length := by
  -- 255 ≤ 57 * 5, so with 5 added the bound of one step is carried by the next
  have step : ∀ value, digits.foldl (fun value digit => value * 58 + digit) value + 5 ≤
      (value + 5) * 58 ^ digits.length := by
    induction digits with
    | nil => simp
    | cons d rest ih =>
        intro value
        have small := bound d List.mem_cons_self
        calc (d :: rest).foldl (fun value digit => value * 58 + digit) value + 5
            ≤ (value * 58 + d + 5) * 58 ^ rest.length :=
              ih (fun e there => bound e (List.mem_cons_of_mem _ there)) (value * 58 + d)
          _ ≤ ((value + 5) * 58) * 58 ^ rest.length := Nat.mul_le_mul_right _ (by omega)
          _ = (value + 5) * 58 ^ (d :: rest).length := by rw [List.length_cons, pow_succ']; ring
  have whole := step 0
  have positive : 0 < 58 ^ digits.length := Nat.pow_pos (by decide)
  show digits.foldl (fun value digit => value * 58 + digit) 0 < _
  omega

theorem numeral_pos (digits : List Nat) (d : Nat) (there : d ∈ digits) (positive : 0 < d) :
    0 < numeral 58 digits := by
  rw [numeral_eq]
  calc 0 < d := positive
    _ ≤ digits.reverse.sum := List.le_sum_of_mem (List.mem_reverse.mpr there)
    _ ≤ Nat.ofDigits 58 digits.reverse := Nat.sum_le_ofDigits _ (by decide)

theorem int32_add_left (a b : Nat) (small : b < 2 ^ 31) (same : Int32.ofNat (a + b) = Int32.ofNat a) :
    b = 0 := by
  have bits := congrArg (fun n : Int32 => n.toUInt32.toNat) same
  simp only [Int32.toUInt32_ofNat', UInt32.toNat_ofNat'] at bits
  omega

/-- The decoders give the same count and the same bytes. -/
def DecodersAgree (new_size : Nat → Nat) (s : Bytes) : Prop :=
  ∃ result, Base58.decode new_size s = some result ∧ Base58.decode_old s = some result

/-- A character outside the dictionary: the old decoder refuses, the new one reads 255. -/
theorem outside_disagree (room : HasRoom new_size) (s : Bytes) (c : UInt8) (there : c ∈ s)
    (outside : c ∉ kBase58Dictionary) : ¬ DecodersAgree new_size s := by
  rintro ⟨result, new, old⟩
  have behind : c ∈ s.drop (leading (dictionaryAt 0) s) := by
    rw [(leading_split (dictionaryAt 0) s).1, List.mem_append] at there
    refine there.resolve_left fun front => outside ?_
    rw [List.eq_of_mem_replicate front]
    exact dictionaryAt_mem 0 (by decide)
  obtain ⟨entry, refused⟩ := outside_dictionary c outside
  -- the old decoder stops at the character: count 0, empty output
  rw [Base58.decode_old, mapM_none _ _ c behind refused] at old
  cases old
  rw [Base58.decode] at new
  split at new
  · cases new
  · rename_i entries read
    -- a byte from 0x80 on has no entry at all, so this one is the -1 that becomes 255
    have minus : tableEntry c = some (-1) := by
      refine entry.resolve_left fun absent => ?_
      rw [mapM_none _ _ c behind absent] at read
      cases read
    split at new
    · rename_i fits
      have bound : ∀ d ∈ entries.map unsigned, d ≤ 255 := by
        intro d member
        obtain ⟨e, _, rfl⟩ := List.mem_map.mp member
        have := Int.emod_lt_of_pos e (by decide : (0 : Int) < 256)
        rw [unsigned]
        omega
      have length : entries.length = s.length - leading (dictionaryAt 0) s :=
        (mapM_length _ _ entries read).trans List.length_drop
      have positive := numeral_pos (entries.map unsigned) 255
        (List.mem_map.mpr ⟨-1, mapM_entry _ _ entries read c behind (-1) minus, rfl⟩) (by decide)
      have held : numeral 58 (entries.map unsigned) <
          256 ^ new_size (s.length - leading (dictionaryAt 0) s) := by
        have small := numeral_bytes_lt _ bound
        rw [List.length_map, length] at small
        exact small.trans_le (room.room _ fits)
      simp only [convert_eq (by decide : 1 < 256) _ _ held] at new
      -- an empty output would be the number 0
      have silent := (List.append_eq_nil_iff.mp (congrArg Prod.snd (Option.some.inj new))).2
      rw [List.map_eq_nil_iff, spelled, List.reverse_eq_nil_iff,
        Nat.digits_eq_nil_iff_eq_zero] at silent
      exact positive.ne' silent
    · cases new

/-- The decoders agree on the texts of ones only: behind these the old one counts the bytes and the
new one does not. -/
theorem decoders_agree_iff (room : HasRoom new_size) (s : Bytes) :
    DecodersAgree new_size s ↔ ∀ c ∈ s, c = '1'.toUInt8 := by
  by_cases inside : ∀ c ∈ s, c ∈ kBase58Dictionary
  · obtain ⟨digits, bound, solid, split, behind⟩ := dictionary_text s inside
    have new := decode_eq room (leading (dictionaryAt 0) s) digits bound solid
    have old := decode_old_eq (leading (dictionaryAt 0) s) digits bound solid
    rw [← split] at new old
    have ones_iff : (∀ c ∈ s, c = '1'.toUInt8) ↔ digits = [] := by
      constructor
      · intro ones
        have rest : ∀ c ∈ digits.map dictionaryAt, c = dictionaryAt 0 := fun c there =>
          (ones c (List.mem_of_mem_drop (behind ▸ there))).trans one_eq
        cases digits with
        | nil => rfl
        | cons d rest_digits =>
            have zero := dictionaryAt_first d (bound d List.mem_cons_self)
              (rest _ List.mem_cons_self)
            exact absurd (congrArg some zero) solid
      · rintro rfl c there
        rw [split, List.map_nil, List.append_nil] at there
        exact (List.eq_of_mem_replicate there).trans one_eq.symm
    rw [ones_iff]
    constructor
    · rintro ⟨result, new_result, old_result⟩
      rw [new] at new_result
      rw [old] at old_result
      split at new_result
      · split at old_result
        · rename_i short
          cases new_result
          -- the counts are equal as 32-bit numbers
          have counts := (Prod.mk.inj (Option.some.inj old_result)).1
          have none_left := int32_add_left _ _ short counts
          rw [List.length_eq_zero_iff, spelled, List.reverse_eq_nil_iff,
            Nat.digits_eq_nil_iff_eq_zero] at none_left
          have again := spelled_digits_self digits bound solid
          rw [none_left] at again
          exact again.symm
        · cases old_result
      · cases new_result
    · rintro rfl
      have fits : new_size ([] : List Nat).length ≤ 2 ^ 31 := by
        rw [List.length_nil, room.empty]
        decide
      rw [if_pos fits] at new
      exact ⟨_, new, old⟩
  · apply iff_of_false
    · push Not at inside
      obtain ⟨c, there, outside⟩ := inside
      exact outside_disagree room s c there outside
    · intro ones
      refine inside fun c there => ?_
      rw [ones c there, one_eq]
      exact dictionaryAt_mem 0 (by decide)

theorem decoders_agree_iff_applies :
    DecodersAgree workSize ("11".toList.map Char.toUInt8) ↔
      ∀ c ∈ "11".toList.map Char.toUInt8, c = '1'.toUInt8 :=
  decoders_agree_iff workSize_room _

/-- `z` is the digit 57, one byte that only the old decoder counts. -/
theorem last_digit_counted_apart :
    Base58.decode workSize ['z'.toUInt8] = some (0, [57]) ∧
      Base58.decode_old ['z'.toUInt8] = some (1, [57]) ∧
        ¬ DecodersAgree workSize ['z'.toUInt8] := by
  have new : Base58.decode workSize ['z'.toUInt8] = some (0, [57]) := by decide +kernel
  have old : Base58.decode_old ['z'.toUInt8] = some (1, [57]) := by decide +kernel
  refine ⟨new, old, ?_⟩
  rintro ⟨result, same, other⟩
  rw [new] at same
  rw [old, ← same] at other
  cases other

end EChainLib.Codec
