import Mathlib
import EChainLib.Support.DigitPairs
import EChainLib.Support.Checksum

/-! `GetKeyElement` and the texts it reads: `strings.h` (hexadecimal), `crypto.cpp`
(CRC-8/MAXIM) and the length table of `private_key.cpp`. A `std::string` is its
bytes. -/

namespace EChainLib.Keys

abbrev Bytes := List UInt8

instance bytes_lawful : LawfulBEq Bytes := inferInstance

/-! C strings and the texts of literals. -/

/-- What a C function sees of a string. -/
def cString (value : Bytes) : Bytes := value.takeWhile fun byte => byte ≠ 0

theorem cString_of_text (value : Bytes) (clean : (0 : UInt8) ∉ value) : cString value = value := by
  refine List.takeWhile_eq_self_iff.mpr fun byte member => ?_
  simp only [ne_eq, decide_not, Bool.not_eq_eq_eq_not, Bool.not_true, decide_eq_false_iff_not]
  rintro rfl
  exact clean member

theorem cString_clean (value : Bytes) : (0 : UInt8) ∉ cString value := by
  intro member
  have kept := List.mem_takeWhile_imp member
  simp at kept

/-- `isspace`. -/
def isSpace (byte : UInt8) : Bool := byte = ' '.toUInt8 || (0x09 ≤ byte && byte ≤ 0x0d)

/-- The bytes of a literal. -/
def text (literal : String) : Bytes := literal.toUTF8.toList

theorem toList_loop (bytes : ByteArray) (i : Nat) (front : Bytes) :
    ByteArray.toList.loop bytes i front = front.reverse ++ bytes.data.toList.drop i := by
  induction i, front using ByteArray.toList.loop.induct bytes with
  | case1 i front inside ih =>
      have here : i < bytes.data.toList.length := inside
      rw [ByteArray.toList.loop, if_pos inside, ih, List.drop_eq_getElem_cons here,
        List.reverse_cons, List.append_assoc]
      simp [ByteArray.get!, inside]
  | case2 i front past =>
      have beyond : bytes.data.toList.length ≤ i := Nat.le_of_not_lt past
      rw [ByteArray.toList.loop, if_neg past, List.drop_eq_nil_of_le beyond, List.append_nil]

/-- The bytes by the characters: these are found for a literal without the kernel. -/
theorem text_eq (literal : String) :
    text literal = literal.toList.flatMap String.utf8EncodeChar := by
  have bytes : literal.toUTF8.data.toList = literal.toList.flatMap String.utf8EncodeChar := by
    rw [String.toUTF8, ← String.utf8Encode_toList, List.utf8Encode, List.toList_data_toByteArray]
  rw [text, ByteArray.toList, toList_loop, bytes, List.reverse_nil, List.nil_append, List.drop_zero]

theorem text_append (first second : String) : text (first ++ second) = text first ++ text second := by
  simp only [text_eq, String.toList_append, List.flatMap_append]

/-! `utils::String::BinToHexString` and `HexStringToBin`. -/

def hexDigit (nibble : UInt8) : UInt8 :=
  if nibble ≤ 9 then nibble + '0'.toUInt8 else nibble - 10 + 'a'.toUInt8

def hexPair (item : UInt8) : UInt8 × UInt8 := (hexDigit (item >>> 4), hexDigit (item &&& 0x0F))

def binToHexString (value : Bytes) : Bytes := DigitPairs.encode hexPair value

def hexValue (force_little : Bool) (digit : UInt8) : Option UInt8 :=
  if '0'.toUInt8 ≤ digit ∧ digit ≤ '9'.toUInt8 then some (digit - '0'.toUInt8)
  else if 'a'.toUInt8 ≤ digit ∧ digit ≤ 'f'.toUInt8 then some (digit - 'a'.toUInt8 + 10)
  else if 'A'.toUInt8 ≤ digit ∧ digit ≤ 'F'.toUInt8 ∧ !force_little then
    some (digit - 'A'.toUInt8 + 10)
  else none

def hexByte (force_little : Bool) (high low : UInt8) : Option UInt8 :=
  match hexValue force_little high, hexValue force_little low with
  | some high, some low => some ((high <<< 4) + low)
  | _, _ => none

/-- The empty string stands for every text that is refused. -/
def hexStringToBin (hex_string : Bytes) (force_little : Bool) : Bytes :=
  if hex_string.length % 2 ≠ 0 ∨ hex_string = [] then []
  else (DigitPairs.decode (hexByte force_little) hex_string).getD []

def lowerCase (c : UInt8) : UInt8 :=
  if 'A'.toUInt8 ≤ c ∧ c ≤ 'Z'.toUInt8 then c + 32 else c

/-! `utils::Crc8`. -/

def crcBit (crc : UInt8) : UInt8 := if crc &&& 0x01 ≠ 0 then (crc >>> 1) ^^^ 0x8C else crc >>> 1

def crcByte (crc byte : UInt8) : UInt8 := crcBit^[8] (crc ^^^ byte)

/-- `Crc8(uint8_t *ptr, uint16_t len)`. -/
def crc8Loop (ptr : Bytes) (len : UInt16) : UInt8 := (ptr.take len.toNat).foldl crcByte 0

/-- `Crc8(const std::string &data)`: the length is narrowed to 16 bits. -/
def crc8 (data : Bytes) : UInt8 := crc8Loop data (UInt16.ofNat data.length)

/-! `private_key.h`. -/

inductive PrivateKeyPrefix where
  | address
  | publicKey
  | privateKey
  deriving DecidableEq

inductive SignatureType where
  | none
  | ed25519
  | cfcasm2
  | rsa
  | cfca
  deriving DecidableEq

def PrivateKeyPrefix.byte : PrivateKeyPrefix → UInt8
  | .address => 0xea
  | .publicKey => 0xeb
  | .privateKey => 0xec

def SignatureType.byte : SignatureType → UInt8
  | .none => 0
  | .ed25519 => 1
  | .cfcasm2 => 2
  | .rsa => 3
  | .cfca => 4

def PrivateKeyPrefix.ofByte (byte : UInt8) : Option PrivateKeyPrefix :=
  if byte = 0xea then some .address
  else if byte = 0xeb then some .publicKey
  else if byte = 0xec then some .privateKey
  else none

def SignatureType.ofByte (byte : UInt8) : Option SignatureType :=
  if byte = 0 then some .none
  else if byte = 1 then some .ed25519
  else if byte = 2 then some .cfcasm2
  else if byte = 3 then some .rsa
  else if byte = 4 then some .cfca
  else Option.none

def ed25519KeyLength : PrivateKeyPrefix → Nat
  | .address => 20
  | .publicKey => 32
  | .privateKey => 32

def sm2KeyLength : PrivateKeyPrefix → Nat
  | .address => 20
  | .publicKey => 65
  | .privateKey => 32

def lengthAdmitted (keyPrefix : PrivateKeyPrefix) (datalen : Nat) : SignatureType → Bool
  | .ed25519 => ed25519KeyLength keyPrefix == datalen
  | .cfcasm2 => sm2KeyLength keyPrefix == datalen
  | .rsa => true
  | .cfca => true
  | .none => false

/-- What `GetKeyElement` hands out: the length table holds of it. -/
@[ext] structure KeyElement where
  keyPrefix : PrivateKeyPrefix
  sign_type : SignatureType
  raw_data : Bytes
  admitted : lengthAdmitted keyPrefix raw_data.length sign_type = true

/-- The three switches of `GetKeyElement` over prefix and type. -/
def keyFields (a b : UInt8) (raw_data : Bytes) : Option KeyElement :=
  match PrivateKeyPrefix.ofByte a, SignatureType.ofByte b with
  | some keyPrefix, some sign_type =>
      if admitted : lengthAdmitted keyPrefix raw_data.length sign_type = true then
        some { keyPrefix, sign_type, raw_data, admitted }
      else none
  | _, _ => none

/-- `GetKeyElement` once the text is decoded. -/
def keyElement (buff : Bytes) : Option KeyElement :=
  if buff.length < 3 then none
  else if buff.getLastD 0 ≠ crc8Loop buff (UInt16.ofNat (buff.length - 1)) then none
  else keyFields (buff.getD 0 0) (buff.getD 1 0) ((buff.drop 2).take (buff.length - 3))

def getKeyElement (base16_pub_key : Bytes) : Option KeyElement :=
  keyElement (hexStringToBin base16_pub_key false)

/-- The key texts of `GetBase16Address`, `GetBase16PublicKey` and `GetBase16PrivateKey`. -/
def base16 (keyPrefix : PrivateKeyPrefix) (type : SignatureType) (raw : Bytes) : Bytes :=
  let str_result := keyPrefix.byte :: type.byte :: raw
  binToHexString (str_result ++ [crc8 str_result])

/-! The hexadecimal code. -/

theorem byte_cases (property : UInt8 → Prop) (every : ∀ n : Fin 256, property (UInt8.ofFin n))
    (byte : UInt8) : property byte := by
  simpa using every byte.toFin

theorem hexByte_hexPair (item : UInt8) :
    hexByte false (hexPair item).1 (hexPair item).2 = some item := by
  refine byte_cases (fun item => hexByte false (hexPair item).1 (hexPair item).2 = some item) ?_ item
  decide +kernel

/-- The encoder spells the value of a digit as that digit's lower case. -/
theorem hexDigit_hexValue (digit nibble : UInt8) (found : hexValue false digit = some nibble) :
    nibble < 16 ∧ hexDigit nibble = lowerCase digit := by
  have every : (hexValue false digit).all
      (fun nibble => nibble < 16 ∧ hexDigit nibble = lowerCase digit) = true := by
    refine byte_cases (fun digit => (hexValue false digit).all
      (fun nibble => nibble < 16 ∧ hexDigit nibble = lowerCase digit) = true) ?_ digit
    decide +kernel
  simpa [found] using every

theorem hexPair_nibbles (high low : UInt8) (high_small : high < 16) (low_small : low < 16) :
    hexPair ((high <<< 4) + low) = (hexDigit high, hexDigit low) := by
  have nibbles : ∀ h l : Fin 16, hexPair ((UInt8.ofNat h <<< 4) + UInt8.ofNat l) =
      (hexDigit (UInt8.ofNat h), hexDigit (UInt8.ofNat l)) := by decide +kernel
  simpa using nibbles ⟨high.toNat, high_small⟩ ⟨low.toNat, low_small⟩

theorem hexPair_hexByte (high low item : UInt8) (found : hexByte false high low = some item) :
    hexPair item = (lowerCase high, lowerCase low) := by
  unfold hexByte at found
  split at found
  · rename_i h l high_found low_found
    obtain ⟨h_small, h_digit⟩ := hexDigit_hexValue high h high_found
    obtain ⟨l_small, l_digit⟩ := hexDigit_hexValue low l low_found
    obtain rfl : (h <<< 4) + l = item := by simpa using found
    rw [hexPair_nibbles h l h_small l_small, h_digit, l_digit]
  · cases found

def hexCode : DigitPairs.Code UInt8 UInt8 where
  enc := hexPair
  dec := hexByte false
  norm := lowerCase
  dec_enc := hexByte_hexPair
  enc_dec := hexPair_hexByte

theorem hexStringToBin_binToHexString (value : Bytes) :
    hexStringToBin (binToHexString value) false = value := by
  have decoded := DigitPairs.decode_encode hexCode value
  have even := DigitPairs.encode_length hexPair value
  cases value with
  | nil => rfl
  | cons item rest =>
      simp only [hexCode] at decoded
      simp only [hexStringToBin, binToHexString, decoded, even]
      simp

theorem binToHexString_hexStringToBin (hex_string : Bytes)
    (accepted : hexStringToBin hex_string false ≠ []) :
    binToHexString (hexStringToBin hex_string false) = hex_string.map lowerCase := by
  unfold hexStringToBin at accepted ⊢
  split at accepted
  · exact absurd rfl accepted
  · rename_i regular
    rw [if_neg regular]
    cases decoded : DigitPairs.decode (hexByte false) hex_string with
    | none => simp [decoded] at accepted
    | some value => exact DigitPairs.encode_of_decode hexCode hex_string value decoded

/-! The CRC register. -/

def crcUnbit (crc : UInt8) : UInt8 :=
  if crc &&& 0x80 ≠ 0 then ((crc ^^^ 0x8C) <<< 1) ||| 1 else crc <<< 1

theorem crcUnbit_crcBit : Function.LeftInverse crcUnbit crcBit := by
  intro crc
  refine byte_cases (fun crc => crcUnbit (crcBit crc) = crc) ?_ crc
  decide +kernel

theorem crcBits_injective : Function.Injective crcBit^[8] :=
  (crcUnbit_crcBit.injective).iterate 8

theorem crcByte_keeps (byte : UInt8) : Function.Injective (crcByte · byte) := by
  intro crc crc' same
  simpa using crcBits_injective same

theorem crcByte_reads (crc : UInt8) : Function.Injective (crcByte crc) := by
  intro byte byte' same
  simpa using crcBits_injective same

/-- Bytes behind the first `len` do not reach the register. -/
theorem crc8Loop_take (ptr : Bytes) (n : Nat) (len : UInt16) (inside : len.toNat ≤ n) :
    crc8Loop (ptr.take n) len = crc8Loop ptr len := by
  simp [crc8Loop, List.take_take, Nat.min_eq_left inside]

theorem crc8Loop_append (body tail : Bytes) :
    crc8Loop (body ++ tail) (UInt16.ofNat body.length) = crc8 body := by
  have narrowed : (UInt16.ofNat body.length).toNat ≤ body.length := by
    simpa using Nat.mod_le body.length 65536
  rw [crc8, ← crc8Loop_take (body ++ tail) body.length _ narrowed, List.take_left]

/-! What `keyElement` accepts. -/

theorem prefix_ofByte (keyPrefix : PrivateKeyPrefix) :
    PrivateKeyPrefix.ofByte keyPrefix.byte = some keyPrefix := by
  cases keyPrefix <;> rfl

theorem signatureType_ofByte (type : SignatureType) :
    SignatureType.ofByte type.byte = some type := by
  cases type <;> rfl

theorem prefix_byte (byte : UInt8) (keyPrefix : PrivateKeyPrefix)
    (found : PrivateKeyPrefix.ofByte byte = some keyPrefix) : keyPrefix.byte = byte := by
  unfold PrivateKeyPrefix.ofByte at found
  split_ifs at found with address publicKey privateKey <;> cases found <;> simp_all [PrivateKeyPrefix.byte]

theorem signatureType_byte (byte : UInt8) (type : SignatureType)
    (found : SignatureType.ofByte byte = some type) : type.byte = byte := by
  unfold SignatureType.ofByte at found
  split_ifs at found <;> cases found <;> simp_all [SignatureType.byte]

def KeyElement.body (e : KeyElement) : Bytes := e.keyPrefix.byte :: e.sign_type.byte :: e.raw_data

def KeyElement.bytes (e : KeyElement) : Bytes := e.body ++ [crc8 e.body]

theorem KeyElement.base16_eq (e : KeyElement) :
    base16 e.keyPrefix e.sign_type e.raw_data = binToHexString e.bytes := rfl

@[simp] theorem keyFields_body (e : KeyElement) :
    keyFields e.keyPrefix.byte e.sign_type.byte e.raw_data = some e := by
  simp [keyFields, prefix_ofByte, signatureType_ofByte, e.admitted]

theorem keyFields_some (a b : UInt8) (raw_data : Bytes) (e : KeyElement)
    (accepted : keyFields a b raw_data = some e) : e.body = a :: b :: raw_data := by
  unfold keyFields at accepted
  split at accepted
  · rename_i keyPrefix sign_type prefix_found type_found
    split_ifs at accepted with admitted
    obtain rfl := Option.some.inj accepted
    simp [KeyElement.body, prefix_byte a keyPrefix prefix_found,
      signatureType_byte b sign_type type_found]
  · cases accepted

/-- The check on a buffer whose last byte is set apart. -/
theorem keyElement_append (body : Bytes) (checksum : UInt8) (enough : 2 ≤ body.length) :
    keyElement (body ++ [checksum]) =
      if checksum = crc8 body then keyFields (body.getD 0 0) (body.getD 1 0) (body.drop 2)
      else none := by
  have length : (body ++ [checksum]).length = body.length + 1 := by simp
  have long : ¬ (body ++ [checksum]).length < 3 := by omega
  have raw : ((body ++ [checksum]).drop 2).take (body.length + 1 - 3) = body.drop 2 := by
    rw [List.drop_append_of_le_length enough, List.take_left']
    simp
  have first : (body ++ [checksum]).getD 0 0 = body.getD 0 0 :=
    List.getD_append body [checksum] 0 0 (by omega)
  have second : (body ++ [checksum]).getD 1 0 = body.getD 1 0 :=
    List.getD_append body [checksum] 0 1 (by omega)
  rw [keyElement, if_neg long, first, second, length, raw, Nat.add_sub_cancel, crc8Loop_append]
  simp

theorem keyElement_short (buff : Bytes) (short : buff.length < 3) : keyElement buff = none := by
  rw [keyElement, if_pos short]

theorem keyElement_bytes (e : KeyElement) : keyElement e.bytes = some e := by
  rw [KeyElement.bytes, keyElement_append e.body _ (by simp [KeyElement.body]), if_pos rfl]
  exact keyFields_body e

theorem bytes_of_keyElement (buff : Bytes) (e : KeyElement) (accepted : keyElement buff = some e) :
    e.bytes = buff := by
  have enough : 3 ≤ buff.length := by
    by_contra short
    simp [keyElement_short buff (by omega)] at accepted
  obtain ⟨body, checksum, rfl⟩ : ∃ body checksum, buff = body ++ [checksum] :=
    ⟨_, _, (List.dropLast_concat_getLast (List.ne_nil_of_length_pos (by omega))).symm⟩
  have two : 2 ≤ body.length := by simpa using enough
  rw [keyElement_append body checksum two] at accepted
  split_ifs at accepted with sum
  match body, two with
  | first :: second :: raw_data, _ =>
      have same : e.body = first :: second :: raw_data := keyFields_some _ _ _ e accepted
      rw [KeyElement.bytes, same, sum]

theorem getKeyElement_base16 (e : KeyElement) : getKeyElement (binToHexString e.bytes) = some e := by
  rw [getKeyElement, hexStringToBin_binToHexString, keyElement_bytes]

theorem base16_of_getKeyElement (s : Bytes) (e : KeyElement) (accepted : getKeyElement s = some e) :
    binToHexString e.bytes = s.map lowerCase := by
  have decoded := bytes_of_keyElement _ e accepted
  have regular : hexStringToBin s false ≠ [] := by
    rw [← decoded]
    simp [KeyElement.bytes]
  rw [decoded]
  exact binToHexString_hexStringToBin s regular

end EChainLib.Keys
