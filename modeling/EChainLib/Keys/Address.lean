import Mathlib
import EChainLib.Keys.Import

/-! `PublicKey::IsAddressValid`, beside the branch of `GetKeyElement` for addresses.
It does not look at the type byte. -/

namespace EChainLib.Keys

def PublicKey.isAddressValid (address_base16 : Bytes) : Bool :=
  let address := hexStringToBin address_base16 true
  if address.length ≠ 23 then false
  else if address.getD 0 0 ≠ PrivateKeyPrefix.address.byte then false
  else if crc8 (address.take (address.length - 1)) ≠ address.getLastD 0 then false
  else true

def lowerDigits : Bytes := "0123456789abcdef".toList.map Char.toUInt8

/-- The byte `GetKeyElement` takes for the signature type. -/
def typeByte (s : Bytes) : UInt8 := (hexStringToBin s false).getD 1 0

/-- The types an address can have. -/
def KnownType (byte : UInt8) : Prop := byte = 1 ∨ byte = 2 ∨ byte = 3 ∨ byte = 4

/-- The other two checks on an address of 23 bytes. -/
structure Framed (s : Bytes) : Prop where
  first : (hexStringToBin s false).getD 0 0 = PrivateKeyPrefix.address.byte
  sum : crc8 ((hexStringToBin s false).dropLast) = (hexStringToBin s false).getLastD 0

/-! The two decoders. -/

theorem hexValue_little (digit : UInt8) : digit ∈ lowerDigits →
    hexValue true digit = hexValue false digit := by
  refine byte_cases (fun digit => digit ∈ lowerDigits →
    hexValue true digit = hexValue false digit) ?_ digit
  decide +kernel

theorem hexPair_little (item : UInt8) :
    (hexPair item).1 ∈ lowerDigits ∧ (hexPair item).2 ∈ lowerDigits := by
  refine byte_cases (fun item => (hexPair item).1 ∈ lowerDigits ∧
    (hexPair item).2 ∈ lowerDigits) ?_ item
  decide +kernel

/-- Without capitals `force_little` makes no difference. -/
theorem hexStringToBin_little (s : Bytes) (lower : ∀ c ∈ s, c ∈ lowerDigits) :
    hexStringToBin s true = hexStringToBin s false := by
  have decoded : DigitPairs.decode (hexByte true) s = DigitPairs.decode (hexByte false) s := by
    apply DigitPairs.decode_congr
    intro high high_there low low_there
    rw [hexByte, hexByte, hexValue_little high (lower high high_there),
      hexValue_little low (lower low low_there)]
  rw [hexStringToBin, hexStringToBin, decoded]

theorem binToHexString_little (value : Bytes) : ∀ c ∈ binToHexString value, c ∈ lowerDigits := by
  intro c there
  rw [binToHexString, DigitPairs.encode] at there
  obtain ⟨item, _, digit⟩ := List.mem_flatMap.mp there
  simp only [List.mem_cons, List.not_mem_nil, or_false] at digit
  rcases digit with rfl | rfl
  · exact (hexPair_little item).1
  · exact (hexPair_little item).2

/-! The two checks. -/

theorem isAddressValid_iff (s : Bytes) (lower : ∀ c ∈ s, c ∈ lowerDigits)
    (size : (hexStringToBin s false).length = 23) :
    PublicKey.isAddressValid s = true ↔ Framed s := by
  have checked : PublicKey.isAddressValid s = true ↔
      (hexStringToBin s false).getD 0 0 = PrivateKeyPrefix.address.byte ∧
        crc8 (hexStringToBin s false).dropLast = (hexStringToBin s false).getLastD 0 := by
    rw [PublicKey.isAddressValid, hexStringToBin_little s lower]
    simp only [← List.dropLast_eq_take]
    rw [if_neg (not_not_intro size)]
    split_ifs with first sum <;> simp_all
  rw [checked]
  exact ⟨fun ⟨first, sum⟩ => ⟨first, sum⟩, fun framed => ⟨framed.first, framed.sum⟩⟩

/-- The table admits the 20 bytes of an address for every type that has a length. -/
theorem keyFields_address (a b : UInt8) (raw_data : Bytes) (size : raw_data.length = 20) :
    (∃ e, keyFields a b raw_data = some e ∧ e.keyPrefix = .address) ↔
      a = PrivateKeyPrefix.address.byte ∧ KnownType b := by
  constructor
  · rintro ⟨e, read, own⟩
    have same := keyFields_some a b raw_data e read
    have admitted := e.admitted
    obtain ⟨rfl, rfl, rfl⟩ : e.keyPrefix.byte = a ∧ e.sign_type.byte = b ∧
        e.raw_data = raw_data := by simpa [KeyElement.body] using same
    refine ⟨by rw [own], ?_⟩
    cases type : e.sign_type with
    | none =>
        rw [type] at admitted
        cases admitted
    | _ => simp [KnownType, SignatureType.byte]
  · rintro ⟨rfl, known⟩
    obtain ⟨type, rfl, admitted⟩ : ∃ type : SignatureType, type.byte = b ∧
        lengthAdmitted .address raw_data.length type = true := by
      rw [size]
      rcases known with rfl | rfl | rfl | rfl
      · exact ⟨.ed25519, rfl, rfl⟩
      · exact ⟨.cfcasm2, rfl, rfl⟩
      · exact ⟨.rsa, rfl, rfl⟩
      · exact ⟨.cfca, rfl, rfl⟩
    exact ⟨_, keyFields_body ⟨.address, type, raw_data, admitted⟩, rfl⟩

theorem readsAs_address_iff (s : Bytes) (size : (hexStringToBin s false).length = 23) :
    ReadsAs .address s ↔ Framed s ∧ KnownType (typeByte s) := by
  obtain ⟨body, checksum, decoded⟩ : ∃ body checksum, hexStringToBin s false = body ++ [checksum] :=
    ⟨_, _, (List.dropLast_concat_getLast (List.ne_nil_of_length_pos (by omega))).symm⟩
  have length : body.length = 22 := by simpa [decoded] using size
  have first : (hexStringToBin s false).getD 0 0 = body.getD 0 0 := by
    rw [decoded, List.getD_append body [checksum] 0 0 (by omega)]
  have second : typeByte s = body.getD 1 0 := by
    rw [typeByte, decoded, List.getD_append body [checksum] 0 1 (by omega)]
  have framed : Framed s ↔
      body.getD 0 0 = PrivateKeyPrefix.address.byte ∧ crc8 body = checksum := by
    constructor
    · rintro ⟨begins, sum⟩
      exact ⟨first ▸ begins, by simpa [decoded] using sum⟩
    · rintro ⟨begins, sum⟩
      exact ⟨first.trans begins, by simpa [decoded] using sum⟩
  rw [ReadsAs, getKeyElement, decoded, keyElement_append body checksum (by omega), framed, second]
  by_cases sum : checksum = crc8 body
  · rw [if_pos sum, keyFields_address _ _ _ (by simp [length])]
    simp [sum]
  · rw [if_neg sum]
    simp [Ne.symm sum]

theorem exported_address_framed (body : Bytes) (size : body.length = 20) (type : UInt8) :
    PublicKey.isAddressValid (binToHexString (PrivateKeyPrefix.address.byte :: type :: body ++
      [crc8 (PrivateKeyPrefix.address.byte :: type :: body)])) = true := by
  have decoded := hexStringToBin_binToHexString (PrivateKeyPrefix.address.byte :: type :: body ++
    [crc8 (PrivateKeyPrefix.address.byte :: type :: body)])
  refine (isAddressValid_iff _ (binToHexString_little _) ?_).mpr ⟨?_, ?_⟩ <;> rw [decoded]
  · simp [size]
  · rfl
  · rw [List.dropLast_concat, List.getLastD_concat]

/-- The two checkers agree on a text of 23 bytes unless all that is wrong with it is the
type byte; and every exported address passes the first. -/
theorem address_checkers_agree_iff (lib : CryptoLib) (s : Bytes)
    (lower : ∀ c ∈ s, c ∈ lowerDigits) (size : (hexStringToBin s false).length = 23) :
    ((PublicKey.isAddressValid s = true ↔ ReadsAs .address s) ↔
        (KnownType (typeByte s) ∨ ¬ Framed s)) ∧
      ∀ key : PublicKey, PublicKey.isAddressValid (key.getBase16Address lib) = true := by
  constructor
  · rw [isAddressValid_iff s lower size, readsAs_address_iff s size]
    tauto
  · intro key
    exact exported_address_framed _ (address_length _) key.type_.byte

theorem address_checkers_agree_iff_applies :
    ((PublicKey.isAddressValid zeroAddress = true ↔ ReadsAs .address zeroAddress) ↔
        (KnownType (typeByte zeroAddress) ∨ ¬ Framed zeroAddress)) ∧
      ∀ key : PublicKey, PublicKey.isAddressValid (key.getBase16Address zeroLib) = true :=
  address_checkers_agree_iff zeroLib zeroAddress (binToHexString_little _) (by
    rw [zeroAddress, base16, hexStringToBin_binToHexString]
    rfl)

/-- An address of type 0. -/
def untypedAddress : Bytes := base16 .address .none (List.replicate 20 0)

theorem untyped_address_valid :
    PublicKey.isAddressValid untypedAddress = true ∧
      ¬ ∀ s : Bytes, (∀ c ∈ s, c ∈ lowerDigits) → (hexStringToBin s false).length = 23 →
        (PublicKey.isAddressValid s = true ↔ ReadsAs .address s) := by
  have valid : PublicKey.isAddressValid untypedAddress = true :=
    exported_address_framed (List.replicate 20 0) rfl 0
  refine ⟨valid, fun always => ?_⟩
  have size : (hexStringToBin untypedAddress false).length = 23 := by
    rw [untypedAddress, base16, hexStringToBin_binToHexString]
    rfl
  exact readsAs_none .address _ (getKeyElement_refused .address .none _ rfl)
    ((always untypedAddress (binToHexString_little _) size).mp valid)

end EChainLib.Keys
