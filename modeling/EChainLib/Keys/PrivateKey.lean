import Mathlib
import EChainLib.Keys.KeyElement

/-! `PublicKey` and `PrivateKey` of `private_key.cpp`: the three exporters, key
generation and import. Hashes, Ed25519 and the RSA DER coders are the parameter
`CryptoLib`. -/

namespace EChainLib.Keys

abbrev Digest := { hash : Bytes // hash.length = 32 }

/-- What the key code calls: `Sha256` and `Sm3` (32-byte digests), the vendored
`ed25519_publickey`, and OpenSSL, where `none` is a null `RSA*`. -/
structure CryptoLib where
  sha256 : Bytes → Digest
  sm3 : Bytes → Digest
  ed25519_publickey : Bytes → { key : Bytes // key.length = 32 }
  Rsa : Type
  d2i_RSAPrivateKey : Bytes → Option Rsa
  i2d_RSAPrivateKey : Rsa → Bytes
  i2d_RSA_PUBKEY : Rsa → Bytes
  d2i_i2d : ∀ rsa, d2i_RSAPrivateKey (i2d_RSAPrivateKey rsa) = some rsa

structure PublicKey where
  raw_pub_key_ : Bytes
  valid_ : Bool
  type_ : SignatureType

structure PrivateKey where
  raw_priv_key_ : Bytes
  valid_ : Bool
  type_ : SignatureType
  pub_key_ : PublicKey

variable (lib : CryptoLib)

/-- `CalcHash` never reads its argument. -/
def PublicKey.calcHash (key : PublicKey) (_value : Bytes) : Digest :=
  if key.type_ = .cfcasm2 then lib.sm3 key.raw_pub_key_ else lib.sha256 key.raw_pub_key_

def PublicKey.getBase16Address (key : PublicKey) : Bytes :=
  base16 .address key.type_ ((key.calcHash lib key.raw_pub_key_).val.drop 12)

def PublicKey.getBase16PublicKey (key : PublicKey) : Bytes :=
  base16 .publicKey key.type_ key.raw_pub_key_

def PrivateKey.getBase16PrivateKey (key : PrivateKey) : Bytes :=
  base16 .privateKey key.type_ key.raw_priv_key_

def PrivateKey.getBase16PublicKey (key : PrivateKey) : Bytes := key.pub_key_.getBase16PublicKey

def PrivateKey.getBase16Address (key : PrivateKey) : Bytes := key.pub_key_.getBase16Address lib

/-- What the random source and `RSA_generate_key_ex` deliver. -/
structure Generated where
  ed25519_randombytes : { seed : Bytes // seed.length = 32 }
  rsa : lib.Rsa

/-- `PrivateKey::PrivateKey(SignatureType)`. The CFCASM2 branch is commented out
and there is no CFCA branch. -/
def PrivateKey.ofType (generated : Generated lib) (type : SignatureType) : PrivateKey :=
  let (raw_priv_key_, tmp) : Bytes × Bytes :=
    match type with
    | .ed25519 =>
        (generated.ed25519_randombytes.val,
          (lib.ed25519_publickey generated.ed25519_randombytes.val).val)
    | .rsa => (lib.i2d_RSAPrivateKey generated.rsa, lib.i2d_RSA_PUBKEY generated.rsa)
    | _ => ([], [])
  { raw_priv_key_, valid_ := true, type_ := type,
    pub_key_ := { raw_pub_key_ := tmp, valid_ := true, type_ := type } }

/-- The public key `From` computes. `i2d_RSA_PUBKEY` of a null key writes nothing. -/
def publicPart (type : SignatureType) (raw_priv_key_ : Bytes) : Bytes :=
  match type with
  | .ed25519 => (lib.ed25519_publickey raw_priv_key_).val
  | .rsa =>
      match lib.d2i_RSAPrivateKey raw_priv_key_ with
      | some rsa => lib.i2d_RSA_PUBKEY rsa
      | none => []
  | _ => []

/-- `PrivateKey::From`, with the object it leaves. A text with another prefix has
already replaced type and raw key when it is refused. -/
def PrivateKey.fromBase16 (key : PrivateKey) (base16_private_key : Bytes) : Bool × PrivateKey :=
  match getKeyElement base16_private_key with
  | none => (false, { key with valid_ := false })
  | some e =>
      let key := { key with valid_ := true, type_ := e.sign_type, raw_priv_key_ := e.raw_data }
      -- valid_ stays true on this path
      if e.keyPrefix ≠ .privateKey then (false, key)
      else
        let tmp := publicPart lib e.sign_type e.raw_data
        (true, { key with
          pub_key_ := { raw_pub_key_ := tmp, valid_ := true, type_ := e.sign_type } })

/-! The key texts. -/

def KeyElement.outputs (e : KeyElement) : PrivateKeyPrefix × SignatureType × Bytes :=
  (e.keyPrefix, e.sign_type, e.raw_data)

theorem getKeyElement_admitted (keyPrefix : PrivateKeyPrefix) (type : SignatureType) (raw : Bytes)
    (admitted : lengthAdmitted keyPrefix raw.length type = true) :
    (getKeyElement (base16 keyPrefix type raw)).map KeyElement.outputs =
      some (keyPrefix, type, raw) := by
  have read := getKeyElement_base16 ⟨keyPrefix, type, raw, admitted⟩
  rw [← KeyElement.base16_eq] at read
  rw [read]
  rfl

theorem getKeyElement_refused (keyPrefix : PrivateKeyPrefix) (type : SignatureType) (raw : Bytes)
    (refused : lengthAdmitted keyPrefix raw.length type = false) :
    getKeyElement (base16 keyPrefix type raw) = none := by
  rw [getKeyElement, base16, hexStringToBin_binToHexString, keyElement_append _ _ (by simp),
    if_pos rfl]
  simp [keyFields, prefix_ofByte, signatureType_ofByte, refused]

theorem address_length (hash : Digest) : (hash.val.drop 12).length = 20 := by
  simp [hash.property]

theorem address_admitted (type : SignatureType) (supported : type ≠ .none) (hash : Digest) :
    lengthAdmitted .address (hash.val.drop 12).length type = true := by
  rw [address_length]
  cases type <;> first | rfl | exact absurd rfl supported

/-- Every exporter is read back as written, and every text that is read is the
lower-cased spelling of its own fields and their checksum. -/
theorem key_texts_round_trip :
    (∀ key : PublicKey,
      lengthAdmitted .publicKey key.raw_pub_key_.length key.type_ = true →
        (getKeyElement key.getBase16PublicKey).map KeyElement.outputs =
          some (.publicKey, key.type_, key.raw_pub_key_)) ∧
    (∀ key : PrivateKey,
      lengthAdmitted .privateKey key.raw_priv_key_.length key.type_ = true →
        (getKeyElement key.getBase16PrivateKey).map KeyElement.outputs =
          some (.privateKey, key.type_, key.raw_priv_key_)) ∧
    (∀ key : PublicKey, key.type_ ≠ .none →
      ∃ hash : Digest, hash = key.calcHash lib key.raw_pub_key_ ∧
        (getKeyElement (key.getBase16Address lib)).map KeyElement.outputs =
          some (.address, key.type_, hash.val.drop (32 - 20))) ∧
    (∀ s : Bytes, ∀ e : KeyElement, getKeyElement s = some e →
      binToHexString (e.keyPrefix.byte :: e.sign_type.byte :: e.raw_data ++
        [crc8 (e.keyPrefix.byte :: e.sign_type.byte :: e.raw_data)]) = s.map lowerCase) := by
  refine ⟨?_, ?_, ?_, ?_⟩
  · intro key admitted
    exact getKeyElement_admitted .publicKey key.type_ key.raw_pub_key_ admitted
  · intro key admitted
    exact getKeyElement_admitted .privateKey key.type_ key.raw_priv_key_ admitted
  · intro key supported
    exact ⟨_, rfl, getKeyElement_admitted .address key.type_ _ (address_admitted _ supported _)⟩
  · intro s e accepted
    exact base16_of_getKeyElement s e accepted

/-! Export and import. -/

/-- The exported texts are read with their prefix and the key's type, and `From`
on the private key text rebuilds the key, whatever object it is called on. -/
structure Reimportable (key : PrivateKey) : Prop where
  private_read : (getKeyElement key.getBase16PrivateKey).map
    (fun e => (e.keyPrefix, e.sign_type)) = some (.privateKey, key.type_)
  public_read : (getKeyElement key.getBase16PublicKey).map
    (fun e => (e.keyPrefix, e.sign_type)) = some (.publicKey, key.type_)
  address_read : (getKeyElement (key.getBase16Address lib)).map
    (fun e => (e.keyPrefix, e.sign_type)) = some (.address, key.type_)
  rebuilt : ∀ old : PrivateKey, ∃ again : PrivateKey,
    PrivateKey.fromBase16 lib old key.getBase16PrivateKey = (true, again) ∧
      again.raw_priv_key_ = key.raw_priv_key_ ∧
      again.pub_key_.raw_pub_key_ = key.pub_key_.raw_pub_key_ ∧
      again.getBase16PublicKey = key.getBase16PublicKey ∧
      again.getBase16Address lib = key.getBase16Address lib

/-- The public half is the one `From` computes from the private half. -/
structure Derived (key : PrivateKey) : Prop where
  same_type : key.pub_key_.type_ = key.type_
  same_public : key.pub_key_.raw_pub_key_ = publicPart lib key.type_ key.raw_priv_key_
  supported : key.type_ ≠ .none
  admitted : key.type_ ≠ .cfcasm2 →
    lengthAdmitted .privateKey key.raw_priv_key_.length key.type_ = true

theorem read_kind (keyPrefix : PrivateKeyPrefix) (type : SignatureType) (raw : Bytes)
    (admitted : lengthAdmitted keyPrefix raw.length type = true) :
    (getKeyElement (base16 keyPrefix type raw)).map (fun e => (e.keyPrefix, e.sign_type)) =
      some (keyPrefix, type) := by
  have read := congrArg (Option.map fun outputs => (outputs.1, outputs.2.1))
    (getKeyElement_admitted keyPrefix type raw admitted)
  simpa [Option.map_map, Function.comp_def, KeyElement.outputs] using read

theorem publicPart_admitted (type : SignatureType) (raw : Bytes) (supported : type ≠ .none)
    (generated : type ≠ .cfcasm2) :
    lengthAdmitted .publicKey (publicPart lib type raw).length type = true := by
  cases type with
  | none => exact absurd rfl supported
  | ed25519 => simp [lengthAdmitted, publicPart, ed25519KeyLength,
      (lib.ed25519_publickey raw).property]
  | cfcasm2 => exact absurd rfl generated
  | rsa => rfl
  | cfca => rfl

theorem fromBase16_accepts (old : PrivateKey) (s : Bytes) (e : KeyElement)
    (found : getKeyElement s = some e) (same : e.keyPrefix = .privateKey) :
    PrivateKey.fromBase16 lib old s =
      (true, ⟨e.raw_data, true, e.sign_type,
        ⟨publicPart lib e.sign_type e.raw_data, true, e.sign_type⟩⟩) := by
  simp [PrivateKey.fromBase16, found, same]

theorem reimportable_iff (key : PrivateKey) (derived : Derived lib key) :
    Reimportable lib key ↔ key.type_ ≠ .cfcasm2 := by
  obtain ⟨same_type, same_public, supported, admitted⟩ := derived
  constructor
  · -- the empty public key does not have the length SM2_PUBLICKEY_LENGTH asks for
    intro reimportable sm2
    have refused : getKeyElement key.getBase16PublicKey = none := by
      refine getKeyElement_refused .publicKey key.pub_key_.type_ key.pub_key_.raw_pub_key_ ?_
      rw [same_public, same_type, sm2]
      rfl
    have read := reimportable.public_read
    rw [refused] at read
    cases read
  · intro generated
    have ok := admitted generated
    refine ⟨read_kind .privateKey key.type_ _ ok, ?_, ?_, ?_⟩
    · rw [← same_type]
      refine read_kind .publicKey key.pub_key_.type_ _ ?_
      rw [same_public, same_type]
      exact publicPart_admitted lib key.type_ _ supported generated
    · rw [← same_type]
      exact read_kind .address key.pub_key_.type_ _ (address_admitted _ (same_type ▸ supported) _)
    · intro old
      have read := getKeyElement_base16 ⟨.privateKey, key.type_, key.raw_priv_key_, ok⟩
      refine ⟨_, fromBase16_accepts lib old _ _ read rfl, rfl, same_public.symm, ?_, ?_⟩
      · simp [PrivateKey.getBase16PublicKey, PublicKey.getBase16PublicKey, same_public, same_type]
      · simp [PrivateKey.getBase16Address, PublicKey.getBase16Address, PublicKey.calcHash,
          same_public, same_type]

theorem ofType_derived (generated : Generated lib) (type : SignatureType)
    (supported : type ≠ .none) : Derived lib (PrivateKey.ofType lib generated type) := by
  cases type with
  | none => exact absurd rfl supported
  | ed25519 =>
      refine ⟨rfl, rfl, supported, fun _ => ?_⟩
      simp [PrivateKey.ofType, lengthAdmitted, ed25519KeyLength,
        generated.ed25519_randombytes.property]
  | cfcasm2 => exact ⟨rfl, rfl, supported, fun generated => absurd rfl generated⟩
  | rsa =>
      refine ⟨rfl, ?_, supported, fun _ => rfl⟩
      simp [PrivateKey.ofType, publicPart, lib.d2i_i2d]
  | cfca => exact ⟨rfl, rfl, supported, fun _ => rfl⟩

theorem fromBase16_derived (old : PrivateKey) (s : Bytes)
    (accepted : (PrivateKey.fromBase16 lib old s).1 = true) :
    ∃ e, getKeyElement s = some e ∧
      (PrivateKey.fromBase16 lib old s).2.type_ = e.sign_type ∧
      Derived lib (PrivateKey.fromBase16 lib old s).2 := by
  cases found : getKeyElement s with
  | none => simp [PrivateKey.fromBase16, found] at accepted
  | some e =>
      have same : e.keyPrefix = .privateKey := by
        by_contra other
        simp [PrivateKey.fromBase16, found, other] at accepted
      have ok := e.admitted
      rw [same] at ok
      refine ⟨e, rfl, ?_, ?_⟩ <;> rw [fromBase16_accepts lib old s e found same]
      refine ⟨rfl, rfl, ?_, fun _ => ok⟩
      intro unsupported
      simp only at unsupported
      rw [unsupported] at ok
      cases ok

/-- The two digits of a key text that spell its type byte. -/
def typeDigits (s : Bytes) : Bytes := (s.drop 2).take 2

theorem lowerCase_decimal (digit decimal : UInt8) (small : decimal < 'A'.toUInt8)
    (same : lowerCase digit = decimal) : digit = decimal := by
  unfold lowerCase at same
  split_ifs at same with upper
  · have shifted : (digit + 32).toNat = digit.toNat + 32 := by
      have bound : digit.toNat ≤ 90 := UInt8.le_iff_toNat_le.mp upper.2
      rw [UInt8.toNat_add]
      exact Nat.mod_eq_of_lt (show digit.toNat + 32 < 256 by omega)
    have low : decimal.toNat < 65 := UInt8.lt_iff_toNat_lt.mp small
    have high : 65 ≤ digit.toNat := UInt8.le_iff_toNat_le.mp upper.1
    rw [← same, shifted] at low
    omega
  · exact same

theorem typeDigits_spelled (s : Bytes) (e : KeyElement) (accepted : getKeyElement s = some e) :
    typeDigits s = [0x30, 0x30 + e.sign_type.byte] := by
  have spelled : ((s.map lowerCase).drop 2).take 2 = [0x30, 0x30 + e.sign_type.byte] := by
    have pair : hexPair e.sign_type.byte = (0x30, 0x30 + e.sign_type.byte) := by
      cases e.sign_type <;> decide
    rw [← base16_of_getKeyElement s e accepted, binToHexString, KeyElement.bytes, KeyElement.body]
    simp [pair]
  rw [← List.map_drop, ← List.map_take] at spelled
  obtain ⟨first, rest, split, first_same, rest_same⟩ := List.map_eq_cons_iff.mp spelled
  obtain ⟨second, none_left, rfl, second_same, empty⟩ := List.map_eq_cons_iff.mp rest_same
  obtain rfl : none_left = [] := by simpa using empty
  have small : (0x30 + e.sign_type.byte : UInt8) < 'A'.toUInt8 := by
    cases e.sign_type <;> decide
  rw [typeDigits, split, lowerCase_decimal first _ (by decide) first_same,
    lowerCase_decimal second _ small second_same]

theorem typeDigits_sm2 (s : Bytes) (e : KeyElement) (accepted : getKeyElement s = some e) :
    typeDigits s = [0x30, 0x32] ↔ e.sign_type = .cfcasm2 := by
  rw [typeDigits_spelled s e accepted]
  cases e.sign_type <;> decide

/-- Imported and generated keys can be imported again exactly when their type is
not CFCASM2, whose public key is never computed. -/
theorem reimportable_unless_sm2 :
    (∀ old : PrivateKey, ∀ s : Bytes, (PrivateKey.fromBase16 lib old s).1 = true →
      (Reimportable lib (PrivateKey.fromBase16 lib old s).2 ↔ typeDigits s ≠ [0x30, 0x32])) ∧
    (∀ generated : Generated lib, ∀ type : SignatureType, type ≠ .none →
      (Reimportable lib (PrivateKey.ofType lib generated type) ↔ type ≠ .cfcasm2)) := by
  constructor
  · intro old s accepted
    obtain ⟨e, found, same_type, derived⟩ := fromBase16_derived lib old s accepted
    rw [reimportable_iff lib _ derived, same_type, ne_eq, ne_eq, typeDigits_sm2 s e found]
  · intro generated type supported
    exact reimportable_iff lib _ (ofType_derived lib generated type supported)

/-- A library whose keys are all zero; its RSA coders know one key. -/
def zeroLib : CryptoLib where
  sha256 := fun _ => ⟨List.replicate 32 0, by decide⟩
  sm3 := fun _ => ⟨List.replicate 32 0, by decide⟩
  ed25519_publickey := fun _ => ⟨List.replicate 32 0, by decide⟩
  Rsa := Unit
  d2i_RSAPrivateKey := fun der => if der.take 2 = [0x30, 0x00] then some () else none
  i2d_RSAPrivateKey := fun _ => [0x30, 0x00]
  i2d_RSA_PUBKEY := fun _ => [0x30, 0x00]
  d2i_i2d := by decide

theorem sm2_key_not_reimportable :
    (PrivateKey.fromBase16 zeroLib ⟨[], false, .none, ⟨[], false, .rsa⟩⟩
        (base16 .privateKey .cfcasm2 (List.replicate 32 0x07))).1 = true ∧
      ¬ Reimportable zeroLib (PrivateKey.fromBase16 zeroLib ⟨[], false, .none, ⟨[], false, .rsa⟩⟩
        (base16 .privateKey .cfcasm2 (List.replicate 32 0x07))).2 := by
  have read := getKeyElement_base16 ⟨.privateKey, .cfcasm2, List.replicate 32 0x07, by decide⟩
  rw [← KeyElement.base16_eq] at read
  rw [fromBase16_accepts zeroLib _ _ _ read rfl]
  refine ⟨rfl, fun reimportable => ?_⟩
  have derived : Derived zeroLib ⟨List.replicate 32 0x07, true, .cfcasm2, ⟨[], true, .cfcasm2⟩⟩ :=
    ⟨rfl, rfl, by decide, fun other => absurd rfl other⟩
  exact (reimportable_iff zeroLib _ derived).mp reimportable rfl

end EChainLib.Keys
