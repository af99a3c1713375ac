import Mathlib
import EChainLib.Keys.Signature

/-! What the constructors of `PublicKey` and `PrivateKey`, `PrivateKey::From` and
`PublicKey::IsAddressValid` make of the verdict of `GetKeyElement`. -/

namespace EChainLib.Keys

/-- `GetKeyElement` reads `s` as a key text of this kind. -/
def ReadsAs (keyPrefix : PrivateKeyPrefix) (s : Bytes) : Prop :=
  ∃ e, getKeyElement s = some e ∧ e.keyPrefix = keyPrefix

/-! `PublicKey::PublicKey(const std::string &)`. -/

/-- The value of the enumerator. -/
def PrivateKeyPrefix.value (keyPrefix : PrivateKeyPrefix) : UInt32 := keyPrefix.byte.toUInt32

/-- What the local `prefix` and the member `type_`, which have no initialiser, hold. -/
structure Leftover where
  keyPrefix : UInt32
  type_ : SignatureType

/-- `prefix`, `type_` and `raw_pub_key_` behind the call of `GetKeyElement`. -/
def Leftover.written (left : Leftover) : Option KeyElement → UInt32 × SignatureType × Bytes
  | none => (left.keyPrefix, left.type_, [])
  | some e => (e.keyPrefix.value, e.sign_type, e.raw_data)

/-- The verdict in `valid_` is overwritten by the second assignment. -/
def PublicKey.ofBase16 (left : Leftover) (base16_pub_key : Bytes) : PublicKey :=
  let (keyPrefix, type_, raw_pub_key_) := left.written (getKeyElement base16_pub_key)
  { raw_pub_key_, valid_ := keyPrefix = PrivateKeyPrefix.publicKey.value, type_ }

theorem value_inj (a b : PrivateKeyPrefix) : a.value = b.value ↔ a = b := by
  cases a <;> cases b <;> decide

theorem readsAs_none (keyPrefix : PrivateKeyPrefix) (s : Bytes) (refused : getKeyElement s = none) :
    ¬ ReadsAs keyPrefix s := by
  rintro ⟨e, read, _⟩
  rw [refused] at read
  cases read

theorem readsAs_some (keyPrefix : PrivateKeyPrefix) (s : Bytes) (e : KeyElement)
    (read : getKeyElement s = some e) : ReadsAs keyPrefix s ↔ e.keyPrefix = keyPrefix := by
  constructor
  · rintro ⟨e', read', same⟩
    rw [read] at read'
    cases read'
    exact same
  · exact fun same => ⟨e, read, same⟩

/-- The texts `GetKeyElement` reads. -/
theorem getKeyElement_iff (s : Bytes) (e : KeyElement) :
    getKeyElement s = some e ↔ hexStringToBin s false = e.bytes := by
  constructor
  · exact fun read => (bytes_of_keyElement _ e read).symm
  · intro same
    rw [getKeyElement, same, keyElement_bytes]

/-- A key is valid exactly if its text was read as a public key, unless the text was
refused and the local happens to hold the prefix of a public key. -/
theorem public_key_valid_iff (left : Leftover) (s : Bytes) :
    ((PublicKey.ofBase16 left s).valid_ = true ↔ ReadsAs .publicKey s) ↔
      (∃ e : KeyElement, hexStringToBin s false = e.bytes) ∨
        left.keyPrefix ≠ PrivateKeyPrefix.publicKey.value := by
  simp only [← getKeyElement_iff]
  cases read : getKeyElement s with
  | none =>
      have unread := readsAs_none .publicKey s read
      have kept : (PublicKey.ofBase16 left s).valid_ = true ↔
          left.keyPrefix = PrivateKeyPrefix.publicKey.value := by
        simp [PublicKey.ofBase16, read, Leftover.written]
      rw [kept]
      simp [unread]
  | some e =>
      have kept : (PublicKey.ofBase16 left s).valid_ = true ↔ e.keyPrefix = .publicKey := by
        simp [PublicKey.ofBase16, read, Leftover.written, value_inj]
      rw [kept, readsAs_some _ s e read]
      simp

/-- The empty text, where the local holds `0xEB`. -/
theorem empty_text_valid :
    ¬ ∀ (left : Leftover) (s : Bytes),
      (PublicKey.ofBase16 left s).valid_ = true ↔ ReadsAs .publicKey s := by
  intro always
  have read := (always ⟨0xEB, .none⟩ []).mp (by decide)
  exact readsAs_none .publicKey [] (by decide) read

/-! `PrivateKey::From` and `PrivateKey::PrivateKey(const std::string &)`. -/

section Imports

variable (lib : CryptoLib)

/-- The constructor; `valid` and `type` are what the members hold before `From`. -/
def PrivateKey.ofBase16 (valid : Bool) (type : SignatureType) (base58_private_key : Bytes) :
    PrivateKey :=
  (PrivateKey.fromBase16 lib (unset valid type) base58_private_key).2

/-- A refused text leaves an invalid object that holds the key it held. -/
def RejectedSafely (key : PrivateKey) (s : Bytes) : Prop :=
  (PrivateKey.fromBase16 lib key s).1 = false →
    (PrivateKey.fromBase16 lib key s).2.valid_ = false ∧
      (PrivateKey.fromBase16 lib key s).2.raw_priv_key_ = key.raw_priv_key_ ∧
      (PrivateKey.fromBase16 lib key s).2.type_ = key.type_ ∧
      (PrivateKey.fromBase16 lib key s).2.pub_key_ = key.pub_key_

/-- The constructed key is valid exactly if the text was read as a private key. -/
def ConstructedTruly (s : Bytes) : Prop :=
  ∀ (valid : Bool) (type : SignatureType),
    (PrivateKey.ofBase16 lib valid type s).valid_ = true ↔ ReadsAs .privateKey s

/-- `s` is a well-formed text of a public key or of an address. -/
def OtherKind (s : Bytes) : Prop :=
  ∃ e : KeyElement, hexStringToBin s false = e.bytes ∧ e.keyPrefix ≠ .privateKey

theorem fromBase16_refused (key : PrivateKey) (s : Bytes) (refused : getKeyElement s = none) :
    PrivateKey.fromBase16 lib key s = (false, { key with valid_ := false }) := by
  rw [PrivateKey.fromBase16, refused]

theorem fromBase16_other (key : PrivateKey) (s : Bytes) (e : KeyElement)
    (read : getKeyElement s = some e) (other : e.keyPrefix ≠ .privateKey) :
    PrivateKey.fromBase16 lib key s =
      (false, { key with valid_ := true, type_ := e.sign_type, raw_priv_key_ := e.raw_data }) := by
  simp [PrivateKey.fromBase16, read, other]

/-- The three ways through `From`. -/
theorem import_cases (s : Bytes) :
    getKeyElement s = none ∨
      (∃ e, getKeyElement s = some e ∧ e.keyPrefix ≠ .privateKey) ∨
      ∃ e, getKeyElement s = some e ∧ e.keyPrefix = .privateKey := by
  cases read : getKeyElement s with
  | none => exact Or.inl rfl
  | some e =>
      by_cases own : e.keyPrefix = .privateKey
      · exact Or.inr (Or.inr ⟨e, rfl, own⟩)
      · exact Or.inr (Or.inl ⟨e, rfl, own⟩)

theorem otherKind_iff (s : Bytes) (e : KeyElement) (read : getKeyElement s = some e) :
    OtherKind s ↔ e.keyPrefix ≠ .privateKey := by
  constructor
  · rintro ⟨e', same, other⟩
    rw [(getKeyElement_iff s e').mpr same] at read
    cases read
    exact other
  · exact fun other => ⟨e, (getKeyElement_iff s e).mp read, other⟩

theorem otherKind_none (s : Bytes) (refused : getKeyElement s = none) : ¬ OtherKind s := by
  rintro ⟨e, same, _⟩
  rw [(getKeyElement_iff s e).mpr same] at refused
  cases refused

/-- Both promises hold unless the text is a well-formed key text of another kind. -/
theorem rejected_import_safe_iff (key : PrivateKey) (s : Bytes) :
    (RejectedSafely lib key s ↔ ¬ OtherKind s) ∧ (ConstructedTruly lib s ↔ ¬ OtherKind s) := by
  rcases import_cases s with refused | ⟨e, read, other⟩ | ⟨e, read, own⟩
  · have unread := otherKind_none s refused
    constructor
    · refine iff_of_true ?_ unread
      intro _
      rw [fromBase16_refused lib key s refused]
      exact ⟨rfl, rfl, rfl, rfl⟩
    · refine iff_of_true ?_ unread
      intro valid type
      rw [PrivateKey.ofBase16, fromBase16_refused lib _ s refused]
      simp [readsAs_none .privateKey s refused]
  · -- valid_ and the fields that GetKeyElement has written are not taken back
    have kind := (otherKind_iff s e read).mpr other
    constructor
    · refine iff_of_false ?_ (not_not_intro kind)
      intro safe
      have left := fromBase16_other lib key s e read other
      have invalid := (safe (congrArg Prod.fst left)).1
      rw [left] at invalid
      cases invalid
    · refine iff_of_false ?_ (not_not_intro kind)
      intro truly
      have valid : (PrivateKey.ofBase16 lib false .none s).valid_ = true := by
        rw [PrivateKey.ofBase16, fromBase16_other lib _ s e read other]
      exact other ((readsAs_some .privateKey s e read).mp ((truly false .none).mp valid))
  · have kind := (otherKind_iff s e read).not.mpr (not_not_intro own)
    constructor
    · refine iff_of_true ?_ kind
      intro rejected
      rw [fromBase16_accepts lib key s e read own] at rejected
      cases rejected
    · refine iff_of_true ?_ kind
      intro valid type
      rw [PrivateKey.ofBase16, fromBase16_accepts lib _ s e read own,
        readsAs_some .privateKey s e read]
      exact iff_of_true rfl own

/-- The address of an all-zero hash. -/
def zeroAddress : Bytes := base16 .address .ed25519 (List.replicate 20 0)

theorem zeroAddress_read :
    getKeyElement zeroAddress = some ⟨.address, .ed25519, List.replicate 20 0, by decide⟩ := by
  have read := getKeyElement_base16 ⟨.address, .ed25519, List.replicate 20 0, by decide⟩
  rwa [← KeyElement.base16_eq] at read

/-- `From` on an address, on an object that holds an RSA key. -/
theorem address_leaves_valid_key :
    PrivateKey.fromBase16 zeroLib ⟨[0x30, 0x00], true, .rsa, ⟨[0x30, 0x00], true, .rsa⟩⟩
        zeroAddress =
      (false, ⟨List.replicate 20 0, true, .ed25519, ⟨[0x30, 0x00], true, .rsa⟩⟩) ∧
      ¬ RejectedSafely zeroLib ⟨[0x30, 0x00], true, .rsa, ⟨[0x30, 0x00], true, .rsa⟩⟩
        zeroAddress ∧
      ¬ ConstructedTruly zeroLib zeroAddress := by
  have left := fromBase16_other zeroLib ⟨[0x30, 0x00], true, .rsa, ⟨[0x30, 0x00], true, .rsa⟩⟩
    zeroAddress _ zeroAddress_read (by decide)
  refine ⟨left, ?_, ?_⟩
  · intro safe
    have invalid := (safe (congrArg Prod.fst left)).1
    rw [left] at invalid
    cases invalid
  · intro truly
    have valid : (PrivateKey.ofBase16 zeroLib false .none zeroAddress).valid_ = true := by
      rw [PrivateKey.ofBase16, fromBase16_other zeroLib _ _ _ zeroAddress_read (by decide)]
    have own := (readsAs_some .privateKey _ _ zeroAddress_read).mp ((truly false .none).mp valid)
    cases own

end Imports

end EChainLib.Keys
