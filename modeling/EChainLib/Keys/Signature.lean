import Mathlib
import EChainLib.Keys.PrivateKey
import EChainLib.Keys.Cfca

/-! `PrivateKey::Sign` and `PublicKey::Verify`. Each branches on the signature
type by itself; `none` is a read or a `memcpy` past the end of a buffer. -/

namespace EChainLib.Keys

/-- The primitives behind the two functions: the vendored Ed25519, OpenSSL's RSA
(where a refused `RSA_sign` writes no length) and the CFCA library. -/
structure SignatureLib extends CryptoLib where
  sha1 : Bytes → Bytes
  ed25519_sign : Bytes → Bytes → Bytes → { sig : Bytes // sig.length = 64 }
  ed25519_sign_open : Bytes → Bytes → Bytes → Bool
  ed25519_verifies : ∀ m sk, ed25519_sign_open m (ed25519_publickey sk).val
    (ed25519_sign m sk (ed25519_publickey sk).val).val = true
  RsaPublic : Type
  publicHalf : Rsa → RsaPublic
  d2i_RSA_PUBKEY : Bytes → Option RsaPublic
  d2i_i2d_public : ∀ rsa, d2i_RSA_PUBKEY (i2d_RSA_PUBKEY rsa) = some (publicHalf rsa)
  d2i_nothing : d2i_RSA_PUBKEY [] = none
  /-- What stands behind the key is not read. -/
  d2i_behind : ∀ der more rsa, d2i_RSAPrivateKey der = some rsa →
    d2i_RSAPrivateKey (der ++ more) = some rsa
  RSA_size : Rsa → Nat
  RSA_sign : Rsa → Bytes → Option Bytes
  signature_size : ∀ rsa hash sig, RSA_sign rsa hash = some sig → sig.length = RSA_size rsa
  RSA_verify : RsaPublic → Bytes → Bytes → Bool
  rsa_verifies : ∀ rsa hash sig, RSA_sign rsa hash = some sig →
    RSA_verify (publicHalf rsa) hash sig = true
  rsa_refuses_empty : ∀ rsa hash, RSA_verify rsa hash [] = false
  cfca : CfcaLib

/-- `count` bytes read behind `c_str()`, which ends in a NUL. -/
def cBytes (count : Nat) (s : Bytes) : Option Bytes :=
  if count ≤ s.length + 1 then some ((s ++ [0]).take count) else none

/-- What `d2i_RSAPrivateKey` may read of a raw key behind `int key_len = length()`; with a
negative length it finds nothing. -/
def signingPart (raw_priv_key_ : Bytes) : Bytes :=
  raw_priv_key_.take (Int32.ofNat raw_priv_key_.length).toInt.toNat

variable (lib : SignatureLib)

/-- The CFCASM2 branch is commented out and there is no CFCA branch: both leave
`sig_len` at 0. -/
def PrivateKey.sign (key : PrivateKey) (input : Bytes) : Option Bytes :=
  match key.type_ with
  | .ed25519 =>
      match cBytes 32 key.raw_priv_key_, cBytes 32 key.pub_key_.raw_pub_key_ with
      | some sk, some pk => some (lib.ed25519_sign input sk pk).val
      | _, _ => none
  | .rsa =>
      match lib.d2i_RSAPrivateKey (signingPart key.raw_priv_key_) with
      | none => some []
      | some p_rsa =>
          match lib.RSA_sign p_rsa (lib.sha1 input) with
          | none => some []
          -- unsigned char sig[10240]
          | some sig => if sig.length ≤ 10240 then some sig else none
  | _ => some []

def PublicKey.verify (data signature public_key_base16 : Bytes) : Option Bool :=
  match getKeyElement public_key_base16 with
  | none => some false
  | some e =>
      if e.keyPrefix ≠ .publicKey then some false
      else
        match e.sign_type with
        | .ed25519 => (cBytes 64 signature).map (lib.ed25519_sign_open data e.raw_data)
        | .rsa =>
            match lib.d2i_RSA_PUBKEY e.raw_data with
            | none => some false
            | some p_rsa =>
                -- memcpy into unsigned char sign_cstr[256]
                if signature.length ≤ 256 then
                  some (lib.RSA_verify p_rsa (lib.sha1 data) signature)
                else none
        | .cfca => some (cfcaVerify lib.cfca data signature e.raw_data)
        | _ => some false

theorem cBytes_exact (count : Nat) (s : Bytes) (exact_length : s.length = count) :
    cBytes count s = some s := by
  simp [cBytes, ← exact_length]

/-- The key verifies what it signs. -/
def VerifiesOwn (key : PrivateKey) (data : Bytes) : Prop :=
  ∃ signature, key.sign lib data = some signature ∧
    PublicKey.verify lib data signature key.getBase16PublicKey = some true

/-- The key can sign and its signature fits the buffer `Verify` copies it to. -/
def Signable (type : SignatureType) (raw_priv_key_ data : Bytes) : Prop :=
  match type with
  | .ed25519 => True
  | .rsa => ∃ rsa, lib.d2i_RSAPrivateKey (signingPart raw_priv_key_) = some rsa ∧
      lib.RSA_sign rsa (lib.sha1 data) ≠ none ∧ lib.RSA_size rsa ≤ 256
  | _ => False

theorem whole_of_signingPart {raw_priv_key_ : Bytes} {rsa : lib.Rsa}
    (read : lib.d2i_RSAPrivateKey (signingPart raw_priv_key_) = some rsa) :
    lib.d2i_RSAPrivateKey raw_priv_key_ = some rsa := by
  have whole := lib.d2i_behind _ (raw_priv_key_.drop
    (Int32.ofNat raw_priv_key_.length).toInt.toNat) rsa read
  rwa [signingPart, List.take_append_drop] at whole

/-- A key whose length an `int` counts is read whole. -/
theorem signingPart_counted {raw_priv_key_ : Bytes} (counted : raw_priv_key_.length < 2 ^ 31) :
    signingPart raw_priv_key_ = raw_priv_key_ := by
  rw [signingPart, Int32.toInt_ofNat_of_lt counted]
  exact List.take_length

/-- The exported public key is read back with the key's own type and raw key. -/
theorem verify_exported (key : PublicKey) (data signature : Bytes)
    (admitted : lengthAdmitted .publicKey key.raw_pub_key_.length key.type_ = true) :
    PublicKey.verify lib data signature key.getBase16PublicKey =
      match key.type_ with
      | .ed25519 => (cBytes 64 signature).map (lib.ed25519_sign_open data key.raw_pub_key_)
      | .rsa =>
          match lib.d2i_RSA_PUBKEY key.raw_pub_key_ with
          | none => some false
          | some p_rsa =>
              if signature.length ≤ 256 then
                some (lib.RSA_verify p_rsa (lib.sha1 data) signature)
              else none
      | .cfca => some (cfcaVerify lib.cfca data signature key.raw_pub_key_)
      | _ => some false := by
  have read := getKeyElement_base16 ⟨.publicKey, key.type_, key.raw_pub_key_, admitted⟩
  rw [← KeyElement.base16_eq] at read
  rw [PublicKey.verify, PublicKey.getBase16PublicKey, read]
  rfl

theorem verify_refused (key : PublicKey) (data signature : Bytes)
    (refused : lengthAdmitted .publicKey key.raw_pub_key_.length key.type_ = false) :
    PublicKey.verify lib data signature key.getBase16PublicKey = some false := by
  rw [PublicKey.verify, PublicKey.getBase16PublicKey, getKeyElement_refused _ _ _ refused]

section Derived

variable (key : PrivateKey) (data : Bytes) (derived : Derived lib.toCryptoLib key)
include derived

theorem ed25519_verifies_own (ed : key.type_ = .ed25519) : VerifiesOwn lib key data := by
  obtain ⟨same_type, same_public, _, admitted⟩ := derived
  rw [ed] at same_public same_type admitted
  have private_length : key.raw_priv_key_.length = 32 := by
    exact (beq_iff_eq.mp (admitted (by decide))).symm
  have public_raw : key.pub_key_.raw_pub_key_ = (lib.ed25519_publickey key.raw_priv_key_).val :=
    same_public
  have public_length : key.pub_key_.raw_pub_key_.length = 32 := by
    rw [public_raw]
    exact (lib.ed25519_publickey key.raw_priv_key_).property
  refine ⟨(lib.ed25519_sign data key.raw_priv_key_ key.pub_key_.raw_pub_key_).val, ?_, ?_⟩
  · simp [PrivateKey.sign, ed, cBytes_exact 32 _ private_length, cBytes_exact 32 _ public_length]
  · rw [PrivateKey.getBase16PublicKey, verify_exported lib key.pub_key_]
    · simp only [same_type]
      rw [cBytes_exact 64 _ (lib.ed25519_sign data _ _).property, public_raw]
      simp [lib.ed25519_verifies]
    · simp [lengthAdmitted, ed25519KeyLength, same_type, public_length]

theorem sm2_never_verifies (sm2 : key.type_ = .cfcasm2) : ¬ VerifiesOwn lib key data := by
  rintro ⟨signature, _, accepted⟩
  obtain ⟨same_type, same_public, _, _⟩ := derived
  -- the empty public key does not have the length SM2_PUBLICKEY_LENGTH asks for
  rw [PrivateKey.getBase16PublicKey, verify_refused lib key.pub_key_] at accepted
  · exact absurd accepted (by simp)
  · rw [same_public, same_type, sm2]
    rfl

theorem rsa_verifies_own_iff (rsa : key.type_ = .rsa) :
    VerifiesOwn lib key data ↔ Signable lib .rsa key.raw_priv_key_ data := by
  obtain ⟨same_type, same_public, _, _⟩ := derived
  have exported : ∀ signature, PublicKey.verify lib data signature key.getBase16PublicKey =
      match lib.d2i_RSA_PUBKEY key.pub_key_.raw_pub_key_ with
      | none => some false
      | some p_rsa =>
          if signature.length ≤ 256 then some (lib.RSA_verify p_rsa (lib.sha1 data) signature)
          else none := by
    intro signature
    rw [PrivateKey.getBase16PublicKey, verify_exported lib key.pub_key_]
    · rw [same_type, rsa]
    · rw [same_type, rsa]
      rfl
  simp only [VerifiesOwn, exported, Signable]
  rw [same_public, rsa]
  cases read : lib.d2i_RSAPrivateKey (signingPart key.raw_priv_key_) with
  | none =>
      -- nothing is signed
      constructor
      · rintro ⟨signature, made, accepted⟩
        obtain rfl : [] = signature := by simpa [PrivateKey.sign, rsa, read] using made
        cases whole : lib.d2i_RSAPrivateKey key.raw_priv_key_ with
        | none => simp [publicPart, whole, lib.d2i_nothing] at accepted
        | some p_rsa =>
            simp [publicPart, whole, lib.d2i_i2d_public, lib.rsa_refuses_empty] at accepted
      · rintro ⟨_, absurd, _⟩
        cases absurd
  | some p_rsa =>
      simp only [publicPart, whole_of_signingPart lib read, lib.d2i_i2d_public, Option.some.injEq]
      cases signed : lib.RSA_sign p_rsa (lib.sha1 data) with
      | none =>
          constructor
          · rintro ⟨signature, made, accepted⟩
            obtain rfl : [] = signature := by simpa [PrivateKey.sign, rsa, read, signed] using made
            simp [lib.rsa_refuses_empty] at accepted
          · rintro ⟨_, rfl, refused, _⟩
            exact absurd signed refused
      | some sig =>
          have size := lib.signature_size p_rsa _ sig signed
          constructor
          · rintro ⟨signature, made, accepted⟩
            have same : sig.length ≤ 10240 ∧ sig = signature := by
              simpa [PrivateKey.sign, rsa, read, signed] using made
            obtain ⟨_, rfl⟩ := same
            refine ⟨p_rsa, rfl, by simp [signed], ?_⟩
            by_contra large
            rw [if_neg (by omega)] at accepted
            cases accepted
          · rintro ⟨_, rfl, _, small⟩
            refine ⟨sig, ?_, ?_⟩
            · simp [PrivateKey.sign, rsa, read, signed, show sig.length ≤ 10240 by omega]
            · rw [if_pos (by omega), lib.rsa_verifies p_rsa _ sig signed]

theorem derived_verifies_own_iff (imported : key.type_ ≠ .cfca) :
    VerifiesOwn lib key data ↔ Signable lib key.type_ key.raw_priv_key_ data := by
  cases type : key.type_ with
  | none => exact absurd type derived.supported
  | cfca => exact absurd type imported
  | ed25519 => exact ⟨fun _ => trivial, fun _ => ed25519_verifies_own lib key data derived type⟩
  | cfcasm2 => exact ⟨sm2_never_verifies lib key data derived type, False.elim⟩
  | rsa => exact rsa_verifies_own_iff lib key data derived type

end Derived

/-- An object constructed from a text, before `From` runs: `valid_` and `type_`
hold what the memory held. -/
def unset (valid : Bool) (type : SignatureType) : PrivateKey := ⟨[], valid, type, ⟨[], false, .rsa⟩⟩

/-- A text that is read but is no private key leaves the object valid, with the
public key it had. -/
theorem other_text_never_verifies (valid : Bool) (type : SignatureType) (s data : Bytes)
    (e : KeyElement) (found : getKeyElement s = some e) (other : e.keyPrefix ≠ .privateKey) :
    (PrivateKey.fromBase16 lib.toCryptoLib (unset valid type) s).2.valid_ = true ∧
      ¬ VerifiesOwn lib (PrivateKey.fromBase16 lib.toCryptoLib (unset valid type) s).2 data := by
  have left : (PrivateKey.fromBase16 lib.toCryptoLib (unset valid type) s).2 =
      ⟨e.raw_data, true, e.sign_type, ⟨[], false, .rsa⟩⟩ := by
    simp [PrivateKey.fromBase16, found, other, unset]
  rw [left]
  refine ⟨rfl, ?_⟩
  rintro ⟨signature, _, accepted⟩
  rw [PrivateKey.getBase16PublicKey, verify_exported lib _ data signature rfl] at accepted
  simp [lib.d2i_nothing] at accepted

/-- A key the library generated, or imported from a private key text, verifies
what it signs exactly when its raw key can sign; every other text that leaves a
new object valid leaves one that never does. -/
theorem own_signature_verifies_iff :
    (∀ (generated : Generated lib.toCryptoLib) (type : SignatureType) (data : Bytes),
      type ≠ .none → type ≠ .cfca →
        (VerifiesOwn lib (PrivateKey.ofType lib.toCryptoLib generated type) data ↔
          Signable lib type
            (PrivateKey.ofType lib.toCryptoLib generated type).raw_priv_key_ data)) ∧
    (∀ (old : PrivateKey) (s data : Bytes) (e : KeyElement), getKeyElement s = some e →
      e.keyPrefix = .privateKey → e.sign_type ≠ .cfca →
        (VerifiesOwn lib (PrivateKey.fromBase16 lib.toCryptoLib old s).2 data ↔
          Signable lib e.sign_type e.raw_data data)) ∧
    (∀ (valid : Bool) (type : SignatureType) (s data : Bytes) (e : KeyElement),
      getKeyElement s = some e → e.keyPrefix ≠ .privateKey →
        (PrivateKey.fromBase16 lib.toCryptoLib (unset valid type) s).2.valid_ = true ∧
          ¬ VerifiesOwn lib (PrivateKey.fromBase16 lib.toCryptoLib (unset valid type) s).2 data) := by
  refine ⟨?_, ?_, ?_⟩
  · intro generated type data supported imported
    have derived := ofType_derived lib.toCryptoLib generated type supported
    exact derived_verifies_own_iff lib _ data derived imported
  · intro old s data e found own imported
    have accepted := fromBase16_accepts lib.toCryptoLib old s e found own
    obtain ⟨_, _, _, derived⟩ :=
      fromBase16_derived lib.toCryptoLib old s (congrArg Prod.fst accepted)
    rw [accepted] at derived ⊢
    exact derived_verifies_own_iff lib _ data derived imported
  · intro valid type s data e found other
    exact other_text_never_verifies lib valid type s data e found other

/-- Two certificates, one a text; the only signature is of the second. -/
def twoCertificates : CfcaLib where
  handle_ := true
  Certificate := Bool
  certificateOf := fun text =>
    if text = [0x41, 0x41, 0x41, 0x41] then some false
    else if text = [0x42, 0x42, 0x42, 0x42] then some true
    else none
  getCertificateInfo := fun text =>
    if text = [0x41, 0x41, 0x41, 0x41] ∨ text = [0x42, 0x42, 0x42, 0x42] then
      some [0x53, 0x4d, 0x32]
    else none
  info_succeeds := by
    intro text
    split_ifs <;> simp_all
  info_short := by
    intro text info found
    split_ifs at found
    rw [← Option.some.inj found]
    decide
  embedded := fun sig => if sig = [0x43, 0x43, 0x43, 0x43] then some true else none
  ValidUnder := fun _ _ _ _ => True
  verifyDataSignature_PKCS7Detached := fun _ _ _ sig =>
    if sig = [0x43, 0x43, 0x43, 0x43] then some [0x42, 0x42, 0x42, 0x42] else none
  detached_succeeds := by
    intro algorithm source size sig
    split_ifs <;> simp
  detached_returns := by
    intro algorithm source size sig text found
    split_ifs at found with good
    rw [← Option.some.inj found]
    simp [good]

theorem zeroLib_behind (der more : Bytes) (rsa : zeroLib.Rsa)
    (read : zeroLib.d2i_RSAPrivateKey der = some rsa) :
    zeroLib.d2i_RSAPrivateKey (der ++ more) = some rsa := by
  have begins : der.take 2 = [0x30, 0x00] := by
    by_contra other
    cases (if_neg other).symm.trans read
  have long : 2 ≤ der.length := by
    have both := congrArg List.length begins
    rw [List.length_take] at both
    exact min_eq_left_iff.mp both
  show (if (der ++ more).take 2 = [0x30, 0x00] then some () else none) = some rsa
  rw [List.take_append_of_le_length long, if_pos begins]
  rfl

/-- The primitives over the all-zero keys: one RSA key of 1024 bits. -/
def zeroSignatureLib : SignatureLib where
  toCryptoLib := zeroLib
  sha1 := fun _ => List.replicate 20 0
  ed25519_sign := fun _ _ _ => ⟨List.replicate 64 0, by decide⟩
  ed25519_sign_open := fun _ _ sig => sig == List.replicate 64 0
  ed25519_verifies := fun _ _ => by decide
  RsaPublic := Unit
  publicHalf := fun _ => ()
  d2i_RSA_PUBKEY := fun der => if der = [0x30, 0x00] then some () else none
  d2i_i2d_public := fun _ => rfl
  d2i_nothing := rfl
  d2i_behind := zeroLib_behind
  RSA_size := fun _ => 128
  RSA_sign := fun _ _ => some (List.replicate 128 0)
  signature_size := by
    intro rsa hash sig signed
    rw [← Option.some.inj signed]
    decide
  RSA_verify := fun _ _ sig => sig == List.replicate 128 0
  rsa_verifies := by
    intro rsa hash sig signed
    rw [← Option.some.inj signed]
    decide
  rsa_refuses_empty := fun _ _ => rfl
  cfca := twoCertificates

def zeroGenerated : Generated zeroSignatureLib.toCryptoLib where
  ed25519_randombytes := zeroLib.sha256 []
  rsa := ()

theorem generated_sm2_not_verified :
    (PrivateKey.ofType zeroSignatureLib.toCryptoLib zeroGenerated .cfcasm2).valid_ = true ∧
      ¬ VerifiesOwn zeroSignatureLib
        (PrivateKey.ofType zeroSignatureLib.toCryptoLib zeroGenerated .cfcasm2) [0x61] := by
  have derived := ofType_derived zeroSignatureLib.toCryptoLib zeroGenerated .cfcasm2 (by decide)
  exact ⟨rfl, sm2_never_verifies zeroSignatureLib _ [0x61] derived rfl⟩

theorem own_signature_verifies_iff_applies :
    VerifiesOwn zeroSignatureLib
      (PrivateKey.ofType zeroSignatureLib.toCryptoLib zeroGenerated .rsa) [0x61] := by
  apply ((own_signature_verifies_iff zeroSignatureLib).1 zeroGenerated .rsa [0x61] (by decide)
    (by decide)).mpr
  refine ⟨(), ?_, nofun, by decide⟩
  rw [signingPart_counted (by decide)]
  rfl

/-! The CFCA branch. -/

/-- The signature is a good one of a certificate other than the one the key holds. -/
def SignedByAnother (lib : CfcaLib) (data signature publickey : Bytes) : Prop :=
  SignatureGood lib data signature ∧
    signingCertificate lib signature ≠ heldCertificate lib publickey

theorem verify_cfca_iff (data signature text : Bytes) (e : KeyElement)
    (read : getKeyElement text = some e) (cfca : e.sign_type = .cfca) :
    PublicKey.verify lib data signature text = some true ↔
      e.keyPrefix = .publicKey ∧ lib.cfca.handle_ = true ∧ KeyReadable lib.cfca e.raw_data ∧
        SignatureGood lib.cfca data signature := by
  rw [← cfcaVerify_iff, PublicKey.verify, read]
  by_cases own : e.keyPrefix = .publicKey
  · simp [own, cfca]
  · simp [own]

/-- What `Verify` accepts under a CFCA key is its holder's unless a good signature
of another certificate is at hand; and such a signature passes under every key
that can be read. -/
theorem cfca_signer_iff (data signature text : Bytes) (e : KeyElement)
    (read : getKeyElement text = some e) (cfca : e.sign_type = .cfca) :
    ((PublicKey.verify lib data signature text = some true →
        signingCertificate lib.cfca signature = heldCertificate lib.cfca e.raw_data) ↔
      ¬ (e.keyPrefix = .publicKey ∧ lib.cfca.handle_ = true ∧ KeyReadable lib.cfca e.raw_data ∧
        SignedByAnother lib.cfca data signature e.raw_data)) ∧
    ∀ (other : Bytes) (o : KeyElement), getKeyElement other = some o → o.sign_type = .cfca →
      (¬ (PublicKey.verify lib data signature text = some true ∧
          PublicKey.verify lib data signature other = some true) ↔
        ¬ (lib.cfca.handle_ = true ∧ SignatureGood lib.cfca data signature ∧
          (e.keyPrefix = .publicKey ∧ KeyReadable lib.cfca e.raw_data) ∧
          (o.keyPrefix = .publicKey ∧ KeyReadable lib.cfca o.raw_data))) := by
  constructor
  · rw [verify_cfca_iff lib data signature text e read cfca]
    unfold SignedByAnother
    tauto
  · intro other o other_read other_cfca
    rw [verify_cfca_iff lib data signature text e read cfca,
      verify_cfca_iff lib data signature other o other_read other_cfca]
    tauto

/-- A key text that holds the first certificate. -/
def firstKey : Bytes := base16 .publicKey .cfca [0x41, 0x41, 0x41, 0x41]

theorem firstKey_read :
    getKeyElement firstKey = some ⟨.publicKey, .cfca, [0x41, 0x41, 0x41, 0x41], rfl⟩ := by
  have read := getKeyElement_base16 ⟨.publicKey, .cfca, [0x41, 0x41, 0x41, 0x41], rfl⟩
  rwa [← KeyElement.base16_eq] at read

theorem second_signer_accepted_under_first :
    ¬ ∀ (lib : SignatureLib) (data signature text : Bytes) (e : KeyElement),
      getKeyElement text = some e → e.sign_type = .cfca →
        PublicKey.verify lib data signature text = some true →
          signingCertificate lib.cfca signature = heldCertificate lib.cfca e.raw_data := by
  intro always
  have accepted : PublicKey.verify zeroSignatureLib [0x61] [0x43, 0x43, 0x43, 0x43] firstKey =
      some true := by
    rw [PublicKey.verify, firstKey_read]
    decide +kernel
  have same := always zeroSignatureLib [0x61] [0x43, 0x43, 0x43, 0x43] firstKey _ firstKey_read rfl
    accepted
  change (some true : Option Bool) = some false at same
  cases same

theorem cfca_signer_iff_applies :
    ¬ (PublicKey.verify zeroSignatureLib [0x61] [0x43, 0x43, 0x43, 0x43] firstKey = some true →
      signingCertificate zeroSignatureLib.cfca [0x43, 0x43, 0x43, 0x43] =
        heldCertificate zeroSignatureLib.cfca [0x41, 0x41, 0x41, 0x41]) := by
  rw [(cfca_signer_iff zeroSignatureLib [0x61] [0x43, 0x43, 0x43, 0x43] firstKey _ firstKey_read
    rfl).1, not_not]
  refine ⟨rfl, rfl, ⟨by decide +kernel, by decide +kernel⟩,
    ⟨by decide +kernel, true, rfl, trivial⟩, ?_⟩
  intro same
  change (some true : Option Bool) = some false at same
  cases same

end EChainLib.Keys
