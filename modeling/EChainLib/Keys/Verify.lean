import Mathlib
import EChainLib.Keys.Signature

/-! Which bytes of the signature `PublicKey::Verify` reads. `ed25519_sign_open` takes 64
bytes and no length; the RSA branch copies the whole string into 256 bytes. -/

namespace EChainLib.Keys

variable (lib : SignatureLib)

/-- `text` is read as a public key of this type. -/
def PublicText (type : SignatureType) (raw text : Bytes) : Prop :=
  ∃ e, getKeyElement text = some e ∧ e.keyPrefix = .publicKey ∧ e.sign_type = type ∧
    e.raw_data = raw

/-- The call stays inside its buffers, and under an Ed25519 key it looks at the 64 bytes of
the signature, the terminating NUL not among them, and at nothing else. -/
structure ReadsSignature (data signature text : Bytes) : Prop where
  bounded : PublicKey.verify lib data signature text ≠ none
  inside : ∀ raw, PublicText .ed25519 raw text → 64 ≤ signature.length
  whole : ∀ raw, PublicText .ed25519 raw text →
    PublicKey.verify lib data signature text = some true →
      signature.length = 64 ∧ lib.ed25519_sign_open data raw signature = true

/-- The lengths that fit. -/
structure Fits (data signature text : Bytes) : Prop where
  ed25519 : ∀ raw, PublicText .ed25519 raw text →
    signature.length = 64 ∨
      (64 < signature.length ∧ lib.ed25519_sign_open data raw (signature.take 64) = false)
  rsa : ∀ raw, PublicText .rsa raw text →
    lib.d2i_RSA_PUBKEY raw = none ∨ signature.length ≤ 256

/-! One lemma for each branch. -/

theorem publicText_type (type type' : SignatureType) (raw raw' text : Bytes)
    (read : PublicText type raw text) (read' : PublicText type' raw' text) :
    type = type' ∧ raw = raw' := by
  obtain ⟨e, found, _, rfl, rfl⟩ := read
  obtain ⟨e', found', _, rfl, rfl⟩ := read'
  rw [found] at found'
  cases found'
  exact ⟨rfl, rfl⟩

theorem verify_ed25519 (data signature raw text : Bytes) (read : PublicText .ed25519 raw text) :
    PublicKey.verify lib data signature text =
      (cBytes 64 signature).map (lib.ed25519_sign_open data raw) := by
  obtain ⟨e, found, own, type, rfl⟩ := read
  simp [PublicKey.verify, found, own, type]

theorem verify_rsa (data signature raw text : Bytes) (read : PublicText .rsa raw text) :
    PublicKey.verify lib data signature text =
      match lib.d2i_RSA_PUBKEY raw with
      | none => some false
      | some p_rsa =>
          if signature.length ≤ 256 then some (lib.RSA_verify p_rsa (lib.sha1 data) signature)
          else none := by
  obtain ⟨e, found, own, type, rfl⟩ := read
  rw [PublicKey.verify, found]
  cases decoded : lib.d2i_RSA_PUBKEY e.raw_data <;> simp [own, type, decoded]

/-- Every other text is answered without a look past a buffer. -/
theorem verify_other (data signature text : Bytes) (no_ed : ∀ raw, ¬ PublicText .ed25519 raw text)
    (no_rsa : ∀ raw, ¬ PublicText .rsa raw text) :
    PublicKey.verify lib data signature text ≠ none := by
  rw [PublicKey.verify]
  cases found : getKeyElement text with
  | none => simp
  | some e =>
      by_cases own : e.keyPrefix = .publicKey
      · cases type : e.sign_type with
        | ed25519 => exact absurd ⟨e, found, own, type, rfl⟩ (no_ed e.raw_data)
        | rsa => exact absurd ⟨e, found, own, type, rfl⟩ (no_rsa e.raw_data)
        | _ => simp [own, type]
      · simp [own]

theorem cBytes_long (count : Nat) (s : Bytes) (long : count ≤ s.length) :
    cBytes count s = some (s.take count) := by
  rw [cBytes, if_pos (by omega), List.take_append_of_le_length long]

theorem ed25519_reads_iff (data signature raw text : Bytes)
    (read : PublicText .ed25519 raw text) :
    ReadsSignature lib data signature text ↔ Fits lib data signature text := by
  have only : ∀ raw', PublicText .ed25519 raw' text → raw = raw' := fun raw' read' =>
    (publicText_type _ _ _ _ text read read').2
  constructor
  · intro reads
    constructor
    · intro raw' read'
      obtain rfl := only raw' read'
      have long := reads.inside raw read
      have opened := verify_ed25519 lib data signature raw text read
      rw [cBytes_long 64 signature long, Option.map_some] at opened
      cases verdict : lib.ed25519_sign_open data raw (signature.take 64) with
      | true => exact Or.inl (reads.whole raw read (opened.trans (congrArg some verdict))).1
      | false =>
          rcases Nat.lt_or_eq_of_le long with longer | exact_length
          · exact Or.inr ⟨longer, rfl⟩
          · exact Or.inl exact_length.symm
    · intro raw' read'
      cases (publicText_type _ _ _ _ text read read').1
  · intro fits
    have length := fits.ed25519 raw read
    have long : 64 ≤ signature.length := by omega
    have opened := verify_ed25519 lib data signature raw text read
    rw [cBytes_long 64 signature long, Option.map_some] at opened
    refine ⟨?_, fun _ _ => long, ?_⟩
    · rw [opened]
      exact Option.some_ne_none _
    · intro raw' read' accepted
      obtain rfl := only raw' read'
      rw [opened, Option.some.injEq] at accepted
      rcases length with exact_length | ⟨_, refused⟩
      · rw [List.take_of_length_le (by omega)] at accepted
        exact ⟨exact_length, accepted⟩
      · rw [refused] at accepted
        cases accepted

theorem rsa_reads_iff (data signature raw text : Bytes) (read : PublicText .rsa raw text) :
    ReadsSignature lib data signature text ↔ Fits lib data signature text := by
  have no_ed : ∀ raw', ¬ PublicText .ed25519 raw' text := by
    intro raw' read'
    cases (publicText_type _ _ _ _ text read read').1
  have bounded : PublicKey.verify lib data signature text ≠ none ↔
      lib.d2i_RSA_PUBKEY raw = none ∨ signature.length ≤ 256 := by
    rw [verify_rsa lib data signature raw text read]
    cases lib.d2i_RSA_PUBKEY raw with
    | none => simp
    | some p_rsa => by_cases short : signature.length ≤ 256 <;> simp [short]
  constructor
  · intro reads
    refine ⟨fun raw' read' => absurd read' (no_ed raw'), fun raw' read' => ?_⟩
    obtain ⟨_, rfl⟩ := publicText_type _ _ _ _ text read read'
    exact bounded.mp reads.bounded
  · intro fits
    exact ⟨bounded.mpr (fits.rsa raw read), fun raw' read' => absurd read' (no_ed raw'),
      fun raw' read' => absurd read' (no_ed raw')⟩

/-- `Verify` reads the signature and no more exactly for the lengths that fit; and an
Ed25519 signature it accepts stays accepted whatever is put behind it. -/
theorem verify_reads_signature_iff (data signature text : Bytes) :
    (ReadsSignature lib data signature text ↔ Fits lib data signature text) ∧
      ∀ raw, PublicText .ed25519 raw text → 64 ≤ signature.length →
        PublicKey.verify lib data signature text = some true →
          ∀ tail, PublicKey.verify lib data (signature ++ tail) text = some true := by
  constructor
  · by_cases ed : ∃ raw, PublicText .ed25519 raw text
    · obtain ⟨raw, read⟩ := ed
      exact ed25519_reads_iff lib data signature raw text read
    · push Not at ed
      by_cases rsa : ∃ raw, PublicText .rsa raw text
      · obtain ⟨raw, read⟩ := rsa
        exact rsa_reads_iff lib data signature raw text read
      · push Not at rsa
        apply iff_of_true
        · exact ⟨verify_other lib data signature text ed rsa,
            fun raw read => absurd read (ed raw), fun raw read => absurd read (ed raw)⟩
        · exact ⟨fun raw read => absurd read (ed raw), fun raw read => absurd read (rsa raw)⟩
  · intro raw read long accepted tail
    rw [verify_ed25519 lib data signature raw text read, cBytes_long 64 signature long] at accepted
    rw [verify_ed25519 lib data (signature ++ tail) raw text read,
      cBytes_long 64 (signature ++ tail) (by simp; omega), List.take_append_of_le_length long]
    exact accepted

/-! A signature of 65 bytes under an Ed25519 key, and one of 257 under an RSA key. -/

def ed25519Key : Bytes := base16 .publicKey .ed25519 (List.replicate 32 0)

def rsaKey : Bytes := base16 .publicKey .rsa [0x30, 0x00]

theorem ed25519Key_read : PublicText .ed25519 (List.replicate 32 0) ed25519Key := by
  have read := getKeyElement_base16 ⟨.publicKey, .ed25519, List.replicate 32 0, by decide⟩
  rw [← KeyElement.base16_eq] at read
  exact ⟨_, read, rfl, rfl, rfl⟩

theorem rsaKey_read : PublicText .rsa [0x30, 0x00] rsaKey := by
  have read := getKeyElement_base16 ⟨.publicKey, .rsa, [0x30, 0x00], by decide⟩
  rw [← KeyElement.base16_eq] at read
  exact ⟨_, read, rfl, rfl, rfl⟩

theorem signature_with_a_tail_accepted :
    PublicKey.verify zeroSignatureLib [0x61] (List.replicate 64 0 ++ [0x62]) ed25519Key =
        some true ∧
      PublicKey.verify zeroSignatureLib [0x61] (List.replicate 257 0) rsaKey = none ∧
      ¬ ReadsSignature zeroSignatureLib [0x61] (List.replicate 64 0 ++ [0x62]) ed25519Key ∧
      ¬ ReadsSignature zeroSignatureLib [0x61] (List.replicate 257 0) rsaKey := by
  have extended : PublicKey.verify zeroSignatureLib [0x61] (List.replicate 64 0 ++ [0x62])
      ed25519Key = some true := by
    rw [verify_ed25519 zeroSignatureLib _ _ _ _ ed25519Key_read]
    decide +kernel
  have copied : PublicKey.verify zeroSignatureLib [0x61] (List.replicate 257 0) rsaKey = none := by
    rw [verify_rsa zeroSignatureLib _ _ _ _ rsaKey_read]
    decide +kernel
  refine ⟨extended, copied, fun reads => ?_, fun reads => reads.bounded copied⟩
  exact absurd (reads.whole _ ed25519Key_read extended).1 (by decide)

end EChainLib.Keys
