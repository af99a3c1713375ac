import Mathlib
import EChainLib.Keys.KeyElement

/-! What the checksum of a key text detects. `Crc8` is handed the length of the
buffer but counts it down in 16 bits, so only the first `length % 65536` bytes of
a long RSA or CFCA key reach the register. -/

namespace EChainLib.Keys

/-- The decoded bytes of `s'` are those of `s` with the byte at `i` changed to `byte`. -/
structure Corrupts (s s' : Bytes) (i : Nat) (byte : UInt8) : Prop where
  inside : i < (hexStringToBin s false).length
  changed : (hexStringToBin s false)[i]? ≠ some byte
  same : hexStringToBin s' false = (hexStringToBin s false).set i byte

theorem crc8_set_read (body : Bytes) (i : Nat) (byte : UInt8) (read : i < body.length % 65536)
    (inside : i < body.length) (changed : byte ≠ body[i]) : crc8 (body.set i byte) ≠ crc8 body := by
  have narrowed : (UInt16.ofNat body.length).toNat = body.length % 65536 := by simp
  rw [crc8, crc8, crc8Loop, crc8Loop, List.length_set, narrowed, List.take_set]
  exact Checksum.foldl_set_ne crcByte_keeps crcByte_reads _ 0 i (by simp [read, inside]) byte
    (by simpa using changed)

theorem crc8_set_skipped (body : Bytes) (i : Nat) (byte : UInt8)
    (skipped : body.length % 65536 ≤ i) : crc8 (body.set i byte) = crc8 body := by
  have narrowed : (UInt16.ofNat body.length).toNat = body.length % 65536 := by simp
  rw [crc8, crc8, crc8Loop, crc8Loop, List.length_set, narrowed, List.take_set,
    List.set_eq_of_length_le (by simp; omega)]

def UnknownPrefix (byte : UInt8) : Prop := byte ≠ 0xea ∧ byte ≠ 0xeb ∧ byte ≠ 0xec

def UnboundedType (byte : UInt8) : Prop := byte = 3 ∨ byte = 4

theorem prefix_unknown_iff (byte : UInt8) :
    PrivateKeyPrefix.ofByte byte = none ↔ UnknownPrefix byte := by
  unfold PrivateKeyPrefix.ofByte UnknownPrefix
  split_ifs <;> simp_all

/-- Only RSA and CFCA keys are longer than any entry of the length table. -/
theorem keyFields_long (a b : UInt8) (raw_data : Bytes) (long : 65 < raw_data.length) :
    keyFields a b raw_data = none ↔ UnknownPrefix a ∨ ¬ UnboundedType b := by
  rw [← prefix_unknown_iff]
  cases found : PrivateKeyPrefix.ofByte a with
  | none => simp [keyFields, found]
  | some keyPrefix =>
      have refused : ∀ bound, bound ≤ 65 → (bound == raw_data.length) = false := by
        intro bound small
        simp only [beq_eq_false_iff_ne]
        omega
      have ed25519 : (ed25519KeyLength keyPrefix == raw_data.length) = false :=
        refused _ (by cases keyPrefix <;> decide)
      have sm2 : (sm2KeyLength keyPrefix == raw_data.length) = false :=
        refused _ (by cases keyPrefix <;> decide)
      unfold keyFields SignatureType.ofByte UnboundedType
      split_ifs <;> simp_all [lengthAdmitted]

/-- The checksum byte itself, the bytes the 16-bit count reaches, and a prefix or
type byte that leaves its table. -/
def Detected (n i : Nat) (byte : UInt8) : Prop :=
  i = n ∨ i < n % 65536 ∨ (i = 0 ∧ UnknownPrefix byte) ∨ (i = 1 ∧ ¬ UnboundedType byte)

theorem keyElement_set_iff (body : Bytes) (checksum : UInt8) (enough : 2 ≤ body.length)
    (accepted : keyElement (body ++ [checksum]) ≠ none) (i : Nat) (byte : UInt8)
    (inside : i ≤ body.length) (changed : (body ++ [checksum])[i]? ≠ some byte) :
    keyElement ((body ++ [checksum]).set i byte) = none ↔ Detected body.length i byte := by
  rw [keyElement_append body checksum enough] at accepted
  split_ifs at accepted with sum
  · rcases Nat.lt_or_eq_of_le inside with before | last
    · have differs : byte ≠ body[i] := by
        intro same
        simp [List.getElem?_append_left before, same] at changed
      rw [List.set_append_left i byte before, keyElement_append _ _ (by simpa using enough), sum]
      by_cases read : i < body.length % 65536
      · rw [if_neg (crc8_set_read body i byte read before differs).symm]
        simp [Detected, read]
      · -- the register never sees this byte, so only the tables can refuse the change
        rw [crc8_set_skipped body i byte (by omega), if_pos rfl]
        have long : 65 < (body.drop 2).length := by simp; omega
        match body, enough with
        | a :: b :: raw_data, _ =>
            have known := (keyFields_long a b raw_data long).not.mp accepted
            match i with
            | 0 =>
                have split := keyFields_long byte b raw_data long
                simp_all [Detected]
            | 1 =>
                have split := keyFields_long a byte raw_data long
                simp_all [Detected]
            | i + 2 =>
                have split := keyFields_long a b (raw_data.set i byte) (by simpa using long)
                simp_all [Detected]
                have short : i < raw_data.length := by simpa using before
                omega
    · subst last
      have differs : byte ≠ checksum := by
        intro same
        simp [same] at changed
      rw [List.set_append_right _ _ (le_refl _), Nat.sub_self, List.set_cons_zero,
        keyElement_append body byte enough, if_neg (sum ▸ differs)]
      simp [Detected]
  · exact absurd rfl accepted

theorem decoded_frame (s : Bytes) (accepted : getKeyElement s ≠ none) :
    ∃ body checksum, 2 ≤ body.length ∧ hexStringToBin s false = body ++ [checksum] ∧
      keyElement (body ++ [checksum]) ≠ none := by
  obtain ⟨e, found⟩ := Option.ne_none_iff_exists'.mp accepted
  have decoded := bytes_of_keyElement _ e found
  refine ⟨e.body, crc8 e.body, by simp [KeyElement.body], decoded.symm, ?_⟩
  rw [← KeyElement.bytes, keyElement_bytes]
  exact Option.some_ne_none e

/-- Which single-byte changes of an accepted key text are rejected. -/
theorem corruption_detected_iff (s s' : Bytes) (i : Nat) (byte : UInt8)
    (accepted : getKeyElement s ≠ none) (corrupts : Corrupts s s' i byte) :
    getKeyElement s' = none ↔ Detected ((hexStringToBin s false).length - 1) i byte := by
  obtain ⟨body, checksum, enough, decoded, framed⟩ := decoded_frame s accepted
  obtain ⟨inside, changed, same⟩ := corrupts
  rw [getKeyElement, same]
  rw [decoded] at inside changed ⊢
  have bound : i ≤ body.length := by
    simp only [List.length_append, List.length_singleton] at inside
    omega
  have length : (body ++ [checksum]).length - 1 = body.length := by simp
  rw [length]
  exact keyElement_set_iff body checksum enough framed i byte bound changed

theorem corruption_detected_iff_applies :
    getKeyElement (binToHexString [0xea, 0x03, 0x20, 0xf8]) = none ↔ Detected 3 2 0x20 := by
  have corrupts : Corrupts (base16 .address .rsa [0x00]) (binToHexString [0xea, 0x03, 0x20, 0xf8])
      2 0x20 := ⟨by decide +kernel, by decide +kernel, by decide +kernel⟩
  have accepted : getKeyElement (base16 .address .rsa [0x00]) ≠ none := by
    rw [getKeyElement, base16, hexStringToBin_binToHexString]
    decide +kernel
  have length : (hexStringToBin (base16 .address .rsa [0x00]) false).length - 1 = 3 := by
    decide +kernel
  have exactly := corruption_detected_iff _ _ 2 0x20 accepted corrupts
  rwa [length] at exactly

/-- A key whose body is a multiple of 65536 bytes long has a checksum over nothing. -/
theorem crc8_wrapped (body : Bytes) (wrapped : body.length % 65536 = 0) : crc8 body = 0 := by
  have narrowed : (UInt16.ofNat body.length).toNat = 0 := by simpa using wrapped
  rw [crc8, crc8Loop, narrowed]
  rfl

def longKey (zeros : Nat) (payload : UInt8) : Bytes :=
  binToHexString ((0xec :: 0x03 :: payload :: List.replicate zeros 0) ++ [0])

theorem longKey_accepted (zeros : Nat) (payload : UInt8) (long : 65 ≤ zeros)
    (wrapped : (zeros + 3) % 65536 = 0) : getKeyElement (longKey zeros payload) ≠ none := by
  have sum : crc8 (0xec :: 0x03 :: payload :: List.replicate zeros 0) = 0 :=
    crc8_wrapped _ (by simpa using wrapped)
  rw [longKey, getKeyElement, hexStringToBin_binToHexString, keyElement_append _ _ (by simp),
    if_pos sum.symm]
  have longer : 65 < (payload :: List.replicate zeros 0 : Bytes).length := by simpa using by omega
  refine (keyFields_long 0xec 0x03 _ longer).not.mpr ?_
  simp [UnknownPrefix, UnboundedType]

theorem longKey_corrupts (zeros : Nat) (payload changed : UInt8) (differs : payload ≠ changed) :
    Corrupts (longKey zeros payload) (longKey zeros changed) 2 changed := by
  refine ⟨?_, ?_, ?_⟩ <;> simp only [longKey, hexStringToBin_binToHexString]
  · simp
  · simpa using differs
  · rfl

theorem long_key_corruption_accepted :
    getKeyElement (longKey 65533 0) ≠ none ∧ Corrupts (longKey 65533 0) (longKey 65533 1) 2 1 ∧
      getKeyElement (longKey 65533 1) ≠ none :=
  ⟨longKey_accepted 65533 0 (by decide) (by decide), longKey_corrupts 65533 0 1 (by decide),
    longKey_accepted 65533 1 (by decide) (by decide)⟩

end EChainLib.Keys
