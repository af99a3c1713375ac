import Mathlib
import EChainLib.Support.Chaining
import EChainLib.Keys.Cfca

/-! `utils::Aes`. The padded copy that `Crypto` makes of its input is never read. -/

namespace EChainLib.Codec

open Keys (Bytes binToHexString hexStringToBin cString)

def aesBlockSize : Nat := 16

abbrev Block := Fin 16 → UInt8

def mixed (block previous : Block) : Block := fun i => block i ^^^ previous i

/-- A block cipher under each key. -/
structure BlockCipher where
  encrypt : Bytes → Block → Block
  decrypt : Bytes → Block → Block
  decrypt_encrypt : ∀ key, Function.LeftInverse (decrypt key) (encrypt key)
  encrypt_decrypt : ∀ key, Function.LeftInverse (encrypt key) (decrypt key)

/-- The first block, filled up with zeros. -/
def blockAt (bytes : Bytes) : Block := fun i => bytes.getD i 0

def blocksOf (bytes : Bytes) : List Block :=
  (List.range ((bytes.length + 15) / 16)).map fun i => blockAt (bytes.drop (16 * i))

def bytesOf (blocks : List Block) : Bytes := blocks.flatMap fun block => List.ofFn block

def ivec : Block := fun _ => 0

/-- `AES_cbc_encrypt` with `AES_ENCRYPT`, which writes whole blocks. -/
def cbcEncrypt (cipher : Block → Block) (input : Bytes) : Bytes :=
  bytesOf (Chaining.encrypt mixed cipher ivec (blocksOf input))

/-- With `AES_DECRYPT`; a partial block is read behind the end of the input. -/
def cbcDecrypt (inverse : Block → Block) (input : Bytes) : Option Bytes :=
  if input.length % 16 = 0 then
    some (bytesOf (Chaining.decrypt mixed inverse ivec (blocksOf input)))
  else none

section Functions

variable (cipher : BlockCipher) (input key : Bytes)

def aesKeySize : Prop := key.length = 16 ∨ key.length = 24 ∨ key.length = 32

instance : Decidable (aesKeySize key) :=
  inferInstanceAs (Decidable (key.length = 16 ∨ key.length = 24 ∨ key.length = 32))

/-- The length of `enc_out`. -/
def cryptoLength : Nat :=
  if (input.length + 1) % aesBlockSize = 0 then input.length + 1
  else ((input.length + 1) / aesBlockSize + 1) * aesBlockSize

def Aes.crypto : Bytes :=
  if ¬ aesKeySize key then "key error".toList.map Char.toUInt8
  else
    let written := cbcEncrypt (cipher.encrypt key) input
    written ++ (List.replicate (cryptoLength input) 0).drop written.length

/-- `enc_out` ends at its first NUL. -/
def Aes.decrypto : Option Bytes :=
  if ¬ aesKeySize key then some []
  else (cbcDecrypt (cipher.decrypt key) input).map cString

def Aes.cryptoHex : Bytes := binToHexString (Aes.crypto cipher input key)

def Aes.hexDecrypto : Option Bytes := Aes.decrypto cipher (hexStringToBin input false) key

end Functions

/-! Blocks. -/

theorem blocksOf_step (bytes : Bytes) (nonempty : bytes ≠ []) :
    blocksOf bytes = blockAt bytes :: blocksOf (bytes.drop 16) := by
  have positive := List.length_pos_iff.mpr nonempty
  have count : (bytes.length + 15) / 16 = (bytes.length - 16 + 15) / 16 + 1 := by omega
  rw [blocksOf, blocksOf, count, List.range_succ_eq_map, List.map_cons, List.map_map,
    List.length_drop]
  congr 1
  refine List.map_congr_left fun i _ => ?_
  rw [Function.comp_apply, List.drop_drop, Nat.succ_eq_add_one, Nat.mul_add, Nat.add_comm]

theorem bytesOf_append (front behind : List Block) :
    bytesOf (front ++ behind) = bytesOf front ++ bytesOf behind := List.flatMap_append

theorem bytesOf_length (blocks : List Block) : (bytesOf blocks).length = 16 * blocks.length := by
  induction blocks with
  | nil => rfl
  | cons block rest ih =>
      rw [show bytesOf (block :: rest) = List.ofFn block ++ bytesOf rest from rfl,
        List.length_append, List.length_ofFn, ih, List.length_cons]
      omega

theorem blockAt_front (block : Block) (behind : Bytes) :
    blockAt (List.ofFn block ++ behind) = block := by
  funext i
  rw [blockAt, List.getD_append _ _ _ _ (by simp), List.getD_eq_getElem _ _ (by simp),
    List.getElem_ofFn]

theorem ofFn_blockAt (bytes : Bytes) :
    List.ofFn (blockAt bytes) = bytes.take 16 ++ List.replicate (16 - bytes.length) 0 := by
  apply List.ext_getElem
  · simp
    omega
  · intro i below _
    rw [List.getElem_ofFn]
    by_cases inside : i < bytes.length
    · have front : i < (bytes.take 16).length := by
        simp only [List.length_ofFn] at below
        simp [inside, below]
      rw [List.getElem_append_left front, List.getElem_take, blockAt,
        List.getD_eq_getElem _ _ inside]
    · have front : (bytes.take 16).length ≤ i := by
        simp
        omega
      rw [List.getElem_append_right front, List.getElem_replicate, blockAt,
        List.getD_eq_default _ _ (by simpa using inside)]

/-- Whole blocks are read back. -/
theorem blocksOf_bytesOf (blocks : List Block) : blocksOf (bytesOf blocks) = blocks := by
  induction blocks with
  | nil => rfl
  | cons block rest ih =>
      have front : bytesOf (block :: rest) = List.ofFn block ++ bytesOf rest := rfl
      have nonempty : List.ofFn block ++ bytesOf rest ≠ [] := by simp [List.ofFn_succ]
      rw [front, blocksOf_step _ nonempty]
      rw [blockAt_front, List.drop_append_of_le_length (by simp), List.drop_of_length_le (by simp),
        List.nil_append, ih]

/-- The blocks of a text hold it, filled up with zeros. -/
theorem bytesOf_blocksOf (bytes : Bytes) :
    bytesOf (blocksOf bytes) = bytes ++ List.replicate ((16 - bytes.length % 16) % 16) 0 := by
  induction length : bytes.length using Nat.strong_induction_on generalizing bytes with
  | _ n ih =>
      subst length
      by_cases empty : bytes = []
      · subst empty
        rfl
      · have positive := List.length_pos_iff.mpr empty
        have rest := ih (bytes.drop 16).length (by rw [List.length_drop]; omega) _ rfl
        rw [blocksOf_step _ empty]
        show List.ofFn (blockAt bytes) ++ bytesOf (blocksOf (bytes.drop 16)) = _
        rw [ofFn_blockAt, rest, List.length_drop]
        by_cases whole : 16 ≤ bytes.length
        · have more : (16 - (bytes.length - 16) % 16) % 16 = (16 - bytes.length % 16) % 16 := by
            omega
          rw [Nat.sub_eq_zero_of_le whole, List.replicate_zero, List.append_nil, more,
            ← List.append_assoc, List.take_append_drop]
        · have short : (16 - bytes.length % 16) % 16 = 16 - bytes.length := by omega
          have none_left : bytes.length - 16 = 0 := by omega
          rw [short, none_left, List.drop_of_length_le (by omega), List.take_of_length_le (by omega)]
          simp

theorem blocksOf_length (bytes : Bytes) : (blocksOf bytes).length = (bytes.length + 15) / 16 := by
  simp [blocksOf]

theorem unmixed (block previous : Block) : mixed (mixed block previous) previous = block := by
  funext i
  simp [mixed]

theorem cString_ofFn (block : Block) : cString (List.ofFn block) = [] ↔ block 0 = 0 := by
  rw [List.ofFn_succ, cString]
  by_cases zero : block 0 = 0 <;> simp [zero]

/-! The round trip. -/

section RoundTrip

variable (cipher : BlockCipher) (x key : Bytes)

/-- The last block of the cipher text, the initial vector where there is none. -/
def lastBlock : Block := Chaining.final mixed (cipher.encrypt key) ivec (blocksOf x)

/-- The block of `enc_out` that is not written. -/
def unwritten : List Block := if x.length % 16 = 0 then [ivec] else []

theorem crypto_eq (size : aesKeySize key) :
    Aes.crypto cipher x key =
      bytesOf (Chaining.encrypt mixed (cipher.encrypt key) ivec (blocksOf x) ++ unwritten x) := by
  have length : (cbcEncrypt (cipher.encrypt key) x).length = 16 * ((x.length + 15) / 16) := by
    rw [cbcEncrypt, bytesOf_length, Chaining.encrypt_length, blocksOf_length]
  rw [Aes.crypto, if_neg (not_not_intro size), bytesOf_append]
  refine congrArg (cbcEncrypt (cipher.encrypt key) x ++ ·) ?_
  rw [length, List.drop_replicate, unwritten, cryptoLength, aesBlockSize]
  by_cases whole : x.length % 16 = 0
  -- `len` counts a block more than `AES_cbc_encrypt` writes from `input.size()` bytes
  · have left : ((x.length + 1) / 16 + 1) * 16 - 16 * ((x.length + 15) / 16) = 16 := by omega
    rw [if_pos whole, if_neg (by omega), left]
    rfl
  · have left : (if (x.length + 1) % 16 = 0 then x.length + 1
        else ((x.length + 1) / 16 + 1) * 16) - 16 * ((x.length + 15) / 16) = 0 := by
      split <;> omega
    rw [if_neg whole, left]
    rfl

theorem decrypto_crypto (size : aesKeySize key) :
    Aes.decrypto cipher (Aes.crypto cipher x key) key =
      some (cString (bytesOf (blocksOf x) ++
        bytesOf (Chaining.decrypt mixed (cipher.decrypt key) (lastBlock cipher x key)
          (unwritten x)))) := by
  have whole : (Aes.crypto cipher x key).length % 16 = 0 := by
    rw [crypto_eq cipher x key size, bytesOf_length]
    exact Nat.mul_mod_right 16 _
  rw [Aes.decrypto, if_neg (not_not_intro size), cbcDecrypt, if_pos whole,
    crypto_eq cipher x key size, blocksOf_bytesOf,
    Chaining.decrypt_encrypt_append _ _ (cipher.decrypt_encrypt key) unmixed, bytesOf_append]
  rfl

/-- A text without NUL comes back unless a block of zeros was decrypted behind it. -/
theorem decrypto_iff (size : aesKeySize key) (free : ∀ c ∈ x, c ≠ 0) :
    Aes.decrypto cipher (Aes.crypto cipher x key) key = some x ↔
      x.length % 16 ≠ 0 ∨ cipher.decrypt key ivec 0 = lastBlock cipher x key 0 := by
  have read : ∀ behind, cString (x ++ behind) = x ++ cString behind := fun behind =>
    List.takeWhile_append_of_pos fun c there => by simpa using free c there
  rw [decrypto_crypto cipher x key size, bytesOf_blocksOf, unwritten, List.append_assoc, read,
    Option.some.injEq, List.append_right_eq_self]
  by_cases whole : x.length % 16 = 0
  -- nothing ends the text before the decrypted block of zeros
  · have filled : (16 - x.length % 16) % 16 = 0 := by omega
    rw [if_pos whole, filled, List.replicate_zero, List.nil_append]
    have block : bytesOf (Chaining.decrypt mixed (cipher.decrypt key) (lastBlock cipher x key)
        [ivec]) = List.ofFn (mixed (cipher.decrypt key ivec) (lastBlock cipher x key)) :=
      List.append_nil _
    rw [block, cString_ofFn, mixed, UInt8.xor_eq_zero_iff]
    simp [whole]
  -- the zeros of the padding end the text
  · apply iff_of_true ?_ (Or.inl whole)
    have padding : (16 - x.length % 16) % 16 = (15 - x.length % 16) + 1 := by omega
    rw [padding, List.replicate_succ]
    rfl

/-- Both round trips hold exactly for a length that is no multiple of 16, or where the
block of zeros happens to decrypt to a NUL behind the text. -/
theorem aes_round_trips_iff (size : aesKeySize key) (free : ∀ c ∈ x, c ≠ 0) :
    (Aes.decrypto cipher (Aes.crypto cipher x key) key = some x ↔
        x.length % 16 ≠ 0 ∨ cipher.decrypt key ivec 0 = lastBlock cipher x key 0) ∧
      (Aes.hexDecrypto cipher (Aes.cryptoHex cipher x key) key = some x ↔
        x.length % 16 ≠ 0 ∨ cipher.decrypt key ivec 0 = lastBlock cipher x key 0) := by
  refine ⟨decrypto_iff cipher x key size free, ?_⟩
  rw [Aes.hexDecrypto, Aes.cryptoHex, Keys.hexStringToBin_binToHexString]
  exact decrypto_iff cipher x key size free

end RoundTrip

/-- Every byte is changed by 1. -/
def flipping : BlockCipher where
  encrypt _ block := mixed block fun _ => 1
  decrypt _ block := mixed block fun _ => 1
  decrypt_encrypt _ block := unmixed block _
  encrypt_decrypt _ block := unmixed block _

def sampleKey : Bytes := "0123456789abcdef".toList.map Char.toUInt8

theorem aes_round_trips_iff_applies :
    (Aes.decrypto flipping (Aes.crypto flipping [0x61] sampleKey) sampleKey = some [0x61] ↔
        [(0x61 : UInt8)].length % 16 ≠ 0 ∨
          flipping.decrypt sampleKey ivec 0 = lastBlock flipping [0x61] sampleKey 0) ∧
      (Aes.hexDecrypto flipping (Aes.cryptoHex flipping [0x61] sampleKey) sampleKey = some [0x61] ↔
        [(0x61 : UInt8)].length % 16 ≠ 0 ∨
          flipping.decrypt sampleKey ivec 0 = lastBlock flipping [0x61] sampleKey 0) :=
  aes_round_trips_iff flipping [0x61] sampleKey (Or.inl rfl) (by simp)

/-- The empty text, and one of 16 characters. -/
theorem whole_blocks_grow :
    Aes.decrypto flipping (Aes.crypto flipping [] sampleKey) sampleKey =
        some (List.replicate 16 1) ∧
      Aes.decrypto flipping (Aes.crypto flipping sampleKey sampleKey) sampleKey ≠
        some sampleKey ∧
      Aes.hexDecrypto flipping (Aes.cryptoHex flipping [] sampleKey) sampleKey ≠ some [] := by
  decide +kernel

end EChainLib.Codec
