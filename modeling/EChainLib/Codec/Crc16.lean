import Mathlib
import EChainLib.Keys.KeyElement
import EChainLib.Support.ShiftRegister

/-! The two CRC-16 functions of `crypto.cpp`. `Get_Crc16` works on tables and leaves its
halves the other way round; `Crc16` shifts the two halves by hand. -/

namespace EChainLib.Codec

open Keys (Bytes)

def auchCRCHi : List UInt8 :=
  [
    0x00, 0xC1, 0x81, 0x40, 0x01, 0xC0, 0x80, 0x41, 0x01, 0xC0, 0x80, 0x41,
    0x00, 0xC1, 0x81, 0x40, 0x01, 0xC0, 0x80, 0x41, 0x00, 0xC1, 0x81, 0x40,
    0x00, 0xC1, 0x81, 0x40, 0x01, 0xC0, 0x80, 0x41, 0x01, 0xC0, 0x80, 0x41,
    0x00, 0xC1, 0x81, 0x40, 0x00, 0xC1, 0x81, 0x40, 0x01, 0xC0, 0x80, 0x41,
    0x00, 0xC1, 0x81, 0x40, 0x01, 0xC0, 0x80, 0x41, 0x01, 0xC0, 0x80, 0x41,
    0x00, 0xC1, 0x81, 0x40, 0x01, 0xC0, 0x80, 0x41, 0x00, 0xC1, 0x81, 0x40,
    0x00, 0xC1, 0x81, 0x40, 0x01, 0xC0, 0x80, 0x41, 0x00, 0xC1, 0x81, 0x40,
    0x01, 0xC0, 0x80, 0x41, 0x01, 0xC0, 0x80, 0x41, 0x00, 0xC1, 0x81, 0x40,
    0x00, 0xC1, 0x81, 0x40, 0x01, 0xC0, 0x80, 0x41, 0x01, 0xC0, 0x80, 0x41,
    0x00, 0xC1, 0x81, 0x40, 0x01, 0xC0, 0x80, 0x41, 0x00, 0xC1, 0x81, 0x40,
    0x00, 0xC1, 0x81, 0x40, 0x01, 0xC0, 0x80, 0x41, 0x01, 0xC0, 0x80, 0x41,
    0x00, 0xC1, 0x81, 0x40, 0x00, 0xC1, 0x81, 0x40, 0x01, 0xC0, 0x80, 0x41,
    0x00, 0xC1, 0x81, 0x40, 0x01, 0xC0, 0x80, 0x41, 0x01, 0xC0, 0x80, 0x41,
    0x00, 0xC1, 0x81, 0x40, 0x00, 0xC1, 0x81, 0x40, 0x01, 0xC0, 0x80, 0x41,
    0x01, 0xC0, 0x80, 0x41, 0x00, 0xC1, 0x81, 0x40, 0x01, 0xC0, 0x80, 0x41,
    0x00, 0xC1, 0x81, 0x40, 0x00, 0xC1, 0x81, 0x40, 0x01, 0xC0, 0x80, 0x41,
    0x00, 0xC1, 0x81, 0x40, 0x01, 0xC0, 0x80, 0x41, 0x01, 0xC0, 0x80, 0x41,
    0x00, 0xC1, 0x81, 0x40, 0x01, 0xC0, 0x80, 0x41, 0x00, 0xC1, 0x81, 0x40,
    0x00, 0xC1, 0x81, 0x40, 0x01, 0xC0, 0x80, 0x41, 0x01, 0xC0, 0x80, 0x41,
    0x00, 0xC1, 0x81, 0x40, 0x00, 0xC1, 0x81, 0x40, 0x01, 0xC0, 0x80, 0x41,
    0x00, 0xC1, 0x81, 0x40, 0x01, 0xC0, 0x80, 0x41, 0x01, 0xC0, 0x80, 0x41,
    0x00, 0xC1, 0x81, 0x40]

def auchCRCLo : List UInt8 :=
  [
    0x00, 0xC0, 0xC1, 0x01, 0xC3, 0x03, 0x02, 0xC2, 0xC6, 0x06, 0x07, 0xC7,
    0x05, 0xC5, 0xC4, 0x04, 0xCC, 0x0C, 0x0D, 0xCD, 0x0F, 0xCF, 0xCE, 0x0E,
    0x0A, 0xCA, 0xCB, 0x0B, 0xC9, 0x09, 0x08, 0xC8, 0xD8, 0x18, 0x19, 0xD9,
    0x1B, 0xDB, 0xDA, 0x1A, 0x1E, 0xDE, 0xDF, 0x1F, 0xDD, 0x1D, 0x1C, 0xDC,
    0x14, 0xD4, 0xD5, 0x15, 0xD7, 0x17, 0x16, 0xD6, 0xD2, 0x12, 0x13, 0xD3,
    0x11, 0xD1, 0xD0, 0x10, 0xF0, 0x30, 0x31, 0xF1, 0x33, 0xF3, 0xF2, 0x32,
    0x36, 0xF6, 0xF7, 0x37, 0xF5, 0x35, 0x34, 0xF4, 0x3C, 0xFC, 0xFD, 0x3D,
    0xFF, 0x3F, 0x3E, 0xFE, 0xFA, 0x3A, 0x3B, 0xFB, 0x39, 0xF9, 0xF8, 0x38,
    0x28, 0xE8, 0xE9, 0x29, 0xEB, 0x2B, 0x2A, 0xEA, 0xEE, 0x2E, 0x2F, 0xEF,
    0x2D, 0xED, 0xEC, 0x2C, 0xE4, 0x24, 0x25, 0xE5, 0x27, 0xE7, 0xE6, 0x26,
    0x22, 0xE2, 0xE3, 0x23, 0xE1, 0x21, 0x20, 0xE0, 0xA0, 0x60, 0x61, 0xA1,
    0x63, 0xA3, 0xA2, 0x62, 0x66, 0xA6, 0xA7, 0x67, 0xA5, 0x65, 0x64, 0xA4,
    0x6C, 0xAC, 0xAD, 0x6D, 0xAF, 0x6F, 0x6E, 0xAE, 0xAA, 0x6A, 0x6B, 0xAB,
    0x69, 0xA9, 0xA8, 0x68, 0x78, 0xB8, 0xB9, 0x79, 0xBB, 0x7B, 0x7A, 0xBA,
    0xBE, 0x7E, 0x7F, 0xBF, 0x7D, 0xBD, 0xBC, 0x7C, 0xB4, 0x74, 0x75, 0xB5,
    0x77, 0xB7, 0xB6, 0x76, 0x72, 0xB2, 0xB3, 0x73, 0xB1, 0x71, 0x70, 0xB0,
    0x50, 0x90, 0x91, 0x51, 0x93, 0x53, 0x52, 0x92, 0x96, 0x56, 0x57, 0x97,
    0x55, 0x95, 0x94, 0x54, 0x9C, 0x5C, 0x5D, 0x9D, 0x5F, 0x9F, 0x9E, 0x5E,
    0x5A, 0x9A, 0x9B, 0x5B, 0x99, 0x59, 0x58, 0x98, 0x88, 0x48, 0x49, 0x89,
    0x4B, 0x8B, 0x8A, 0x4A, 0x4E, 0x8E, 0x8F, 0x4F, 0x8D, 0x4D, 0x4C, 0x8C,
    0x44, 0x84, 0x85, 0x45, 0x87, 0x47, 0x46, 0x86, 0x82, 0x42, 0x43, 0x83,
    0x41, 0x81, 0x80, 0x40]

/-- `uchCRCHi` and `uchCRCLo`, or `CRC16Hi` and `CRC16Lo`. -/
structure CrcHalves where
  hi : UInt8
  lo : UInt8

/-- `hi << 8 | lo`. -/
def CrcHalves.result (crc : CrcHalves) : UInt16 := (crc.hi.toUInt16 <<< 8) ||| crc.lo.toUInt16

def getCrc16Step (crc : CrcHalves) (byte : UInt8) : CrcHalves :=
  let uIndex := crc.hi ^^^ byte
  { hi := crc.lo ^^^ auchCRCHi.getD uIndex.toNat 0, lo := auchCRCLo.getD uIndex.toNat 0 }

def getCrc16 (puchMsg : Bytes) (usDataLen : UInt16) : UInt16 :=
  ((puchMsg.take usDataLen.toNat).foldl getCrc16Step ⟨0xFF, 0xFF⟩).result

/-- One round of the inner loop of `Crc16`; `CH` is `0xA0` and `CL` is `0x01`. -/
def crc16Bit (crc : CrcHalves) : CrcHalves :=
  let saveHi := crc.hi
  let saveLo := crc.lo
  let hi := crc.hi >>> 1
  let lo := crc.lo >>> 1
  let lo := if saveHi &&& 0x01 = 0x01 then lo ||| 0x80 else lo
  if saveLo &&& 0x01 = 0x01 then { hi := hi ^^^ 0xA0, lo := lo ^^^ 0x01 } else { hi, lo }

def crc16Step (crc : CrcHalves) (byte : UInt8) : CrcHalves :=
  crc16Bit^[8] { crc with lo := crc.lo ^^^ byte }

def crc16 (pdata : Bytes) (datalen : UInt16) : UInt16 :=
  ((pdata.take datalen.toNat).foldl crc16Step ⟨0xFF, 0xFF⟩).result

/-- The two bytes of a result swapped. -/
def swapped (crc : UInt16) : UInt16 := (crc <<< 8) ||| (crc >>> 8)

/-- The polynomial `0x8005` reflected. -/
def polynomial : BitVec 16 := 0xA001

/-- CRC-16 with the initial value `0xFFFF`. -/
def reflectedCrc (message : Bytes) : BitVec 16 :=
  ShiftRegister.crc polynomial 0xFFFF (message.map UInt8.toBitVec)

/-! The two halves as one register. -/

def joined (high low : UInt8) : BitVec 16 := high.toBitVec ++ low.toBitVec

theorem joined_toNat (high low : UInt8) : (joined high low).toNat = high.toNat * 256 + low.toNat := by
  have small := low.toNat_lt
  rw [joined, BitVec.toNat_append, UInt8.toNat_toBitVec, UInt8.toNat_toBitVec,
    ← Nat.shiftLeft_add_eq_or_of_lt (by simpa using small), Nat.shiftLeft_eq]

theorem joined_xor (high low high' low' : UInt8) :
    joined (high ^^^ high') (low ^^^ low') = joined high low ^^^ joined high' low' :=
  BitVec.xor_append.symm

theorem joined_symbol (byte : UInt8) : byte.toBitVec.setWidth 16 = joined 0 byte := by
  apply BitVec.eq_of_toNat_eq
  have small := byte.toNat_lt
  rw [joined_toNat, BitVec.toNat_setWidth, UInt8.toNat_toBitVec, Nat.mod_eq_of_lt (by omega)]
  simp

theorem joined_low (high low : UInt8) : (joined high low).setWidth 8 = low.toBitVec :=
  BitVec.setWidth_append_eq_right

theorem joined_high (high low : UInt8) : joined high low >>> 8 = joined 0 high := by
  apply BitVec.eq_of_toNat_eq
  have small := low.toNat_lt
  rw [BitVec.toNat_ushiftRight, joined_toNat, joined_toNat, Nat.shiftRight_eq_div_pow]
  simp
  omega

theorem bytes_or (high low : Nat) (small : low < 256) : high * 256 ||| low = high * 256 + low := by
  have sum := Nat.shiftLeft_add_eq_or_of_lt (i := 8) (by simpa using small) high
  rw [Nat.shiftLeft_eq] at sum
  exact sum.symm

theorem result_toNat (crc : CrcHalves) : crc.result.toNat = crc.hi.toNat * 256 + crc.lo.toNat := by
  have high := crc.hi.toNat_lt
  have low := crc.lo.toNat_lt
  have eight : 2 ^ (UInt16.toNat 8 % 16) = 256 := rfl
  rw [CrcHalves.result, UInt16.toNat_or, UInt16.toNat_shiftLeft, UInt8.toNat_toUInt16,
    UInt8.toNat_toUInt16, Nat.shiftLeft_eq, eight]
  have fits : crc.hi.toNat * 256 % 2 ^ 16 = crc.hi.toNat * 256 := Nat.mod_eq_of_lt (by omega)
  rw [fits, bytes_or _ _ low]

theorem result_joined (crc : CrcHalves) : crc.result.toBitVec = joined crc.hi crc.lo := by
  apply BitVec.eq_of_toNat_eq
  rw [UInt16.toNat_toBitVec, result_toNat, joined_toNat]

theorem swapped_result (crc : CrcHalves) :
    swapped crc.result = CrcHalves.result { hi := crc.lo, lo := crc.hi } := by
  have high := crc.hi.toNat_lt
  have low := crc.lo.toNat_lt
  have eight : 2 ^ (UInt16.toNat 8 % 16) = 256 := rfl
  apply UInt16.toNat_inj.mp
  rw [swapped, UInt16.toNat_or, UInt16.toNat_shiftLeft, UInt16.toNat_shiftRight, result_toNat,
    result_toNat, Nat.shiftLeft_eq, Nat.shiftRight_eq_div_pow, eight]
  have up : (crc.hi.toNat * 256 + crc.lo.toNat) * 256 % 2 ^ 16 = crc.lo.toNat * 256 := by omega
  have down : (crc.hi.toNat * 256 + crc.lo.toNat) / 256 = crc.hi.toNat := by omega
  rw [up, down, bytes_or _ _ high]

/-! One byte. -/

theorem lowest_bit (byte : UInt8) : byte &&& 0x01 = 0x01 ↔ byte.toNat % 2 = 1 := by
  refine Keys.byte_cases (fun byte => byte &&& 0x01 = 0x01 ↔ byte.toNat % 2 = 1) ?_ byte
  decide +kernel

theorem low_shifted (low : UInt8) :
    (low >>> 1).toNat = low.toNat / 2 ∧ (low >>> 1 ||| 0x80).toNat = 128 + low.toNat / 2 := by
  refine Keys.byte_cases (fun low => (low >>> 1).toNat = low.toNat / 2 ∧
    (low >>> 1 ||| 0x80).toNat = 128 + low.toNat / 2) ?_ low
  decide +kernel

/-- The bit that leaves the high half enters the low one. -/
theorem joined_shifted (high low : UInt8) :
    joined high low >>> 1 =
      joined (high >>> 1) (if high &&& 0x01 = 0x01 then low >>> 1 ||| 0x80 else low >>> 1) := by
  apply BitVec.eq_of_toNat_eq
  rw [BitVec.toNat_ushiftRight, joined_toNat, joined_toNat, (low_shifted high).1,
    Nat.shiftRight_eq_div_pow]
  have small := low.toNat_lt
  by_cases odd : high &&& 0x01 = 0x01
  · rw [if_pos odd, (low_shifted low).2]
    have := (lowest_bit high).mp odd
    omega
  · rw [if_neg odd, (low_shifted low).1]
    have := (lowest_bit high).not.mp odd
    omega

theorem joined_bit (crc : CrcHalves) :
    joined (crc16Bit crc).hi (crc16Bit crc).lo =
      ShiftRegister.shift polynomial (joined crc.hi crc.lo) := by
  have first : (joined crc.hi crc.lo).getLsbD 0 = true ↔ crc.lo &&& 0x01 = 0x01 := by
    rw [lowest_bit, BitVec.getLsbD, joined_toNat, Nat.testBit_zero, decide_eq_true_iff]
    omega
  rw [ShiftRegister.shift, joined_shifted]
  by_cases odd : crc.lo &&& 0x01 = 0x01
  · rw [if_pos (first.mpr odd)]
    have halves : polynomial = joined 0xA0 0x01 := by decide
    rw [halves, ← joined_xor]
    simp only [crc16Bit, odd, if_true]
  · rw [if_neg (first.not.mpr odd)]
    simp only [crc16Bit, odd, if_false]

/-- `Crc16` takes one byte as the shift register does. -/
theorem joined_step (crc : CrcHalves) (byte : UInt8) :
    joined (crc16Step crc byte).hi (crc16Step crc byte).lo =
      ShiftRegister.absorb polynomial (joined crc.hi crc.lo) byte.toBitVec := by
  have bits : ∀ (n : Nat) (halves : CrcHalves),
      joined (crc16Bit^[n] halves).hi (crc16Bit^[n] halves).lo =
        (ShiftRegister.shift polynomial)^[n] (joined halves.hi halves.lo) := by
    intro n
    induction n with
    | zero => exact fun _ => rfl
    | succ n ih =>
        intro halves
        rw [Function.iterate_succ_apply, Function.iterate_succ_apply, ih, joined_bit]
  have mixed : joined crc.hi (crc.lo ^^^ byte) = joined crc.hi crc.lo ^^^ joined 0 byte := by
    rw [← joined_xor, UInt8.xor_zero]
  rw [crc16Step, bits, ShiftRegister.absorb, joined_symbol, mixed]

/-- The tables hold what eight shifts make of a byte. -/
theorem tables_hold : ShiftRegister.Tabulates polynomial fun symbol : BitVec 8 =>
    joined (auchCRCLo.getD symbol.toNat 0) (auchCRCHi.getD symbol.toNat 0) := by
  have every : ∀ n : Fin 256,
      joined (auchCRCLo.getD n.val 0) (auchCRCHi.getD n.val 0) =
        (ShiftRegister.shift polynomial)^[8] ((BitVec.ofFin n : BitVec 8).setWidth 16) := by
    decide +kernel
  exact fun symbol => every symbol.toFin

/-- `Get_Crc16` takes one byte as the shift register does, its halves exchanged. -/
theorem joined_table_step (crc : CrcHalves) (byte : UInt8) :
    joined (getCrc16Step crc byte).lo (getCrc16Step crc byte).hi =
      ShiftRegister.absorb polynomial (joined crc.lo crc.hi) byte.toBitVec := by
  rw [ShiftRegister.absorb_table polynomial _ tables_hold (by decide), joined_low, joined_high,
    ← UInt8.toBitVec_xor, UInt8.toNat_toBitVec, ← joined_xor, UInt8.xor_zero]
  rw [getCrc16Step, UInt8.xor_comm crc.lo]

/-! The message. -/

theorem crc16_register (message : Bytes) (crc : CrcHalves) :
    joined (message.foldl crc16Step crc).hi (message.foldl crc16Step crc).lo =
      ShiftRegister.crc polynomial (joined crc.hi crc.lo) (message.map UInt8.toBitVec) := by
  induction message generalizing crc with
  | nil => rfl
  | cons byte rest ih =>
      rw [List.foldl_cons, ih, joined_step]
      rfl

theorem getCrc16_register (message : Bytes) (crc : CrcHalves) :
    joined (message.foldl getCrc16Step crc).lo (message.foldl getCrc16Step crc).hi =
      ShiftRegister.crc polynomial (joined crc.lo crc.hi) (message.map UInt8.toBitVec) := by
  induction message generalizing crc with
  | nil => rfl
  | cons byte rest ih =>
      rw [List.foldl_cons, ih, joined_table_step]
      rfl

theorem counted (message : Bytes) (short : message.length < 65536) :
    message.take (UInt16.ofNat message.length).toNat = message := by
  rw [UInt16.toNat_ofNat_of_lt' short, List.take_length]

/-- The table driven check with its bytes swapped is the bitwise one, and both are the
reflected CRC-16. -/
theorem crc16_functions_agree (message : Bytes) (short : message.length < 65536) :
    swapped (getCrc16 message (UInt16.ofNat message.length)) =
        crc16 message (UInt16.ofNat message.length) ∧
      (crc16 message (UInt16.ofNat message.length)).toBitVec = reflectedCrc message := by
  have bitwise : (crc16 message (UInt16.ofNat message.length)).toBitVec = reflectedCrc message := by
    rw [crc16, counted message short, result_joined, crc16_register]
    rfl
  have driven : (swapped (getCrc16 message (UInt16.ofNat message.length))).toBitVec =
      reflectedCrc message := by
    rw [getCrc16, counted message short, swapped_result, result_joined, getCrc16_register]
    rfl
  exact ⟨UInt16.toBitVec_inj.mp (driven.trans bitwise.symm), bitwise⟩

/-- The text `123456789`. -/
theorem crc16_functions_agree_applies :
    swapped (getCrc16 ("123456789".toList.map Char.toUInt8) 9) =
        crc16 ("123456789".toList.map Char.toUInt8) 9 ∧
      (crc16 ("123456789".toList.map Char.toUInt8) 9).toBitVec =
        reflectedCrc ("123456789".toList.map Char.toUInt8) :=
  crc16_functions_agree ("123456789".toList.map Char.toUInt8) (by decide)

end EChainLib.Codec
