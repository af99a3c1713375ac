import Mathlib
import EChainLib.Codec.Sm3

/-! `sm3_hmac` and its three parts, which keep the pads of the key in the context that they
hash with. -/

namespace EChainLib.Codec.Sm3

open EChainLib.Keys (Bytes)
open EChainLib.BlockStream

section Source

variable (sm3Process : State → Bytes → State)

/-- `Sm3::sm3`; `ctx` is a local variable without initialiser. -/
def sm3 (ctx : Context) (input : Bytes) (ilen : Int32) : Bytes :=
  (sm3Finish sm3Process (sm3Update sm3Process (sm3Starts ctx) input ilen)).2

def xorAt (key : Bytes) (pad : Vector UInt8 64) (i : Nat) : Vector UInt8 64 :=
  Vector.ofFn fun k => if k.val = i then pad.get k ^^^ key.getD i 0 else pad.get k

/-- `memset`, and the loop over the key. -/
def setPads (ctx : Context) (key : Bytes) (keylen : Int32) : Context :=
  (List.range keylen.toNatClampNeg).foldl
    (fun ctx i => { ctx with ipad := xorAt key ctx.ipad i, opad := xorAt key ctx.opad i })
    { ctx with ipad := Vector.replicate 64 0x36, opad := Vector.replicate 64 0x5C }

/-- `inner` is the context in the frame of `sm3`. -/
def sm3HmacStarts (inner ctx : Context) (key : Bytes) (keylen : Int32) : Context :=
  let (key, keylen) := if 64 < keylen then (sm3 sm3Process inner key keylen, 32) else (key, keylen)
  let ctx := sm3Starts (setPads ctx key keylen)
  sm3Update sm3Process ctx ctx.ipad.toList 64

def sm3HmacUpdate (ctx : Context) (input : Bytes) (ilen : Int32) : Context :=
  sm3Update sm3Process ctx input ilen

/-- The context, and `output`. -/
def sm3HmacFinish (ctx : Context) : Context × Bytes :=
  let (ctx, tmpbuf) := sm3Finish sm3Process ctx
  let ctx := sm3Starts ctx
  let ctx := sm3Update sm3Process ctx ctx.opad.toList 64
  let ctx := sm3Update sm3Process ctx tmpbuf 32
  sm3Finish sm3Process ctx

def sm3Hmac (inner ctx : Context) (key : Bytes) (keylen : Int32) (input : Bytes) (ilen : Int32) :
    Bytes :=
  let ctx := sm3HmacStarts sm3Process inner ctx key keylen
  let ctx := sm3HmacUpdate sm3Process ctx input ilen
  (sm3HmacFinish sm3Process ctx).2

end Source

/-! The construction. -/

section Construction

variable (sm3Process : State → Bytes → State)

/-- A key of more than a block is hashed; what is short of a block is filled with zeros. -/
def blockKey (key : Bytes) : Bytes :=
  let key := if 64 < key.length then hash sm3Process key else key
  key ++ List.replicate (64 - key.length) 0

def hmac (key message : Bytes) : Bytes :=
  hash sm3Process ((blockKey sm3Process key).map (· ^^^ 0x5C) ++
    hash sm3Process ((blockKey sm3Process key).map (· ^^^ 0x36) ++ message))

end Construction

variable (sm3Process : State → Bytes → State)

/-! The pads. -/

@[simp] theorem sm3Update_opad (ctx : Context) (input : Bytes) (ilen : Int32) :
    (sm3Update sm3Process ctx input ilen).opad = ctx.opad := by
  rw [sm3Update]
  split <;> rfl

@[simp] theorem sm3Finish_opad (ctx : Context) : (sm3Finish sm3Process ctx).1.opad = ctx.opad := by
  simp [sm3Finish]

/-- The loop reaches every byte of the key once. -/
theorem xorAt_range (key : Bytes) (pad : Vector UInt8 64) (count : Nat) (k : Fin 64) :
    ((List.range count).foldl (xorAt key) pad).get k =
      if k.val < count then pad.get k ^^^ key.getD k 0 else pad.get k := by
  induction count with
  | zero => rfl
  | succ count ih =>
      rw [List.range_succ, List.foldl_append, List.foldl_cons, List.foldl_nil, xorAt,
        Vector.get_ofFn, ih]
      -- the byte of this round has not been reached before
      by_cases last : k.val = count
      · rw [if_pos last, if_neg (by omega), if_pos (by omega), last]
      · rw [if_neg last]
        by_cases below : k.val < count
        · rw [if_pos below, if_pos (by omega)]
        · rw [if_neg below, if_neg (by omega)]

/-- Both pads are changed in one loop. -/
theorem pads_loop (ctx : Context) (key : Bytes) (indices : List Nat) :
    indices.foldl (fun ctx i => { ctx with ipad := xorAt key ctx.ipad i, opad := xorAt key ctx.opad i })
        ctx =
      { ctx with ipad := indices.foldl (xorAt key) ctx.ipad,
                 opad := indices.foldl (xorAt key) ctx.opad } := by
  induction indices generalizing ctx with
  | nil => rfl
  | cons i rest ih => simp only [List.foldl_cons, ih]

/-- A pad is the padded key with one byte mixed in everywhere. -/
theorem pad_eq (key : Bytes) (byte : UInt8) (short : key.length ≤ 64) :
    ((List.range key.length).foldl (xorAt key) (Vector.replicate 64 byte)).toList =
      (key ++ List.replicate (64 - key.length) 0).map (· ^^^ byte) := by
  apply List.ext_getElem
  · simp only [Vector.length_toList, List.length_map, List.length_append, List.length_replicate]
    omega
  · intro k inside _
    rw [Vector.length_toList] at inside
    have value := xorAt_range key (Vector.replicate 64 byte) key.length ⟨k, inside⟩
    have filler : (Vector.replicate 64 byte).get ⟨k, inside⟩ = byte :=
      Vector.getElem_replicate inside
    rw [filler] at value
    rw [Vector.getElem_toList, List.getElem_map]
    refine Eq.trans value ?_
    by_cases below : k < key.length
    · rw [if_pos below, List.getElem_append_left below, List.getD_eq_getElem _ _ below,
        UInt8.xor_comm]
    · rw [if_neg below, List.getElem_append_right (not_lt.mp below), List.getElem_replicate,
        UInt8.zero_xor]

theorem hash_length (message : Bytes) : (hash sm3Process message).length = 32 := by
  have four : ∀ word, (putUlongBe word).length = 4 := fun _ => rfl
  simp [hash, List.length_flatMap, four]

/-! The context. -/

/-- The key that the loop sees. -/
theorem sm3_short (inner : Context) (key : Bytes) (keylen : Int32)
    (counted : keylen.toInt = key.length) :
    sm3 sm3Process inner key keylen = hash sm3Process key :=
  ((Holds.start sm3Process inner).whole sm3Process key keylen counted).finish sm3Process

theorem setPads_eq (ctx : Context) (key : Bytes) (keylen : Int32)
    (counted : keylen.toInt = key.length) (short : key.length ≤ 64) :
    (setPads ctx key keylen).ipad.toList =
        (key ++ List.replicate (64 - key.length) 0).map (· ^^^ 0x36) ∧
      (setPads ctx key keylen).opad.toList =
        (key ++ List.replicate (64 - key.length) 0).map (· ^^^ 0x5C) := by
  rw [setPads, pads_loop, (length_casts keylen _ counted).1]
  exact ⟨pad_eq key 0x36 short, pad_eq key 0x5C short⟩

/-- A long key is pointed at its digest, and the pads are made of that. -/
theorem sm3HmacStarts_holds (inner ctx : Context) (key : Bytes) (keylen : Int32)
    (counted : keylen.toInt = key.length) :
    Holds sm3Process (sm3HmacStarts sm3Process inner ctx key keylen)
        ((blockKey sm3Process key).map (· ^^^ 0x36)) ∧
      (sm3HmacStarts sm3Process inner ctx key keylen).opad.toList =
        (blockKey sm3Process key).map (· ^^^ 0x5C) := by
  -- the key that the loop sees has a block at most
  have pads : ∃ used usedlen, (if 64 < keylen then (sm3 sm3Process inner key keylen, 32)
      else (key, keylen)) = (used, usedlen) ∧ usedlen.toInt = used.length ∧ used.length ≤ 64 ∧
        blockKey sm3Process key = used ++ List.replicate (64 - used.length) 0 := by
    have limit : (64 : Int32).toInt = 64 := rfl
    by_cases long : 64 < key.length
    · have taken : 64 < keylen := by
        rw [Int32.lt_iff_toInt_lt, counted, limit]
        omega
      have digest := hash_length sm3Process key
      refine ⟨hash sm3Process key, 32, ?_, by rw [digest]; rfl, by omega, ?_⟩
      · rw [if_pos taken, sm3_short sm3Process inner key keylen counted]
      · rw [blockKey, if_pos long]
    · have kept : ¬ 64 < keylen := by
        rw [Int32.lt_iff_toInt_lt, counted, limit]
        omega
      refine ⟨key, keylen, if_neg kept, counted, by omega, ?_⟩
      rw [blockKey, if_neg long]
  obtain ⟨used, usedlen, chosen, used_counted, short, padded⟩ := pads
  obtain ⟨ipad, opad⟩ := setPads_eq ctx used usedlen used_counted short
  rw [sm3HmacStarts, chosen, padded]
  refine ⟨?_, ?_⟩
  · have begun := Holds.start sm3Process (setPads ctx used usedlen)
    have first := begun.whole sm3Process (setPads ctx used usedlen).ipad.toList 64
      (by rw [Vector.length_toList]; rfl)
    rw [List.nil_append] at first
    rw [← ipad]
    exact first
  · rw [← opad]
    exact congrArg Vector.toList (sm3Update_opad sm3Process _ _ _)

theorem updates_opad (ctx : Context) (chunks : List Bytes) :
    (chunks.foldl (update sm3Process) ctx).opad = ctx.opad := by
  induction chunks generalizing ctx with
  | nil => rfl
  | cons chunk rest ih => rw [List.foldl_cons, ih, update, sm3Update_opad]

/-- The context is started again, and the outer pad is still in it. -/
theorem sm3HmacFinish_eq (ctx : Context) (text : Bytes) (holds : Holds sm3Process ctx text) :
    (sm3HmacFinish sm3Process ctx).2 =
      hash sm3Process (ctx.opad.toList ++ hash sm3Process text) := by
  -- the inner digest is copied out before the context is used again
  have tmpbuf := holds.finish sm3Process
  have begun := Holds.start sm3Process (sm3Finish sm3Process ctx).1
  have outer := begun.whole sm3Process (sm3Finish sm3Process ctx).1.opad.toList 64
    (by rw [Vector.length_toList]; rfl)
  have digest := outer.whole sm3Process (hash sm3Process text) 32 (by rw [hash_length]; rfl)
  rw [List.nil_append] at digest
  rw [sm3HmacFinish, ← sm3Finish_opad sm3Process ctx, ← tmpbuf]
  rw [← tmpbuf] at digest
  exact digest.finish sm3Process

theorem hmac_sm3_exact (inner ctx : Context) (key : Bytes) (keylen : Int32)
    (counted : keylen.toInt = key.length) :
    (∀ chunks : List Bytes, (∀ chunk ∈ chunks, chunk.length < 2 ^ 31) →
      (sm3HmacFinish sm3Process
        (chunks.foldl (fun ctx chunk => sm3HmacUpdate sm3Process ctx chunk (Int32.ofNat chunk.length))
          (sm3HmacStarts sm3Process inner ctx key keylen))).2 =
        hmac sm3Process key chunks.flatten) ∧
    ∀ (input : Bytes) (ilen : Int32), ilen.toInt = input.length →
      sm3Hmac sm3Process inner ctx key keylen input ilen = hmac sm3Process key input := by
  obtain ⟨holds, opad⟩ := sm3HmacStarts_holds sm3Process inner ctx key keylen counted
  refine ⟨fun chunks short => ?_, fun input ilen given => ?_⟩
  · have read := holds.updates sm3Process chunks short
    have finished := sm3HmacFinish_eq sm3Process _ _ read
    rw [updates_opad, opad] at finished
    exact finished
  · have read := holds.whole sm3Process input ilen given
    have finished := sm3HmacFinish_eq sm3Process _ _ read
    rw [sm3Update_opad, opad] at finished
    exact finished

theorem hmac_sm3_exact_applies :
    (sm3HmacFinish lengthOnly
      ([[0x61], [], [0x62, 0x63]].foldl
        (fun ctx chunk => sm3HmacUpdate lengthOnly ctx chunk (Int32.ofNat chunk.length))
        (sm3HmacStarts lengthOnly blank blank [0x6b, 0x65, 0x79] 3))).2 =
      hmac lengthOnly [0x6b, 0x65, 0x79] [0x61, 0x62, 0x63] ∧
    sm3Hmac lengthOnly blank blank [0x6b, 0x65, 0x79] 3 [0x61, 0x62, 0x63] 3 =
      hmac lengthOnly [0x6b, 0x65, 0x79] [0x61, 0x62, 0x63] :=
  have parts := hmac_sm3_exact lengthOnly blank blank [0x6b, 0x65, 0x79] 3 rfl
  ⟨parts.1 [[0x61], [], [0x62, 0x63]] (by decide), parts.2 [0x61, 0x62, 0x63] 3 rfl⟩

end EChainLib.Codec.Sm3
