import Mathlib
import EChainLib.Keys.KeyElement
import EChainLib.Support.BlockStream
import EChainLib.Support.Words

/-! `utils::Sm3` for any compression function: the context that takes a message in pieces,
and the calls that hash one at once. -/

namespace EChainLib.Codec.Sm3

open EChainLib.Keys (Bytes)
open EChainLib.BlockStream

/-- `unsigned long state[8]`. -/
abbrev State := Vector UInt64 8

/-- `sm3_context`. -/
structure Context where
  total : UInt64 × UInt64
  state : State
  buffer : Vector UInt8 64
  ipad : Vector UInt8 64
  opad : Vector UInt8 64

def initial : State :=
  #v[0x7380166F, 0x4914B2B9, 0x172442D7, 0xDA8A0600, 0xA96F30BC, 0x163138AA, 0xE38DEE4D, 0xB0FB0E4E]

/-- The buffer and the pads keep what they hold. -/
def sm3Starts (ctx : Context) : Context := { ctx with total := (0, 0), state := initial }

def memcpy (dest : Vector UInt8 64) (offset : Nat) (src : Bytes) : Vector UInt8 64 :=
  Vector.ofFn fun i => if i < offset then dest.get i else src.getD (i - offset) (dest.get i)

variable (sm3Process : State → Bytes → State)

/-- `while (ilen >= 64)`: the state, and the input that is left. -/
def processBlocks (state : State) (input : Bytes) : State × Bytes :=
  if 64 ≤ input.length then processBlocks (sm3Process state (input.take 64)) (input.drop 64)
  else (state, input)
termination_by input.length
decreasing_by
  rw [List.length_drop]
  omega

/-- The local variables of `sm3_update`, and what it changes of the context. -/
structure Work where
  state : State
  buffer : Vector UInt8 64
  left : Nat
  input : Bytes

/-- A block that waits is filled up and processed. -/
def fillBuffer (work : Work) : Work :=
  let fill := 64 - work.left
  if work.left ≠ 0 ∧ fill ≤ work.input.length then
    let buffer := memcpy work.buffer work.left (work.input.take fill)
    ⟨sm3Process work.state buffer.toList, buffer, 0, work.input.drop fill⟩
  else work

def processInput (work : Work) : Work :=
  let whole := processBlocks sm3Process work.state work.input
  let buffer :=
    if 0 < whole.2.length then memcpy work.buffer work.left whole.2 else work.buffer
  ⟨whole.1, buffer, work.left, whole.2⟩

/-- Of `input` the call reads `ilen` bytes. -/
def sm3Update (ctx : Context) (input : Bytes) (ilen : Int32) : Context :=
  if ilen ≤ 0 then ctx
  else
    let left := (ctx.total.1 &&& 0x3F).toNat
    let low := (ctx.total.1 + ilen.toInt64.toUInt64) &&& 0xFFFFFFFF
    let high := if low < ilen.toUInt32.toUInt64 then ctx.total.2 + 1 else ctx.total.2
    let work := processInput sm3Process
      (fillBuffer sm3Process ⟨ctx.state, ctx.buffer, left, input.take ilen.toNatClampNeg⟩)
    { ctx with total := (low, high), state := work.state, buffer := work.buffer }

def sm3Padding : Bytes := 0x80 :: List.replicate 63 0

/-- `PUT_ULONG_BE`. -/
def putUlongBe (n : UInt64) : Bytes :=
  [(n >>> 24).toUInt8, (n >>> 16).toUInt8, (n >>> 8).toUInt8, n.toUInt8]

/-- The context, and `output`. -/
def sm3Finish (ctx : Context) : Context × Bytes :=
  let high := ((ctx.total.1 >>> 29) ||| (ctx.total.2 <<< 3)).toUInt32
  let low := (ctx.total.1 <<< 3).toUInt32
  let msglen := putUlongBe high.toUInt64 ++ putUlongBe low.toUInt64
  let last := (ctx.total.1 &&& 0x3F).toUInt32
  let padn := if last < 56 then 56 - last else 120 - last
  let ctx := sm3Update sm3Process ctx sm3Padding padn.toInt32
  let ctx := sm3Update sm3Process ctx msglen 8
  (ctx, ctx.state.toList.flatMap putUlongBe)

/-- The length of the string is narrowed to the `int` of `sm3_update`. -/
def update (ctx : Context) (input : Bytes) : Context :=
  sm3Update sm3Process ctx input (Int32.ofNat input.length)

def final (ctx : Context) : Bytes := (sm3Finish sm3Process ctx).2

/-- `Sm3::Crypto`; `sm3` is a local variable without initialiser. -/
def crypto (sm3 : Context) (input : Bytes) : Bytes :=
  final sm3Process (update sm3Process (sm3Starts sm3) input)

/-! The standard: a padded message is folded block by block. -/

/-- The number of bits, in eight bytes. -/
def bitLength (message : Bytes) : Bytes :=
  [56, 48, 40, 32, 24, 16, 8, 0].map fun place => UInt8.ofNat (8 * message.length / 2 ^ place)

def zeros (length : Nat) : Nat := (119 - length % 64) % 64

def padding (message : Bytes) : Bytes :=
  0x80 :: List.replicate (zeros message.length) 0 ++ bitLength message

def hash (message : Bytes) : Bytes :=
  (fold sm3Process 64 initial (message ++ padding message)).toList.flatMap putUlongBe

/-! The buffer. -/

theorem memcpy_take (dest : Vector UInt8 64) (offset : Nat) (src : Bytes)
    (inside : offset + src.length ≤ 64) :
    (memcpy dest offset src).toList.take (offset + src.length) = dest.toList.take offset ++ src := by
  apply List.ext_getElem
  · simp only [List.length_take, Vector.length_toList, List.length_append]
    omega
  · intro i below there
    have front : (dest.toList.take offset).length = offset := by
      rw [List.length_take, Vector.length_toList, Nat.min_eq_left (by omega)]
    simp only [memcpy, List.getElem_take, Vector.getElem_toList, Vector.getElem_ofFn]
    by_cases kept : i < offset
    · rw [if_pos kept, List.getElem_append_left (by rwa [front]), List.getElem_take,
        Vector.getElem_toList]
      rfl
    · rw [List.length_append, front] at there
      rw [if_neg kept, List.getElem_append_right (by omega), List.getD_eq_getElem _ _ (by omega)]
      simp only [front]

theorem memcpy_full (dest : Vector UInt8 64) (offset : Nat) (src : Bytes)
    (full : offset + src.length = 64) :
    (memcpy dest offset src).toList = dest.toList.take offset ++ src := by
  rw [← memcpy_take dest offset src full.le, full, List.take_of_length_le Vector.length_toList.le]

theorem processBlocks_eq (state : State) (input : Bytes) :
    processBlocks sm3Process state input = (fold sm3Process 64 state input, (split 64 input).2) := by
  fun_induction processBlocks sm3Process state input with
  | case1 state input whole ih => rw [ih, fold, fold, split_whole input whole, List.foldl_cons]
  | case2 state input short => rw [fold, split_short input (not_le.mp short), List.foldl_nil]

/-- The bytes that wait are at the front of the buffer. -/
structure Waits (work : Work) (pending : Bytes) : Prop where
  left : work.left = pending.length
  front : work.buffer.toList.take pending.length = pending

theorem fillBuffer_waits (work : Work) (pending : Bytes) (short : pending.length < 64)
    (waits : Waits work pending) :
    ∃ rest, Waits (fillBuffer sm3Process work) rest ∧
      (rest = [] ∨ rest.length + (fillBuffer sm3Process work).input.length < 64) ∧
      fold sm3Process 64 (fillBuffer sm3Process work).state
          (rest ++ (fillBuffer sm3Process work).input) =
        fold sm3Process 64 work.state (pending ++ work.input) ∧
      (split 64 (rest ++ (fillBuffer sm3Process work).input)).2 =
        (split 64 (pending ++ work.input)).2 := by
  obtain ⟨left, front⟩ := waits
  rw [fillBuffer, left]
  by_cases full : pending.length ≠ 0 ∧ 64 - pending.length ≤ work.input.length
  · -- the block is filled up and goes to the fold, nothing waits any more
    rw [if_pos full]
    have reaches : pending.length + (work.input.take (64 - pending.length)).length = 64 := by
      rw [List.length_take, Nat.min_eq_left full.2]
      omega
    have block : (memcpy work.buffer pending.length
        (work.input.take (64 - pending.length))).toList = (pending ++ work.input).take 64 := by
      rw [memcpy_full _ _ _ reaches, front, List.take_append, List.take_of_length_le short.le]
    have behind : work.input.drop (64 - pending.length) = (pending ++ work.input).drop 64 := by
      rw [List.drop_append, List.drop_eq_nil_of_le short.le, List.nil_append]
    have whole : 64 ≤ (pending ++ work.input).length := by
      rw [List.length_append]
      omega
    dsimp only
    refine ⟨[], ⟨rfl, rfl⟩, Or.inl rfl, ?_, ?_⟩
    · rw [block, behind, List.nil_append, fold, fold, split_whole _ whole, List.foldl_cons]
    · rw [behind, List.nil_append, split_whole _ whole]
  · rw [if_neg full]
    -- either nothing has waited, or the input does not fill the block
    refine ⟨pending, ⟨left, front⟩, ?_, rfl, rfl⟩
    rcases Nat.eq_zero_or_pos pending.length with empty | positive
    · exact Or.inl (List.eq_nil_of_length_eq_zero empty)
    · exact Or.inr (by omega)

/-- The bytes that wait are followed by what is left of the input. -/
theorem split_filled (state : State) (pending input : Bytes)
    (filled : pending = [] ∨ pending.length + input.length < 64) :
    (split 64 (pending ++ input)).2 = pending ++ (split 64 input).2 ∧
      fold sm3Process 64 state (pending ++ input) = fold sm3Process 64 state input := by
  rcases filled with rfl | short
  · exact ⟨rfl, rfl⟩
  · have together : (pending ++ input).length < 64 := by rwa [List.length_append]
    have alone : input.length < 64 := by omega
    rw [fold, fold, split_short _ together, split_short _ alone]
    exact ⟨rfl, rfl⟩

theorem processInput_waits (work : Work) (pending : Bytes) (waits : Waits work pending)
    (filled : pending = [] ∨ pending.length + work.input.length < 64) :
    (processInput sm3Process work).state = fold sm3Process 64 work.state (pending ++ work.input) ∧
      (processInput sm3Process work).buffer.toList.take (split 64 (pending ++ work.input)).2.length =
        (split 64 (pending ++ work.input)).2 := by
  obtain ⟨left, front⟩ := waits
  obtain ⟨behind, folded⟩ := split_filled sm3Process work.state pending work.input filled
  have inside := split_left_short (n := 64) (pending ++ work.input)
  rw [behind] at inside ⊢
  rw [List.length_append] at inside
  rw [processInput, processBlocks_eq, left, folded, List.length_append]
  refine ⟨rfl, ?_⟩
  by_cases more : 0 < (split 64 work.input).2.length
  · dsimp only
    rw [if_pos more, memcpy_take _ _ _ inside.le, front]
  · have none_left := List.eq_nil_of_length_eq_zero (Nat.eq_zero_of_not_pos more)
    dsimp only
    rw [if_neg more, none_left, List.length_nil, Nat.add_zero, List.append_nil]
    exact front

/-! The context. -/

/-- A context holds a text: it has counted its bytes, and stands where the stream of its
blocks stands. -/
structure Holds (ctx : Context) (text : Bytes) : Prop where
  low : ctx.total.1.toNat = text.length % 2 ^ 32
  high : ctx.total.2.toNat = text.length / 2 ^ 32 % 2 ^ 64
  state : ctx.state = fold sm3Process 64 initial text
  front : ctx.buffer.toList.take (split 64 text).2.length = (split 64 text).2

theorem Holds.start (ctx : Context) : Holds sm3Process (sm3Starts ctx) [] := by
  refine ⟨rfl, rfl, ?_, ?_⟩
  · rw [fold, split_short [] (by decide)]
    rfl
  · rw [split_short [] (by decide)]
    rfl

/-- The count is carried where the low word wraps. -/
theorem count_carried (low high : UInt64) (length added : Nat) (count : UInt64)
    (low_counted : low.toNat = length % 2 ^ 32) (high_counted : high.toNat = length / 2 ^ 32 % 2 ^ 64)
    (counted : count.toNat = added) (small : added < 2 ^ 31) :
    ((low + count) &&& 0xFFFFFFFF).toNat = (length + added) % 2 ^ 32 ∧
      (if (low + count) &&& 0xFFFFFFFF < count then high + 1 else high).toNat =
        (length + added) / 2 ^ 32 % 2 ^ 64 := by
  have sum : ((low + count) &&& 0xFFFFFFFF).toNat = (length + added) % 2 ^ 32 := by
    rw [Words.toNat_mask _ 0xFFFFFFFF 32 rfl, UInt64.toNat_add]
    omega
  refine ⟨sum, ?_⟩
  by_cases wrapped : (low + count) &&& 0xFFFFFFFF < count
  · rw [if_pos wrapped]
    rw [UInt64.lt_iff_toNat_lt, sum] at wrapped
    rw [UInt64.toNat_add, UInt64.toNat_one]
    omega
  · rw [if_neg wrapped]
    rw [UInt64.lt_iff_toNat_lt, sum] at wrapped
    omega

/-- The three casts of a length that is not negative. -/
theorem length_casts (ilen : Int32) (length : Nat) (counted : ilen.toInt = length) :
    ilen.toNatClampNeg = length ∧ ilen.toInt64.toUInt64.toNat = length ∧
      ilen.toUInt32.toUInt64 = ilen.toInt64.toUInt64 := by
  have wide : ilen.toInt64.toUInt64.toNat = length :=
    Words.toNat_toUInt64 _ length ((Int32.toInt_toInt64 ilen).trans counted)
  refine ⟨by rw [← Int32.toNat_toInt, counted, Int.toNat_natCast], wide, UInt64.toNat_inj.mp ?_⟩
  rw [UInt32.toNat_toUInt64, Words.toNat_toUInt32 ilen length counted, wide]

/-- Bytes that wait are counted by the last six bits. -/
theorem Holds.left {ctx : Context} {text : Bytes} (holds : Holds sm3Process ctx text) :
    (ctx.total.1 &&& 0x3F).toNat = (split 64 text).2.length := by
  rw [Words.toNat_mask _ 0x3F 6 rfl, holds.low, split_left_length]
  omega

/-- One call, which reads no byte of the input where its length is not positive. -/
theorem Holds.update {ctx : Context} {text : Bytes} (holds : Holds sm3Process ctx text)
    (input : Bytes) (ilen : Int32) (within : ilen.toInt ≤ input.length) :
    Holds sm3Process (sm3Update sm3Process ctx input ilen)
      (text ++ input.take ilen.toNatClampNeg) := by
  rw [sm3Update]
  by_cases nothing : ilen ≤ 0
  · have read : ilen.toNatClampNeg = 0 := Int32.toNatClampNeg_eq_zero_iff.mpr nothing
    rw [if_pos nothing, read, List.take_zero, List.append_nil]
    exact holds
  · rw [if_neg nothing]
    have counted : ilen.toInt = (input.take ilen.toNatClampNeg).length := by
      have positive := Int32.lt_iff_toInt_lt.mp (Int32.not_le.mp nothing)
      rw [Int32.toInt_zero] at positive
      rw [List.length_take, ← Int32.toNat_toInt]
      omega
    obtain ⟨-, wide, same⟩ := length_casts ilen _ counted
    have small : (input.take ilen.toNatClampNeg).length < 2 ^ 31 := by
      have bound := ilen.toInt_lt
      omega
    generalize input.take ilen.toNatClampNeg = chunk at wide small
    have waits : Waits ⟨ctx.state, ctx.buffer, (ctx.total.1 &&& 0x3F).toNat, chunk⟩
        (split 64 text).2 := ⟨holds.left, holds.front⟩
    -- the three copy paths, each read on the stream of blocks
    obtain ⟨rest, rest_waits, filled, folded, behind⟩ :=
      fillBuffer_waits sm3Process _ _ (split_left_short text) waits
    obtain ⟨state, front⟩ := processInput_waits sm3Process _ rest rest_waits filled
    obtain ⟨low, high⟩ := count_carried ctx.total.1 ctx.total.2 text.length chunk.length _
      holds.low holds.high wide small
    rw [← List.length_append] at low high
    rw [same]
    refine ⟨low, high, ?_, ?_⟩
    · rw [fold_append, ← holds.state]
      exact state.trans folded
    · rw [split_append text chunk]
      rw [behind] at front
      exact front

theorem Holds.whole {ctx : Context} {text : Bytes} (holds : Holds sm3Process ctx text)
    (input : Bytes) (ilen : Int32) (counted : ilen.toInt = input.length) :
    Holds sm3Process (sm3Update sm3Process ctx input ilen) (text ++ input) := by
  have read := holds.update sm3Process input ilen counted.le
  rwa [(length_casts ilen _ counted).1, List.take_length] at read

/-- Every way of cutting a text. -/
theorem Holds.updates {ctx : Context} {text : Bytes} (holds : Holds sm3Process ctx text)
    (chunks : List Bytes) (short : ∀ chunk ∈ chunks, chunk.length < 2 ^ 31) :
    Holds sm3Process (chunks.foldl (Sm3.update sm3Process) ctx) (text ++ chunks.flatten) := by
  induction chunks generalizing ctx text with
  | nil =>
      rw [List.flatten_nil, List.append_nil]
      exact holds
  | cons chunk rest ih =>
      have counted : (Int32.ofNat chunk.length).toInt = chunk.length :=
        Int32.toInt_ofNat_of_lt (short chunk List.mem_cons_self)
      have next := ih (holds.whole sm3Process chunk _ counted)
        (fun later member => short later (List.mem_cons_of_mem _ member))
      rwa [List.append_assoc] at next

/-! The end of a message. -/

theorem putUlongBe_eq (word : UInt64) :
    putUlongBe word = [24, 16, 8, 0].map fun place => UInt8.ofNat (word.toNat / 2 ^ place) := by
  have last : word.toUInt8 = UInt8.ofNat (word.toNat / 2 ^ 0) := by
    apply UInt8.toNat_inj.mp
    rw [UInt64.toNat_toUInt8, UInt8.toNat_ofNat', pow_zero, Nat.div_one]
  rw [putUlongBe, Words.toUInt8_shiftRight word 24 (by decide),
    Words.toUInt8_shiftRight word 16 (by decide), Words.toUInt8_shiftRight word 8 (by decide), last]
  rfl

/-- The bytes of the two words are those of the number of bits. -/
theorem msglen_eq (low high : UInt64) (text : Bytes) (low_counted : low.toNat = text.length % 2 ^ 32)
    (high_counted : high.toNat = text.length / 2 ^ 32 % 2 ^ 64) :
    putUlongBe ((low >>> 29) ||| (high <<< 3)).toUInt32.toUInt64 ++
      putUlongBe (low <<< 3).toUInt32.toUInt64 = bitLength text := by
  have low_word : (low <<< 3).toUInt32.toUInt64.toNat = 8 * text.length / 2 ^ 0 % 2 ^ 32 := by
    rw [UInt32.toNat_toUInt64, UInt64.toNat_toUInt32, UInt64.toNat_shiftLeft, Nat.shiftLeft_eq,
      low_counted]
    have three : UInt64.toNat 3 % 64 = 3 := rfl
    rw [three]
    omega
  have high_word : ((low >>> 29) ||| (high <<< 3)).toUInt32.toUInt64.toNat =
      8 * text.length / 2 ^ 32 % 2 ^ 32 := by
    have three : UInt64.toNat 3 % 64 = 3 := rfl
    have places : UInt64.toNat 29 % 64 = 29 := rfl
    -- the three bits that leave the low word go where the high word has none
    have small : low.toNat / 2 ^ 29 < 2 ^ 3 := by
      rw [low_counted]
      omega
    have kept : high.toNat * 2 ^ 3 % 2 ^ 64 = (high.toNat % 2 ^ 61) <<< 3 := by
      rw [Nat.shiftLeft_eq]
      omega
    rw [UInt32.toNat_toUInt64, UInt64.toNat_toUInt32, UInt64.toNat_or, UInt64.toNat_shiftLeft,
      UInt64.toNat_shiftRight, three, places, Nat.shiftRight_eq_div_pow, Nat.shiftLeft_eq high.toNat,
      kept, Nat.or_comm, ← Nat.shiftLeft_add_eq_or_of_lt small, Nat.shiftLeft_eq, low_counted,
      high_counted]
    omega
  rw [putUlongBe_eq, putUlongBe_eq, low_word, high_word]
  have part := Words.byte_of_part (8 * text.length)
  simp only [List.map_cons, List.map_nil, List.cons_append, List.nil_append, bitLength]
  rw [part 32 24, part 32 16, part 32 8, part 32 0, part 0 24, part 0 16, part 0 8, part 0 0] <;>
    omega

theorem padding_eq (word : UInt64) (length : Nat) (counted : word.toNat = length % 64) :
    let padn := if word.toUInt32 < 56 then 56 - word.toUInt32 else 120 - word.toUInt32
    padn.toInt32.toInt = (zeros length + 1 : Nat) ∧
      sm3Padding.take (zeros length + 1) = 0x80 :: List.replicate (zeros length) 0 := by
  intro padn
  have last : word.toUInt32.toNat = length % 64 := by
    rw [UInt64.toNat_toUInt32, counted]
    omega
  have number : padn.toNat = zeros length + 1 := by
    rw [zeros]
    by_cases fits : word.toUInt32 < 56
    · have chosen : padn = 56 - word.toUInt32 := if_pos fits
      have below := UInt32.lt_iff_toNat_lt.mp fits
      have bound : UInt32.toNat 56 = 56 := rfl
      rw [chosen, UInt32.toNat_sub_of_le _ _ (UInt32.le_of_lt fits), last, bound]
      rw [last, bound] at below
      omega
    · have chosen : padn = 120 - word.toUInt32 := if_neg fits
      have bound : UInt32.toNat 120 = 120 := rfl
      have above := UInt32.lt_iff_toNat_lt.not.mp fits
      have least : UInt32.toNat 56 = 56 := rfl
      have order : word.toUInt32 ≤ 120 := UInt32.le_iff_toNat_le.mpr (by rw [last, bound]; omega)
      rw [chosen, UInt32.toNat_sub_of_le _ _ order, last, bound]
      rw [last, least] at above
      omega
  have short : zeros length < 64 := Nat.mod_lt _ (by decide)
  refine ⟨?_, ?_⟩
  · have cast : padn.toInt32 = Int32.ofNat padn.toNat := by
      rw [← UInt32.toInt32_ofNat', UInt32.ofNat_toNat]
    rw [cast, number, Int32.toInt_ofNat_of_lt (by omega)]
  · rw [sm3Padding, List.take_succ_cons, List.take_replicate, Nat.min_eq_left (by omega)]

theorem Holds.finish {ctx : Context} {text : Bytes} (holds : Holds sm3Process ctx text) :
    (sm3Finish sm3Process ctx).2 = hash sm3Process text := by
  have six : (ctx.total.1 &&& 0x3F).toNat = text.length % 64 := by
    rw [holds.left, split_left_length]
  obtain ⟨counted, taken⟩ := padding_eq _ text.length six
  have inside : zeros text.length < 64 := Nat.mod_lt _ (by decide)
  have room : sm3Padding.length = 64 := rfl
  -- the mark and the zeros, then the length that was counted before them
  have padded := holds.update sm3Process sm3Padding _ (by rw [counted, room]; omega)
  rw [(length_casts _ _ counted).1, taken] at padded
  have last := padded.whole sm3Process (bitLength text) 8 rfl
  rw [List.append_assoc] at last
  rw [sm3Finish, msglen_eq _ _ text holds.low holds.high]
  exact congrArg (fun state : State => state.toList.flatMap putUlongBe) last.state

/-! Hashing in pieces and at once. -/

theorem stream_hash (ctx : Context) (chunks : List Bytes)
    (short : ∀ chunk ∈ chunks, chunk.length < 2 ^ 31) :
    final sm3Process (chunks.foldl (update sm3Process) (sm3Starts ctx)) =
      hash sm3Process chunks.flatten :=
  ((Holds.start sm3Process ctx).updates sm3Process chunks short).finish sm3Process

/-- What `Crypto` hashes of a string. -/
theorem crypto_narrowed (sm3 : Context) (input : Bytes) :
    crypto sm3Process sm3 input =
      hash sm3Process (input.take (Int32.ofNat input.length).toNatClampNeg) := by
  have within : (Int32.ofNat input.length).toInt ≤ input.length := by
    have range : (Int32.size : Int) = 2 ^ 32 := rfl
    rw [Int32.toInt_ofNat', Int.bmod_def, range]
    omega
  exact ((Holds.start sm3Process sm3).update sm3Process input _ within).finish sm3Process

/-- A compression that keeps the last eight bytes of a block. -/
def lengthOnly (_ : State) (block : Bytes) : State :=
  Vector.ofFn fun i => (block.getD (56 + i) 0).toUInt64

/-- The last block ends with the number of bits. -/
theorem hash_lengthOnly (message : Bytes) :
    hash lengthOnly message = (bitLength message).flatMap fun byte => putUlongBe byte.toUInt64 := by
  have length : (message ++ 0x80 :: List.replicate (zeros message.length) 0).length =
      message.length + (zeros message.length + 1) := by simp
  have whole : message ++ padding message =
      message ++ 0x80 :: List.replicate (zeros message.length) 0 ++ bitLength message := by
    simp [padding]
  rw [hash, whole]
  -- what stands in front of the eight bytes ends 56 bytes into a block
  have aligned : 64 ∣ message.length + (zeros message.length + 1) - 56 := by
    rw [zeros]
    omega
  have room : 56 ≤ message.length + (zeros message.length + 1) := by
    rw [zeros]
    omega
  rw [← length] at aligned room
  generalize message ++ 0x80 :: List.replicate (zeros message.length) 0 = text at aligned room
  have tail : (text.drop (text.length - 56)).length = 56 := by
    rw [List.length_drop]
    omega
  have front : (text.take (text.length - 56)).length = text.length - 56 := by
    rw [List.length_take]
    omega
  have last := fold_last lengthOnly (n := 64) initial (text.take (text.length - 56))
    (text.drop (text.length - 56) ++ bitLength message) (by rwa [front])
    (by rw [List.length_append, tail]; rfl)
  rw [← List.append_assoc, List.take_append_drop] at last
  rw [last, lengthOnly]
  have kept : ∀ i : Fin 8,
      (text.drop (text.length - 56) ++ bitLength message).getD (56 + i) 0 =
        (bitLength message).getD i 0 := by
    intro i
    rw [List.getD_append_right _ _ _ _ (by omega), tail, Nat.add_sub_cancel_left]
  simp only [kept]
  rfl

theorem bitLength_injective (message other : Bytes) (short : message.length < 2 ^ 61)
    (other_short : other.length < 2 ^ 61) (same : bitLength message = bitLength other) :
    message.length = other.length := by
  have bytes : ∀ place ∈ [56, 48, 40, 32, 24, 16, 8, 0],
      8 * message.length / 2 ^ place % 2 ^ 8 = 8 * other.length / 2 ^ place % 2 ^ 8 := by
    intro place listed
    have equal := List.map_inj_left.mp same place listed
    simpa using congrArg UInt8.toNat equal
  have whole := Words.bytes_determine (8 * message.length) (8 * other.length) 8 fun i below =>
    bytes (8 * i) (by interval_cases i <;> decide)
  rw [Nat.mod_eq_of_lt (by omega), Nat.mod_eq_of_lt (by omega)] at whole
  omega

theorem spelled_injective (bytes others : Bytes)
    (same : (bytes.flatMap fun byte => putUlongBe byte.toUInt64) =
      others.flatMap fun byte => putUlongBe byte.toUInt64) : bytes = others := by
  induction bytes generalizing others with
  | nil =>
      cases others with
      | nil => rfl
      | cons byte rest => cases same
  | cons byte rest ih =>
      cases others with
      | nil => cases same
      | cons other others =>
          obtain ⟨word, tail⟩ := List.append_inj same rfl
          simp only [putUlongBe, List.cons.injEq, UInt8.toUInt8_toUInt64] at word
          rw [word.2.2.2.1, ih others tail]

/-- No `int` is as large as a length that it did not hold. -/
theorem crypto_lengthOnly (sm3 : Context) (message : Bytes) (bounded : message.length < 2 ^ 61)
    (equal : crypto lengthOnly sm3 message = hash lengthOnly message) :
    message.length < 2 ^ 31 := by
  rw [crypto_narrowed lengthOnly sm3, hash_lengthOnly, hash_lengthOnly] at equal
  have taken : (message.take (Int32.ofNat message.length).toNatClampNeg).length ≤
      message.length := List.length_take_le' _ _
  have same := bitLength_injective _ message (taken.trans_lt bounded) bounded
    (spelled_injective _ _ equal)
  have largest := (Int32.ofNat message.length).toNatClampNeg_lt
  rw [List.length_take] at same
  omega

/-- In pieces every message is hashed as the standard says; at once it is where its length is
an `int`. -/
theorem streaming_matches_crypto_iff (ctx sm3 : Context) (message : Bytes)
    (bounded : message.length < 2 ^ 61) (chunks : List Bytes) (cut : chunks.flatten = message)
    (short : ∀ chunk ∈ chunks, chunk.length < 2 ^ 31) :
    (∀ sm3Process, final sm3Process (chunks.foldl (update sm3Process) (sm3Starts ctx)) =
      hash sm3Process message) ∧
    ((∀ sm3Process, final sm3Process (chunks.foldl (update sm3Process) (sm3Starts ctx)) =
        crypto sm3Process sm3 message ∧
      crypto sm3Process sm3 message = hash sm3Process message) ↔ message.length < 2 ^ 31) := by
  have streamed : ∀ sm3Process,
      final sm3Process (chunks.foldl (update sm3Process) (sm3Starts ctx)) =
        hash sm3Process message := by
    intro sm3Process
    rw [stream_hash sm3Process ctx chunks short, cut]
  refine ⟨streamed, ?_, ?_⟩
  · intro promised
    exact crypto_lengthOnly sm3 message bounded (promised lengthOnly).2
  · intro fits sm3Process
    have counted : (Int32.ofNat message.length).toInt = message.length :=
      Int32.toInt_ofNat_of_lt fits
    have once : crypto sm3Process sm3 message = hash sm3Process message := by
      rw [crypto_narrowed sm3Process sm3, (length_casts _ _ counted).1, List.take_length]
    exact ⟨(streamed sm3Process).trans once.symm, once⟩

def blank : Context :=
  ⟨(0, 0), initial, Vector.replicate 64 0, Vector.replicate 64 0, Vector.replicate 64 0⟩

theorem streaming_matches_crypto_iff_applies :
    (∀ sm3Process, final sm3Process
        ([[0x61], [], [0x62, 0x63]].foldl (update sm3Process) (sm3Starts blank)) =
      hash sm3Process [0x61, 0x62, 0x63]) ∧
    ((∀ sm3Process, final sm3Process
          ([[0x61], [], [0x62, 0x63]].foldl (update sm3Process) (sm3Starts blank)) =
        crypto sm3Process blank [0x61, 0x62, 0x63] ∧
      crypto sm3Process blank [0x61, 0x62, 0x63] = hash sm3Process [0x61, 0x62, 0x63]) ↔
        [(0x61 : UInt8), 0x62, 0x63].length < 2 ^ 31) :=
  streaming_matches_crypto_iff blank blank [0x61, 0x62, 0x63] (by decide)
    [[0x61], [], [0x62, 0x63]] rfl (by decide)

def oneGigabyte : Bytes := List.replicate (2 ^ 30) 0

/-- The two halves are hashed to their end, the whole is taken for the empty string. -/
theorem two_gigabytes_differ :
    ¬ ∀ (ctx sm3 : Context) (message : Bytes) (chunks : List Bytes), message.length < 2 ^ 61 →
      chunks.flatten = message → (∀ chunk ∈ chunks, chunk.length < 2 ^ 31) →
      ∀ sm3Process, final sm3Process (chunks.foldl (update sm3Process) (sm3Starts ctx)) =
        crypto sm3Process sm3 message := by
  intro promised
  have half : oneGigabyte.length = 2 ^ 30 := List.length_replicate
  have short : ∀ chunk ∈ [oneGigabyte, oneGigabyte], chunk.length < 2 ^ 31 := by
    intro chunk member
    obtain rfl : chunk = oneGigabyte := by simpa using member
    omega
  have length : [oneGigabyte, oneGigabyte].flatten.length = 2 ^ 31 := by
    rw [List.flatten_cons, List.flatten_cons, List.flatten_nil, List.append_nil,
      List.length_append, half]
    rfl
  have equal := promised blank blank _ _ (by rw [length]; decide) rfl short lengthOnly
  rw [stream_hash lengthOnly blank _ short] at equal
  have fits := crypto_lengthOnly blank _ (by rw [length]; decide) equal.symm
  rw [length] at fits
  exact absurd fits (lt_irrefl _)

end EChainLib.Codec.Sm3
