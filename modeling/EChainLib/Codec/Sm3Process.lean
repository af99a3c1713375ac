import Mathlib
import EChainLib.Codec.Sm3

/-! `Sm3::sm3_process`, which turns words by amounts that C does not shift by, and the
compression that it stands for. -/

namespace EChainLib.Codec.Sm3

open EChainLib.Keys (Bytes)

/-- How a 32-bit word is shifted; `none` where the shift is undefined. -/
structure Shifts where
  left : UInt32 → Int → Option UInt32
  right : UInt32 → Int → Option UInt32

/-- The shifts of the language. -/
def cShifts : Shifts where
  left x n := if 0 ≤ n ∧ n < 32 then some (x <<< UInt32.ofNat n.toNat) else none
  right x n := if 0 ≤ n ∧ n < 32 then some (x >>> UInt32.ofNat n.toNat) else none

/-- The shifts of a processor that reads the last five bits of the amount. -/
def maskedShifts : Shifts where
  left x n := some (x <<< UInt32.ofNat (n % 32).toNat)
  right x n := some (x >>> UInt32.ofNat (n % 32).toNat)

/-- `A` to `H`. -/
structure Registers where
  A : UInt32
  B : UInt32
  C : UInt32
  D : UInt32
  E : UInt32
  F : UInt32
  G : UInt32
  H : UInt32

/-- `A = ctx->state[0]` to `H = ctx->state[7]`. -/
def Registers.load (state : State) : Registers :=
  ⟨state[0].toUInt32, state[1].toUInt32, state[2].toUInt32, state[3].toUInt32,
    state[4].toUInt32, state[5].toUInt32, state[6].toUInt32, state[7].toUInt32⟩

/-- `ctx->state[0] ^= A` to `ctx->state[7] ^= H`. -/
def Registers.xorInto (r : Registers) (state : State) : State :=
  #v[state[0] ^^^ r.A.toUInt64, state[1] ^^^ r.B.toUInt64, state[2] ^^^ r.C.toUInt64,
    state[3] ^^^ r.D.toUInt64, state[4] ^^^ r.E.toUInt64, state[5] ^^^ r.F.toUInt64,
    state[6] ^^^ r.G.toUInt64, state[7] ^^^ r.H.toUInt64]

def T (j : Nat) : UInt32 := if j < 16 then 0x79CC4519 else 0x7A879D8A

def FF0 (x y z : UInt32) : UInt32 := x ^^^ y ^^^ z

def FF1 (x y z : UInt32) : UInt32 := (x &&& y) ||| (x &&& z) ||| (y &&& z)

def GG0 (x y z : UInt32) : UInt32 := x ^^^ y ^^^ z

def GG1 (x y z : UInt32) : UInt32 := (x &&& y) ||| (~~~x &&& z)

def getUlongBe (b : Bytes) (i : Nat) : UInt32 :=
  ((b.getD i 0).toUInt32 <<< 24) ||| ((b.getD (i + 1) 0).toUInt32 <<< 16) |||
    ((b.getD (i + 2) 0).toUInt32 <<< 8) ||| (b.getD (i + 3) 0).toUInt32

section Source

variable (shifts : Shifts)

def SHL (x : UInt32) (n : Int) : Option UInt32 := shifts.left (x &&& 0xFFFFFFFF) n

def ROTL (x : UInt32) (n : Int) : Option UInt32 := do
  let high ← SHL shifts x n
  let low ← shifts.right x (32 - n)
  return high ||| low

def P0 (x : UInt32) : Option UInt32 := do return x ^^^ (← ROTL shifts x 9) ^^^ (← ROTL shifts x 17)

def P1 (x : UInt32) : Option UInt32 := do return x ^^^ (← ROTL shifts x 15) ^^^ (← ROTL shifts x 23)

/-- The expansion from `W[j]` on. -/
def expandLoop : Nat → Nat → (Nat → UInt32) → Option (Nat → UInt32)
  | 0, _, W => some W
  | rounds + 1, j, W => do
      let Temp1 := W (j - 16) ^^^ W (j - 9)
      let Temp2 ← ROTL shifts (W (j - 3)) 15
      let Temp3 := Temp1 ^^^ Temp2
      let Temp4 ← P1 shifts Temp3
      let Temp5 := (← ROTL shifts (W (j - 13)) 7) ^^^ W (j - 6)
      expandLoop rounds (j + 1) (Function.update W j (Temp4 ^^^ Temp5))

/-- Both loops over the registers, which differ in `FF` and `GG`. -/
def roundLoop (FF GG : UInt32 → UInt32 → UInt32 → UInt32) (W W1 : Nat → UInt32) :
    Nat → Nat → Registers → Option Registers
  | 0, _, r => some r
  | rounds + 1, j, r => do
      let SS1 ← ROTL shifts ((← ROTL shifts r.A 12) + r.E + (← ROTL shifts (T j) j)) 7
      let SS2 := SS1 ^^^ (← ROTL shifts r.A 12)
      let TT1 := FF r.A r.B r.C + r.D + SS2 + W1 j
      let TT2 := GG r.E r.F r.G + r.H + SS1 + W j
      roundLoop FF GG W W1 rounds (j + 1)
        { D := r.C, C := ← ROTL shifts r.B 9, B := r.A, A := TT1,
          H := r.G, G := ← ROTL shifts r.F 19, F := r.E, E := ← P0 shifts TT2 }

/-- The state after the block. `W` is the array before its first 16 words are written. -/
def sm3Process (W : Nat → UInt32) (state : State) (data : Bytes) : Option State := do
  let W := fun j => if j < 16 then getUlongBe data (4 * j) else W j
  let W ← expandLoop shifts 52 16 W
  let W1 := fun j => W j ^^^ W (j + 4)
  let r ← roundLoop shifts FF0 GG0 W W1 16 0 (Registers.load state)
  let r ← roundLoop shifts FF1 GG1 W W1 48 16 r
  return r.xorInto state

end Source

/-! The standard. -/

namespace Standard

/-- The rotation by `n` mod 32. -/
def rotl (x : UInt32) (n : Nat) : UInt32 := UInt32.ofBitVec (x.toBitVec.rotateLeft n)

def P0 (x : UInt32) : UInt32 := x ^^^ rotl x 9 ^^^ rotl x 17

def P1 (x : UInt32) : UInt32 := x ^^^ rotl x 15 ^^^ rotl x 23

def FF (j : Nat) (x y z : UInt32) : UInt32 :=
  if j < 16 then x ^^^ y ^^^ z else (x &&& y) ||| (x &&& z) ||| (y &&& z)

def GG (j : Nat) (x y z : UInt32) : UInt32 :=
  if j < 16 then x ^^^ y ^^^ z else (x &&& y) ||| (~~~x &&& z)

def T (j : Nat) : UInt32 := if j < 16 then 0x79cc4519 else 0x7a879d8a

/-- Four bytes as a number. -/
def word (block : Bytes) (i : Nat) : UInt32 :=
  UInt32.ofNat ((block.getD i 0).toNat * 2 ^ 24 + (block.getD (i + 1) 0).toNat * 2 ^ 16 +
    (block.getD (i + 2) 0).toNat * 2 ^ 8 + (block.getD (i + 3) 0).toNat)

/-- The words of the block, and those the expansion adds. -/
def W (block : Bytes) (j : Nat) : UInt32 :=
  if j < 16 then word block (4 * j)
  else
    P1 (W block (j - 16) ^^^ W block (j - 9) ^^^ rotl (W block (j - 3)) 15) ^^^
      rotl (W block (j - 13)) 7 ^^^ W block (j - 6)

def W' (block : Bytes) (j : Nat) : UInt32 := W block j ^^^ W block (j + 4)

def round (block : Bytes) (j : Nat) (r : Registers) : Registers :=
  let SS1 := rotl (rotl r.A 12 + r.E + rotl (T j) j) 7
  let SS2 := SS1 ^^^ rotl r.A 12
  let TT1 := FF j r.A r.B r.C + r.D + SS2 + W' block j
  let TT2 := GG j r.E r.F r.G + r.H + SS1 + W block j
  ⟨TT1, r.A, rotl r.B 9, r.C, P0 TT2, r.E, rotl r.F 19, r.G⟩

/-- The registers after `j` rounds. -/
def after (block : Bytes) (V : Registers) : Nat → Registers
  | 0 => V
  | j + 1 => round block j (after block V j)

def CF (V : Registers) (block : Bytes) : Registers :=
  let r := after block V 64
  ⟨V.A ^^^ r.A, V.B ^^^ r.B, V.C ^^^ r.C, V.D ^^^ r.D, V.E ^^^ r.E, V.F ^^^ r.F, V.G ^^^ r.G,
    V.H ^^^ r.H⟩

end Standard

/-- Eight 32-bit words in the array of the context. -/
def Registers.stored (V : Registers) : State :=
  #v[V.A.toUInt64, V.B.toUInt64, V.C.toUInt64, V.D.toUInt64, V.E.toUInt64, V.F.toUInt64,
    V.G.toUInt64, V.H.toUInt64]

theorem Registers.load_stored (V : Registers) : Registers.load V.stored = V := by
  simp [Registers.load, Registers.stored]

theorem Registers.xorInto_stored (V r : Registers) :
    r.xorInto V.stored =
      Registers.stored ⟨V.A ^^^ r.A, V.B ^^^ r.B, V.C ^^^ r.C, V.D ^^^ r.D, V.E ^^^ r.E,
        V.F ^^^ r.F, V.G ^^^ r.G, V.H ^^^ r.H⟩ := by
  simp [Registers.xorInto, Registers.stored]

/-! Words. -/

theorem getUlongBe_eq (block : Bytes) (i : Nat) : getUlongBe block i = Standard.word block i := by
  have first := (block.getD i 0).toNat_lt
  have second := (block.getD (i + 1) 0).toNat_lt
  have third := (block.getD (i + 2) 0).toNat_lt
  have fourth := (block.getD (i + 3) 0).toNat_lt
  rw [getUlongBe, Standard.word]
  generalize block.getD i 0 = a at *
  generalize block.getD (i + 1) 0 = b at *
  generalize block.getD (i + 2) 0 = c at *
  generalize block.getD (i + 3) 0 = d at *
  apply UInt32.toNat_inj.mp
  have places : UInt32.toNat 24 % 32 = 24 ∧ UInt32.toNat 16 % 32 = 16 ∧ UInt32.toNat 8 % 32 = 8 :=
    ⟨rfl, rfl, rfl⟩
  have kept : ∀ number place, number < 2 ^ 8 → place ≤ 24 →
      number <<< place % 2 ^ 32 = number <<< place := by
    intro number place small inside
    apply Nat.mod_eq_of_lt
    rw [Nat.shiftLeft_eq]
    calc number * 2 ^ place < 2 ^ 8 * 2 ^ place :=
          Nat.mul_lt_mul_of_pos_right small (Nat.two_pow_pos _)
      _ ≤ 2 ^ 8 * 2 ^ 24 := Nat.mul_le_mul_left _ (Nat.pow_le_pow_right (by decide) inside)
      _ = 2 ^ 32 := rfl
  simp only [UInt32.toNat_or, UInt32.toNat_shiftLeft, UInt8.toNat_toUInt32, places,
    kept _ _ first (le_refl 24), kept _ _ second (by decide : 16 ≤ 24),
    kept _ _ third (by decide : 8 ≤ 24), UInt32.toNat_ofNat']
  -- the bytes are set one beside the other
  have joined : ∀ high place low, low < 2 ^ place →
      high <<< place ||| low = high * 2 ^ place + low := by
    intro high place low small
    rw [← Nat.shiftLeft_add_eq_or_of_lt small, Nat.shiftLeft_eq]
  rw [Nat.or_assoc, Nat.or_assoc, joined c.toNat 8 _ fourth, joined b.toNat 16 _ (by omega),
    joined a.toNat 24 _ (by omega)]
  omega

/-- What is asked of a machine: the shifts of the language where they are defined, and the
constants turned as they should be. -/
structure Rotates (shifts : Shifts) : Prop where
  left : ∀ x (n : Nat), n < 32 → shifts.left x n = some (x <<< UInt32.ofNat n)
  right : ∀ x (n : Nat), n < 32 → shifts.right x n = some (x >>> UInt32.ofNat n)
  constants : ∀ j < 64, ROTL shifts (T j) j = some (Standard.rotl (T j) j)

theorem rotl_eq (x : UInt32) (n : Nat) (turned : n % 32 ≠ 0) :
    Standard.rotl x n = (x <<< UInt32.ofNat (n % 32)) ||| (x >>> UInt32.ofNat (32 - n % 32)) := by
  have amount : ∀ k < 32, ((UInt32.ofNat k).toBitVec % 32).toNat = k := by decide
  apply UInt32.toBitVec_inj.mp
  rw [UInt32.toBitVec_or, UInt32.toBitVec_shiftLeft, UInt32.toBitVec_shiftRight,
    BitVec.shiftLeft_eq', BitVec.ushiftRight_eq', amount _ (by omega), amount _ (by omega)]
  exact BitVec.rotateLeft_def

theorem W_expanded (block : Bytes) (j : Nat) (added : 16 ≤ j) :
    Standard.W block j =
      Standard.P1 (Standard.W block (j - 16) ^^^ Standard.W block (j - 9) ^^^
          Standard.rotl (Standard.W block (j - 3)) 15) ^^^
        Standard.rotl (Standard.W block (j - 13)) 7 ^^^ Standard.W block (j - 6) := by
  rw [Standard.W, if_neg (not_lt.mpr added)]

section Machine

variable {shifts : Shifts} (rotates : Rotates shifts)

include rotates

theorem ROTL_constant (x : UInt32) (n : Nat) (positive : 0 < n) (small : n < 32) :
    ROTL shifts x n = some (Standard.rotl x n) := by
  have whole : x &&& 0xFFFFFFFF = x := by
    apply UInt32.toNat_inj.mp
    have ones := Nat.and_two_pow_sub_one_eq_mod x.toNat 32
    rw [Nat.mod_eq_of_lt x.toNat_lt] at ones
    exact ones
  have places : (32 : Int) - n = ((32 - n : Nat) : Int) := by omega
  rw [ROTL, SHL, whole, rotates.left x n small, places, rotates.right x _ (by omega),
    rotl_eq x n (by omega), Nat.mod_eq_of_lt small]
  rfl

theorem P0_eq (x : UInt32) : P0 shifts x = some (Standard.P0 x) := by
  have nine : ROTL shifts x 9 = _ := ROTL_constant rotates x 9 (by decide) (by decide)
  have seventeen : ROTL shifts x 17 = _ := ROTL_constant rotates x 17 (by decide) (by decide)
  rw [P0, nine, seventeen]
  rfl

theorem P1_eq (x : UInt32) : P1 shifts x = some (Standard.P1 x) := by
  have fifteen : ROTL shifts x 15 = _ := ROTL_constant rotates x 15 (by decide) (by decide)
  have twenty_three : ROTL shifts x 23 = _ := ROTL_constant rotates x 23 (by decide) (by decide)
  rw [P1, fifteen, twenty_three]
  rfl

/-- The array holds the words below `j`, and one more after each round. -/
theorem expandLoop_eq (block : Bytes) (rounds j : Nat) (W : Nat → UInt32) (added : 16 ≤ j)
    (written : ∀ i < j, W i = Standard.W block i) :
    ∃ expanded, expandLoop shifts rounds j W = some expanded ∧
      ∀ i < j + rounds, expanded i = Standard.W block i := by
  induction rounds generalizing j W with
  | zero => exact ⟨W, rfl, written⟩
  | succ rounds ih =>
      have fifteen : ∀ x, ROTL shifts x 15 = _ := fun x =>
        ROTL_constant rotates x 15 (by decide) (by decide)
      have seven : ∀ x, ROTL shifts x 7 = _ := fun x =>
        ROTL_constant rotates x 7 (by decide) (by decide)
      -- the word that this round writes is the next one of the standard
      have next : ∀ i < j + 1, Function.update W j (Standard.W block j) i = Standard.W block i := by
        intro i below
        by_cases last : i = j
        · rw [last, Function.update_self]
        · rw [Function.update_of_ne last, written i (by omega)]
      obtain ⟨expanded, returned, all⟩ := ih (j + 1) _ (by omega) next
      refine ⟨expanded, ?_, fun i below => all i (by omega)⟩
      rw [W_expanded block j added, ← written (j - 16) (by omega), ← written (j - 9) (by omega),
        ← written (j - 3) (by omega), ← written (j - 13) (by omega),
        ← written (j - 6) (by omega)] at returned
      rw [← returned, expandLoop, fifteen, seven]
      simp only [P1_eq rotates, Option.bind_eq_bind, Option.bind_some, UInt32.xor_assoc]

/-- The rounds of one loop, where its two functions are those of the standard. -/
theorem roundLoop_eq (block : Bytes) (V : Registers) (FF GG : UInt32 → UInt32 → UInt32 → UInt32)
    (W : Nat → UInt32) (rounds j : Nat) (inside : j + rounds ≤ 64)
    (expanded : ∀ i < 68, W i = Standard.W block i)
    (FF_same : ∀ i, j ≤ i → i < j + rounds → FF = Standard.FF i)
    (GG_same : ∀ i, j ≤ i → i < j + rounds → GG = Standard.GG i) :
    roundLoop shifts FF GG W (fun j => W j ^^^ W (j + 4)) rounds j (Standard.after block V j) =
      some (Standard.after block V (j + rounds)) := by
  induction rounds generalizing j with
  | zero => rfl
  | succ rounds ih =>
      have constant : ∀ x, ROTL shifts x 7 = some (Standard.rotl x 7) ∧
          ROTL shifts x 9 = some (Standard.rotl x 9) ∧
          ROTL shifts x 12 = some (Standard.rotl x 12) ∧
          ROTL shifts x 19 = some (Standard.rotl x 19) := fun x =>
        ⟨ROTL_constant rotates x 7 (by decide) (by decide),
          ROTL_constant rotates x 9 (by decide) (by decide),
          ROTL_constant rotates x 12 (by decide) (by decide),
          ROTL_constant rotates x 19 (by decide) (by decide)⟩
      have next := ih (j + 1) (by omega) (fun i low high => FF_same i (by omega) (by omega))
        (fun i low high => GG_same i (by omega) (by omega))
      rw [Nat.add_assoc, Nat.add_comm 1 rounds] at next
      rw [← next, roundLoop, FF_same j (le_refl j) (by omega), GG_same j (le_refl j) (by omega),
        rotates.constants j (by omega)]
      simp only [constant, P0_eq rotates, Option.bind_eq_bind, Option.bind_some, Standard.after,
        Standard.round, Standard.W', expanded j (by omega), expanded (j + 4) (by omega)]
      rfl

/-- On such a machine a block is compressed as the standard says. -/
theorem sm3Process_eq (W : Nat → UInt32) (V : Registers) (block : Bytes) :
    sm3Process shifts W V.stored block = some (Standard.CF V block).stored := by
  have first : ∀ i < 16, (if i < 16 then getUlongBe block (4 * i) else W i) = Standard.W block i := by
    intro i below
    rw [if_pos below, getUlongBe_eq, Standard.W, if_pos below]
  -- 16 + 52 words are written, and 16 + 48 rounds read them
  obtain ⟨expanded, returned, all⟩ := expandLoop_eq rotates block 52 16 _ (le_refl 16) first
  have early := roundLoop_eq rotates block V FF0 GG0 expanded 16 0 (by decide) all
    (fun i _ below => funext fun x => funext fun y => funext fun z => (if_pos below).symm)
    (fun i _ below => funext fun x => funext fun y => funext fun z => (if_pos below).symm)
  have late := roundLoop_eq rotates block V FF1 GG1 expanded 48 16 (by decide) all
    (fun i above _ => funext fun x => funext fun y => funext fun z => (if_neg (not_lt.mpr above)).symm)
    (fun i above _ => funext fun x => funext fun y => funext fun z => (if_neg (not_lt.mpr above)).symm)
  have early_state : Standard.after block V 0 = V := rfl
  rw [early_state] at early
  rw [sm3Process, Registers.load_stored]
  simp only [returned, early, late, Option.bind_eq_bind, Option.bind_some, Option.pure_def,
    Registers.xorInto_stored]
  rfl

end Machine

/-! The shifts of the language. -/

theorem ROTL_undefined_iff (x : UInt32) (n : Int) :
    ROTL cShifts x n = none ↔ n ≤ 0 ∨ 32 ≤ n := by
  by_cases inside : 0 ≤ n ∧ n < 32
  · have high : SHL cShifts x n = some ((x &&& 0xFFFFFFFF) <<< UInt32.ofNat n.toNat) :=
      if_pos inside
    rw [ROTL, high]
    by_cases defined : 0 ≤ 32 - n ∧ 32 - n < 32
    · have low : cShifts.right x (32 - n) = some (x >>> UInt32.ofNat (32 - n).toNat) :=
        if_pos defined
      rw [low]
      simp only [Option.bind_eq_bind, Option.bind_some, Option.pure_def, reduceCtorEq, false_iff]
      omega
    · have low : cShifts.right x (32 - n) = none := if_neg defined
      rw [low]
      simp only [Option.bind_eq_bind, Option.bind_some, Option.bind_none, true_iff]
      omega
  · have high : SHL cShifts x n = none := if_neg inside
    rw [ROTL, high]
    simp only [Option.bind_eq_bind, Option.bind_none, true_iff]
    omega

/-- The first round turns its constant by no place, and shifts it by 32. -/
theorem first_round_undefined (W W1 : Nat → UInt32) (rounds : Nat) (r : Registers) :
    roundLoop cShifts FF0 GG0 W W1 (rounds + 1) 0 r = none := by
  have turned : ROTL cShifts (T 0) (0 : Nat) = none :=
    (ROTL_undefined_iff _ _).mpr (Or.inl (le_refl 0))
  rw [roundLoop, turned]
  cases ROTL cShifts r.A 12 <;> rfl

theorem sm3Process_undefined (W : Nat → UInt32) (state : State) (data : Bytes) :
    sm3Process cShifts W state data = none := by
  rw [sm3Process]
  simp only [first_round_undefined, Option.bind_eq_bind, Option.bind_none]
  cases expandLoop cShifts 52 16 _ <;> rfl

theorem maskedShifts_rotates : Rotates maskedShifts := by
  have kept : ∀ n < 32, ((n : Nat) : Int) % 32 = n := by omega
  refine ⟨fun x n small => ?_, fun x n small => ?_, by decide +kernel⟩
  · simp only [maskedShifts, kept n small, Int.toNat_natCast]
  · simp only [maskedShifts, kept n small, Int.toNat_natCast]

/-- No run is defined in the language, and the shifts at fault are those of the constants; a
machine that turns these as the standard means it computes the standard's value. -/
theorem sm3Process_never_defined (W : Nat → UInt32) (V : Registers) (block : Bytes) :
    (sm3Process cShifts W V.stored block = none ∧
      sm3Process cShifts W V.stored block ≠ some (Standard.CF V block).stored) ∧
    (∀ j < 64, ROTL cShifts (T j) (j : Nat) = none ↔ j = 0 ∨ 32 ≤ j) ∧
    ∀ shifts, Rotates shifts →
      sm3Process shifts W V.stored block = some (Standard.CF V block).stored := by
  refine ⟨?_, fun j _ => ?_, fun shifts rotates => sm3Process_eq rotates W V block⟩
  · rw [sm3Process_undefined]
    exact ⟨rfl, nofun⟩
  · rw [ROTL_undefined_iff]
    omega

theorem sm3Process_never_defined_applies :
    sm3Process maskedShifts (fun _ => 0) (Standard.CF ⟨0, 0, 0, 0, 0, 0, 0, 0⟩ []).stored [] =
      some (Standard.CF (Standard.CF ⟨0, 0, 0, 0, 0, 0, 0, 0⟩ []) []).stored :=
  (sm3Process_never_defined _ _ _).2.2 maskedShifts maskedShifts_rotates

theorem zero_block_undefined :
    ¬ ∀ (W : Nat → UInt32) (V : Registers) (block : Bytes), block.length = 64 →
      sm3Process cShifts W V.stored block = some (Standard.CF V block).stored := by
  intro promised
  have defined := promised (fun _ => 0) ⟨0, 0, 0, 0, 0, 0, 0, 0⟩ (List.replicate 64 0)
    List.length_replicate
  rw [sm3Process_undefined] at defined
  cases defined

end EChainLib.Codec.Sm3
