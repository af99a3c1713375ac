import Mathlib
import EChainLib.Ec.Wnaf

/-! The groups of `ec_lib.cpp`, `ec_wNAF_mul` and `ec_wNAF_precompute_mult` of `ec_mult.cpp`.
`none` is a call that fails. All points are of the group's method. -/

namespace EChainLib.Ec

open SignedDigits

/-- The point functions of an `EC_METHOD`. -/
structure Method (P : Type) where
  setToInfinity : P → P
  add : P → P → Option P
  dbl : P → Option P
  invert : P → Option P
  isAtInfinity : P → Bool
  isOnCurve : P → Int
  pointCmp : P → P → Int
  pointsMakeAffine : List P → Option (List P)

/-- `EC_PRE_COMP`. -/
structure PreComp (P : Type) where
  blocksize : Nat
  numblocks : Nat
  w : Nat
  points : List P
  num : Nat

/-- An `EC_GROUP`; `pre_comp` is the entry of `extra_data`. -/
structure EcGroup (P : Type) where
  meth : Method P
  generator : Option P
  order : BigNum
  cofactor : BigNum
  pre_comp : Option (PreComp P)

variable {P : Type}

/-- `EC_GROUP_new`. -/
def ecGroupNew (meth : Method P) : EcGroup P where
  meth := meth
  generator := none
  order := ⟨false, 0⟩
  cofactor := ⟨false, 0⟩
  pre_comp := none

/-- `EC_window_bits_for_scalar_size`. -/
def windowBits (b : Nat) : Nat :=
  if b ≥ 2000 then 6
  else if b ≥ 800 then 5
  else if b ≥ 300 then 4
  else if b ≥ 70 then 3
  else if b ≥ 20 then 2
  else 1

/-- How `ec_wNAF_mul` treats `scalar`: not at all, like the other scalars, or by precomputation. -/
inductive Plan (P : Type)
  | without
  | asTerm (generator : P) (scalar : BigNum)
  | precomputed (pre_comp : PreComp P) (numblocks : Nat) (scalar : BigNum)

def generatorPlan (group : EcGroup P) : Option BigNum → Option (Plan P)
  | none => some .without
  | some scalar => do
      let generator ← group.generator
      match group.pre_comp with
      | none => some (.asTerm generator scalar)
      | some pre_comp =>
          if pre_comp.numblocks = 0 then some (.asTerm generator scalar)
          else
            let first ← pre_comp.points[0]?
            if group.meth.pointCmp generator first = 0 then
              -- a wNAF may be one digit longer than the scalar
              let numblocks := scalar.numBits / pre_comp.blocksize + 1
              let numblocks :=
                if numblocks > pre_comp.numblocks then pre_comp.numblocks else numblocks
              if pre_comp.num ≠ pre_comp.numblocks * 2 ^ (pre_comp.w - 1) then none
              else some (.precomputed pre_comp numblocks scalar)
            else some (.asTerm generator scalar)

/-- The points that a call of `step` gives, one from the other. -/
def stepped (step : P → Option P) : Nat → P → Option (List P)
  | 0, _ => some []
  | count + 1, last => do
      let next ← step last
      let later ← stepped step count next
      return next :: later

/-- `val_sub[i]`: the odd multiples of a point. -/
def oddMultiples (meth : Method P) (point : P) (wsize : Nat) : Option (List P) :=
  if wsize > 1 then do
    let tmp ← meth.dbl point
    let later ← stepped (fun last => meth.add last tmp) (2 ^ (wsize - 1) - 1) point
    return point :: later
  else some [point]

/-- One scalar's digits with the points they select. -/
structure Row (P : Type) where
  wNAF : List Int
  val_sub : List P

def termRows (meth : Method P) : List (P × BigNum) → Option (List (Row P))
  | [] => some []
  | (point, scalar) :: rest => do
      let wsize := windowBits scalar.numBits
      let wNAF ← computeWNAF scalar wsize
      let val_sub ← oddMultiples meth point wsize
      let rows ← termRows meth rest
      return ⟨wNAF, val_sub⟩ :: rows

/-- `EC_POINTs_make_affine` on the points of all rows, which stand in one array. -/
def makeAffine (meth : Method P) (rows : List (Row P)) : Option (List (Row P)) := do
  let val ← meth.pointsMakeAffine (rows.map Row.val_sub).flatten
  let parts := (rows.map fun row => row.val_sub.length).splitLengths val
  return List.zipWith (fun row part => { row with val_sub := part }) rows parts

def maxLen (rows : List (Row P)) : Nat :=
  rows.foldl (fun max_len row => if row.wNAF.length > max_len then row.wNAF.length else max_len) 0

/-- The blocks of a split wNAF, the last of which gets what is left. -/
def splitBlocks (blocksize pre_points_per_block : Nat) :
    Nat → List Int → List P → Option (List (Row P))
  | 0, _, _ => some []
  | 1, pp, tmp_points => if tmp_points.isEmpty then none else some [⟨pp, tmp_points⟩]
  | numblocks + 2, pp, tmp_points =>
      if pp.length < blocksize ∨ tmp_points.isEmpty then none
      else
        (splitBlocks blocksize pre_points_per_block (numblocks + 1) (pp.drop blocksize)
          (tmp_points.drop pre_points_per_block)).map (⟨pp.take blocksize, tmp_points⟩ :: ·)

def precomputedRows (pre_comp : PreComp P) (numblocks : Nat) (scalar : BigNum) (max_len : Nat) :
    Option (List (Row P)) := do
  let tmp_wNAF ← computeWNAF scalar pre_comp.w
  if tmp_wNAF.length ≤ max_len then return [⟨tmp_wNAF, pre_comp.points⟩]
  else
    let fewer := (tmp_wNAF.length + pre_comp.blocksize - 1) / pre_comp.blocksize
    if tmp_wNAF.length < numblocks * pre_comp.blocksize then
      if fewer > pre_comp.numblocks then none
      else splitBlocks pre_comp.blocksize (2 ^ (pre_comp.w - 1)) fewer tmp_wNAF pre_comp.points
    else splitBlocks pre_comp.blocksize (2 ^ (pre_comp.w - 1)) numblocks tmp_wNAF pre_comp.points

/-- `r` with its two flags. -/
structure Accumulator (P : Type) where
  r : P
  is_inverted : Bool
  at_infinity : Bool

/-- `r` is inverted when the sign of the next digit is not the one it holds. -/
def turnTo (meth : Method P) (is_neg : Bool) (acc : Accumulator P) : Option (Accumulator P) :=
  if is_neg = acc.is_inverted then some acc
  else if acc.at_infinity then some ⟨acc.r, is_neg, true⟩
  else (meth.invert acc.r).map fun r => ⟨r, is_neg, false⟩

/-- What one row does with the accumulator at place `k`. -/
def addDigit (meth : Method P) (k : Nat) (acc : Accumulator P) (row : Row P) :
    Option (Accumulator P) :=
  let digit := digitAt row.wNAF k
  if digit = 0 then some acc
  else do
    let acc ← turnTo meth (digit < 0) acc
    let point ← row.val_sub[digit.natAbs >>> 1]?
    if acc.at_infinity then some ⟨point, acc.is_inverted, false⟩
    else (meth.add acc.r point).map fun r => ⟨r, acc.is_inverted, false⟩

def doubled (meth : Method P) (acc : Accumulator P) : Option (Accumulator P) :=
  if acc.at_infinity then some acc
  else (meth.dbl acc.r).map fun r => ⟨r, acc.is_inverted, false⟩

/-- The main loop, from place `k - 1` down. -/
def sumLoop (meth : Method P) (rows : List (Row P)) :
    Nat → Accumulator P → Option (Accumulator P)
  | 0, acc => some acc
  | k + 1, acc => do
      let acc ← doubled meth acc
      let acc ← rows.foldlM (addDigit meth k) acc
      sumLoop meth rows k acc

def sumRows (meth : Method P) (r : P) (rows : List (Row P)) : Option P := do
  let acc ← sumLoop meth rows (maxLen rows) ⟨r, false, true⟩
  if acc.at_infinity then return meth.setToInfinity acc.r
  else if acc.is_inverted then meth.invert acc.r
  else return acc.r

/-- `ec_wNAF_mul`, the points and scalars in one list. -/
def ecWNAFMul (group : EcGroup P) (r : P) (scalar : Option BigNum) (terms : List (P × BigNum)) :
    Option P :=
  if scalar.isNone ∧ terms.isEmpty then some (group.meth.setToInfinity r)
  else do
    match ← generatorPlan group scalar with
    | .without => do
        let rows ← termRows group.meth terms
        sumRows group.meth r (← makeAffine group.meth rows)
    | .asTerm generator scalar => do
        let rows ← termRows group.meth (terms ++ [(generator, scalar)])
        sumRows group.meth r (← makeAffine group.meth rows)
    | .precomputed pre_comp numblocks scalar => do
        let rows ← termRows group.meth terms
        let blocks ← precomputedRows pre_comp numblocks scalar (maxLen rows)
        sumRows group.meth r ((← makeAffine group.meth rows) ++ blocks)

/-- `base` doubled as often as the loop over `k` does from `tmp_point`. -/
def nextBase (meth : Method P) (tmp_point : P) (blocksize : Nat) : Option P := do
  let base ← meth.dbl tmp_point
  (List.range (blocksize - 2)).foldlM (fun base _ => meth.dbl base) base

/-- The points of the blocks from `base` on. -/
def blockPoints (meth : Method P) (blocksize pre_points_per_block : Nat) :
    Nat → P → Option (List P)
  | 0, _ => some []
  | numblocks + 1, base => do
      let tmp_point ← meth.dbl base
      let later ← stepped (fun last => meth.add tmp_point last) (pre_points_per_block - 1) base
      if numblocks = 0 then return base :: later
      else
        let next ← nextBase meth tmp_point blocksize
        let points ← blockPoints meth blocksize pre_points_per_block numblocks next
        return base :: later ++ points

def precompute (group : EcGroup P) : Option (PreComp P) := do
  let generator ← group.generator
  if group.order.isZero then none
  else
    let bits := group.order.numBits
    let blocksize := 8
    let w := if windowBits bits > 4 then windowBits bits else 4
    let numblocks := (bits + blocksize - 1) / blocksize
    let pre_points_per_block := 2 ^ (w - 1)
    let points ← blockPoints group.meth blocksize pre_points_per_block numblocks generator
    let points ← group.meth.pointsMakeAffine points
    return ⟨blocksize, numblocks, w, points, pre_points_per_block * numblocks⟩

/-- `ec_wNAF_precompute_mult`. The old entry goes first, so a call that fails leaves none. -/
def ecWNAFPrecomputeMult (group : EcGroup P) : EcGroup P × Bool :=
  match precompute group with
  | none => ({ group with pre_comp := none }, false)
  | some pre_comp => ({ group with pre_comp := some pre_comp }, true)

/-- `EC_GROUP_set_generator`, which leaves `extra_data` as it is. -/
def ecGroupSetGenerator (group : EcGroup P) (generator : P) (order cofactor : BigNum) : EcGroup P :=
  { group with generator := some generator, order := order, cofactor := cofactor }

/-- The calls that change what `ec_wNAF_mul` reads of a group. -/
inductive GroupCall (P : Type)
  | setGenerator (generator : P) (order cofactor : BigNum)
  | precomputeMult

def callGroup (group : EcGroup P) : GroupCall P → EcGroup P
  | .setGenerator generator order cofactor => ecGroupSetGenerator group generator order cofactor
  | .precomputeMult => (ecWNAFPrecomputeMult group).1

/-- The `mul` of an `EC_METHOD`. -/
abbrev MulMethod (P : Type) := EcGroup P → P → Option BigNum → List (P × BigNum) → Option P

/-- `EC_POINTs_mul`. -/
def ecPointsMul (mul : Option (MulMethod P)) : MulMethod P := mul.getD ecWNAFMul

/-- `EC_POINT_mul`. -/
def ecPointMul (mul : Option (MulMethod P)) (group : EcGroup P) (r : P) (g_scalar : Option BigNum)
    (point : Option P) (p_scalar : Option BigNum) : Option P :=
  match point, p_scalar with
  | some point, some p_scalar => ecPointsMul mul group r g_scalar [(point, p_scalar)]
  | _, _ => ecPointsMul mul group r g_scalar []

end EChainLib.Ec
