import Mathlib
import EChainLib.Ec.Method

/-! `ec2_smpl.cpp` and `ec2_mult.cpp`: points of curves over binary fields. A field element is the
number whose bits are the coefficients of a polynomial. -/

namespace EChainLib.Ec

/-- What the `BN_GF2m` functions do modulo the irreducible polynomial `field`: `elem` is the element
that a polynomial stands for, `reduced` the remainder that stands for an element. -/
structure BinaryField (F : Type) [Field F] where
  field : Nat
  elem : Nat → F
  reduced : F → Nat
  elem_xor : ∀ a b, elem (a ^^^ b) = elem a + elem b
  elem_one : elem 1 = 1
  elem_reduced : ∀ f, elem (reduced f) = f
  reduced_elem : ∀ a < 2 ^ (Nat.size field - 1), reduced (elem a) = a
  reduced_lt : ∀ f, reduced f < 2 ^ (Nat.size field - 1)

/-- The curve of an `EC_GROUP`, as `ec_GF2m_simple_group_set_curve` stores it. -/
structure BinaryCurve (F : Type) [Field F] extends BinaryField F where
  a : Nat
  b : Nat

/-- An `EC_POINT`. -/
structure EcPoint where
  X : Nat
  Y : Nat
  Z : Nat
  Z_is_one : Bool
  deriving DecidableEq

/-- `EC_POINT_new`. -/
def ecPointNew : EcPoint := ⟨0, 0, 0, false⟩

namespace EcPoint

/-- `ec_GF2m_simple_point_set_to_infinity`. -/
def setToInfinity (point : EcPoint) : EcPoint := { point with Z := 0, Z_is_one := false }

/-- `ec_GF2m_simple_point_set_affine_coordinates`. -/
def setAffineCoordinates (x y : Nat) : EcPoint := ⟨x, y, 1, true⟩

/-- `ec_GF2m_simple_is_at_infinity`. -/
def isAtInfinity (point : EcPoint) : Bool := point.Z = 0

/-- `ec_GF2m_simple_point_get_affine_coordinates`. -/
def getAffineCoordinates (point : EcPoint) : Option (Nat × Nat) :=
  if point.isAtInfinity then none
  else if point.Z ≠ 1 then none
  else some (point.X, point.Y)

/-- `ec_GF2m_simple_make_affine`. -/
def makeAffine (point : EcPoint) : Option EcPoint :=
  if point.Z_is_one ∨ point.isAtInfinity then some point
  else point.getAffineCoordinates.map fun (x, y) => ⟨x, y, 1, true⟩

/-- `ec_GF2m_simple_points_make_affine`. -/
def pointsMakeAffine (points : List EcPoint) : Option (List EcPoint) := points.mapM makeAffine

/-- `ec_GF2m_simple_cmp`. -/
def cmp (a b : EcPoint) : Int :=
  if a.isAtInfinity then if b.isAtInfinity then 0 else 1
  else if b.isAtInfinity then 1
  else if a.Z_is_one ∧ b.Z_is_one then if a.X = b.X ∧ a.Y = b.Y then 0 else 1
  else
    match a.getAffineCoordinates, b.getAffineCoordinates with
    | some (aX, aY), some (bX, bY) => if aX = bX ∧ aY = bY then 0 else 1
    | _, _ => -1

/-- `ec_GF2m_simple_invert`. -/
def invert (point : EcPoint) : Option EcPoint :=
  if point.isAtInfinity ∨ point.Y = 0 then some point
  else point.makeAffine.map fun point => { point with Y := point.X ^^^ point.Y }

/-- The inversion that a negative scalar asks for. -/
def invertFor (scalar : BigNum) (point : EcPoint) : Option EcPoint :=
  if scalar.neg then point.invert else some point

/-- The coordinates that `ec_GF2m_simple_add` reads. -/
def coordinates (point : EcPoint) : Option (Nat × Nat) :=
  if point.Z_is_one then some (point.X, point.Y) else point.getAffineCoordinates

end EcPoint

variable {F : Type} [Field F]

namespace BinaryField
variable (gf : BinaryField F)

/-- `ec_GF2m_simple_group_get_degree`. -/
def degree : Nat := Nat.size gf.field - 1

/-- `BN_GF2m_mod_arr`. -/
def modArr (a : Nat) : Nat := gf.reduced (gf.elem a)

/-- `ec_GF2m_simple_field_mul`. -/
def fieldMul (a b : Nat) : Nat := gf.reduced (gf.elem a * gf.elem b)

/-- `ec_GF2m_simple_field_sqr`. -/
def fieldSqr (a : Nat) : Nat := gf.reduced (gf.elem a ^ 2)

/-- `ec_GF2m_simple_field_div`. -/
def fieldDiv [DecidableEq F] (a b : Nat) : Option Nat :=
  if gf.elem b = 0 then none else some (gf.reduced (gf.elem a / gf.elem b))

end BinaryField

namespace BinaryCurve
variable (curve : BinaryCurve F)

/-- `ec_GF2m_simple_group_set_curve`, once it has found the polynomial usable. -/
def setCurve (gf : BinaryField F) (a b : Nat) : BinaryCurve F :=
  { gf with a := gf.modArr a, b := gf.modArr b }

/-- `ec_GF2m_simple_group_check_discriminant`. -/
def checkDiscriminant : Bool := curve.modArr curve.b ≠ 0

/-- The end of `ec_GF2m_simple_add`. -/
def addFinish (x1 y1 x2 s : Nat) : EcPoint :=
  let y2 := x1 ^^^ x2
  let y2 := curve.fieldMul y2 s
  let y2 := y2 ^^^ x2
  let y2 := y2 ^^^ y1
  EcPoint.setAffineCoordinates x2 y2

/-- `ec_GF2m_simple_add`. -/
def simpleAdd [DecidableEq F] (r a b : EcPoint) : Option EcPoint :=
  if a.isAtInfinity then some b
  else if b.isAtInfinity then some a
  else do
    let (x0, y0) ← a.coordinates
    let (x1, y1) ← b.coordinates
    if x0 ≠ x1 then
      let t := x0 ^^^ x1
      let s ← curve.fieldDiv (y0 ^^^ y1) t
      let x2 := curve.fieldSqr s
      let x2 := x2 ^^^ curve.a
      let x2 := x2 ^^^ s
      let x2 := x2 ^^^ t
      return curve.addFinish x1 y1 x2 s
    else if y0 ≠ y1 ∨ x1 = 0 then return r.setToInfinity
    else
      let s ← curve.fieldDiv y1 x1
      let s := s ^^^ x1
      let x2 := curve.fieldSqr s
      let x2 := x2 ^^^ s
      let x2 := x2 ^^^ curve.a
      return curve.addFinish x1 y1 x2 s

/-- `ec_GF2m_simple_dbl`. -/
def simpleDbl [DecidableEq F] (r a : EcPoint) : Option EcPoint := curve.simpleAdd r a a

/-- `ec_GF2m_simple_is_on_curve`. -/
def isOnCurve (point : EcPoint) : Int :=
  if point.isAtInfinity then 1
  else if !point.Z_is_one then -1
  else
    let lh := point.X ^^^ curve.a
    let lh := curve.fieldMul lh point.X
    let lh := lh ^^^ point.Y
    let lh := curve.fieldMul lh point.X
    let lh := lh ^^^ curve.b
    let y2 := curve.fieldSqr point.Y
    let lh := lh ^^^ y2
    if lh = 0 then 1 else 0

/-- The point functions of `ec_GF2m_simple_method`. Where a sum is the point at infinity, what its
`X` and `Y` are is read nowhere. -/
def simpleMethod [DecidableEq F] : Method EcPoint where
  setToInfinity := EcPoint.setToInfinity
  add a b := curve.simpleAdd a a b
  dbl a := curve.simpleDbl a a
  invert := EcPoint.invert
  isAtInfinity := EcPoint.isAtInfinity
  isOnCurve := curve.isOnCurve
  pointCmp := EcPoint.cmp
  pointsMakeAffine := EcPoint.pointsMakeAffine

/-! `ec2_mult.cpp`. -/

/-- `gf2m_Mdouble`. -/
def mDouble (x z : Nat) : Nat × Nat :=
  let x := curve.fieldSqr x
  let t1 := curve.fieldSqr z
  let z := curve.fieldMul x t1
  let x := curve.fieldSqr x
  let t1 := curve.fieldSqr t1
  let t1 := curve.fieldMul curve.b t1
  (x ^^^ t1, z)

/-- `gf2m_Madd`. -/
def mAdd (x x1 z1 x2 z2 : Nat) : Nat × Nat :=
  let t1 := x
  let x1 := curve.fieldMul x1 z2
  let z1 := curve.fieldMul z1 x2
  let t2 := curve.fieldMul x1 z1
  let z1 := z1 ^^^ x1
  let z1 := curve.fieldSqr z1
  let x1 := curve.fieldMul z1 t1
  (x1 ^^^ t2, z1)

/-- What `gf2m_Mxy` leaves in `x2` and `z2`, with its return value 1 or 2. -/
inductive Mxy
  | infinity (x2 z2 : Nat)
  | affine (x2 z2 : Nat)

/-- `gf2m_Mxy`. -/
def mXY [DecidableEq F] (x y x1 z1 x2 z2 : Nat) : Option Mxy :=
  if z1 = 0 then some (.infinity 0 0)
  else if z2 = 0 then some (.affine x (x ^^^ y))
  else do
    let t5 := 1
    let t3 := curve.fieldMul z1 z2
    let z1 := curve.fieldMul z1 x
    let z1 := z1 ^^^ x1
    let z2 := curve.fieldMul z2 x
    let x1 := curve.fieldMul z2 x1
    let z2 := z2 ^^^ x2
    let z2 := curve.fieldMul z2 z1
    let t4 := curve.fieldSqr x
    let t4 := t4 ^^^ y
    let t4 := curve.fieldMul t4 t3
    let t4 := t4 ^^^ z2
    let t3 := curve.fieldMul t3 x
    let t3 ← curve.fieldDiv t5 t3
    let t4 := curve.fieldMul t3 t4
    let x2 := curve.fieldMul x1 t3
    let z2 := x2 ^^^ x
    let z2 := curve.fieldMul z2 t4
    let z2 := z2 ^^^ y
    return .affine x2 z2

/-- The two points of the ladder, by their first coordinates. -/
structure Ladder where
  x1 : Nat
  z1 : Nat
  x2 : Nat
  z2 : Nat

def Ladder.swap (bit : Bool) (ladder : Ladder) : Ladder :=
  if bit then ⟨ladder.x2, ladder.z2, ladder.x1, ladder.z1⟩ else ladder

/-- One bit of the scalar. -/
def ladderStep (x : Nat) (bit : Bool) (ladder : Ladder) : Ladder :=
  let ladder := ladder.swap bit
  let (x2, z2) := curve.mAdd x ladder.x2 ladder.z2 ladder.x1 ladder.z1
  let (x1, z1) := curve.mDouble ladder.x1 ladder.z1
  Ladder.swap bit ⟨x1, z1, x2, z2⟩

/-- The bits below `count`, from the top. -/
def ladderLoop (x : Nat) (scalar : BigNum) : Nat → Ladder → Ladder
  | 0, ladder => ladder
  | count + 1, ladder => ladderLoop x scalar count (curve.ladderStep x (scalar.isBitSet count) ladder)

/-- `ec_GF2m_montgomery_point_multiply`, which the callers never give `r` as the point. -/
def montgomeryPointMultiply [DecidableEq F] (r : EcPoint) (scalar : Option BigNum)
    (point : Option EcPoint) : Option EcPoint :=
  match scalar, point with
  | some scalar, some point =>
      if scalar.isZero ∨ point.isAtInfinity then some r.setToInfinity
      else if !point.Z_is_one then none
      else do
        let x1 := curve.modArr point.X
        let z2 := curve.fieldSqr x1
        let x2 := curve.fieldSqr z2
        let x2 := x2 ^^^ curve.b
        let ladder := curve.ladderLoop point.X scalar (scalar.numBits - 1) ⟨x1, 1, x2, z2⟩
        match ← curve.mXY point.X point.Y ladder.x1 ladder.z1 ladder.x2 ladder.z2 with
        | .infinity x2 z2 => return { r with X := x2, Y := z2 }.setToInfinity
        | .affine x2 z2 => return ⟨x2, z2, 1, true⟩
  | _, _ => some r.setToInfinity

/-- `p` and `acc` of `ec_GF2m_simple_mul`. -/
structure Sums where
  p : EcPoint
  acc : EcPoint

def addProduct [DecidableEq F] (sums : Sums) (scalar : BigNum) (point : Option EcPoint) :
    Option Sums := do
  let p ← curve.montgomeryPointMultiply sums.p (some scalar) point
  let p ← p.invertFor scalar
  let acc ← curve.simpleAdd sums.acc sums.acc p
  return ⟨p, acc⟩

/-- `ec_GF2m_simple_mul`. -/
def simpleMul [DecidableEq F] (group : EcGroup EcPoint) (r : EcPoint) (scalar : Option BigNum)
    (terms : List (EcPoint × BigNum)) : Option EcPoint :=
  if (scalar.isSome ∧ terms.length > 1) ∨ terms.length > 2 ∨
      (terms.length = 0 ∧ group.pre_comp.isSome) then
    ecWNAFMul group r scalar terms
  else do
    let sums : Sums := ⟨ecPointNew, ecPointNew.setToInfinity⟩
    let sums ←
      match scalar with
      | none => some sums
      | some scalar => curve.addProduct sums scalar group.generator
    let sums ← terms.foldlM (fun sums term => curve.addProduct sums term.2 (some term.1)) sums
    return sums.acc

end BinaryCurve

/-! The parameter for one polynomial. -/

/-- The value of the polynomial that the bits of `a` are. -/
def valueAt (root : F) (a : Nat) : F :=
  if a = 0 then 0 else (if a % 2 = 1 then 1 else 0) + root * valueAt root (a / 2)
termination_by a

theorem valueAt_eq (root : F) (a : Nat) :
    valueAt root a = (if a % 2 = 1 then 1 else 0) + root * valueAt root (a / 2) := by
  by_cases zero : a = 0
  · subst zero
    simp [valueAt]
  · rw [valueAt, if_neg zero]

theorem valueAt_zero (root : F) : valueAt root 0 = 0 := by rw [valueAt, if_pos rfl]

theorem valueAt_one (root : F) : valueAt root 1 = 1 := by
  have high : valueAt root (1 / 2) = 0 := valueAt_zero root
  rw [valueAt_eq, high, mul_zero, add_zero]
  rfl

theorem valueAt_xor [CharP F 2] (root : F) (a b : Nat) :
    valueAt root (a ^^^ b) = valueAt root a + valueAt root b := by
  induction a using Nat.strong_induction_on generalizing b with
  | _ a ih =>
      by_cases zero : a = 0
      · rw [zero, Nat.zero_xor, valueAt_zero, zero_add]
      have parity : (if (a ^^^ b) % 2 = 1 then 1 else 0 : F) =
          (if a % 2 = 1 then 1 else 0) + if b % 2 = 1 then 1 else 0 := by
        have two : (1 : F) + 1 = 0 := CharTwo.add_self_eq_zero 1
        rw [Nat.xor_mod_two_eq]
        split_ifs <;> first | omega | simp [two]
      rw [valueAt_eq root (a ^^^ b), Nat.xor_div_two, ih (a / 2) (by omega), valueAt_eq root a,
        valueAt_eq root b, parity]
      ring

/-- The field of four elements, that of the trinomial `x ^ 2 + x + 1`. -/
inductive Four | zero | one | root | next
  deriving DecidableEq

namespace Four

instance : Fintype Four := ⟨{zero, one, root, next}, fun x => by cases x <;> decide⟩

def add : Four → Four → Four
  | zero, x => x
  | x, zero => x
  | one, one => zero
  | one, root => next
  | one, next => root
  | root, one => next
  | root, root => zero
  | root, next => one
  | next, one => root
  | next, root => one
  | next, next => zero

def mul : Four → Four → Four
  | zero, _ => zero
  | _, zero => zero
  | one, x => x
  | x, one => x
  | root, root => next
  | root, next => one
  | next, root => one
  | next, next => root

def inv : Four → Four
  | zero => zero
  | one => one
  | root => next
  | next => root

instance : Zero Four := ⟨zero⟩
instance : One Four := ⟨one⟩
instance : Add Four := ⟨add⟩
instance : Neg Four := ⟨id⟩
instance : Mul Four := ⟨mul⟩
instance : Inv Four := ⟨inv⟩

instance : Field Four where
  add_assoc := by decide
  zero_add := by decide
  add_zero := by decide
  add_comm := by decide
  neg_add_cancel := by decide
  left_distrib := by decide
  right_distrib := by decide
  zero_mul := by decide
  mul_zero := by decide
  mul_assoc := by decide
  one_mul := by decide
  mul_one := by decide
  mul_comm := by decide
  exists_pair_ne := ⟨zero, one, by decide⟩
  mul_inv_cancel := by decide
  inv_zero := rfl
  nsmul := nsmulRec
  zsmul := zsmulRec
  nnqsmul := _
  qsmul := _

instance : CharP Four 2 := CharTwo.of_one_ne_zero_of_two_eq_zero (by decide) rfl

def remainder : Four → Nat
  | zero => 0
  | one => 1
  | root => 2
  | next => 3

theorem valueAt_remainder (f : Four) : valueAt root (remainder f) = f := by
  have one_high : ∀ a, a / 2 = 1 → valueAt root (a / 2) = 1 := fun a half => by
    rw [half, valueAt_one]
  cases f with
  | zero => exact valueAt_zero root
  | one => exact valueAt_one root
  | root =>
      rw [valueAt_eq, one_high _ rfl]
      rfl
  | next =>
      rw [valueAt_eq, one_high _ rfl]
      rfl

def field : BinaryField Four where
  field := 7
  elem := valueAt root
  reduced := remainder
  elem_xor := valueAt_xor root
  elem_one := valueAt_one root
  elem_reduced := valueAt_remainder
  reduced_elem a small := by
    have below : a < 4 := small
    obtain ⟨f, rfl⟩ : ∃ f, remainder f = a := by
      interval_cases a
      · exact ⟨zero, rfl⟩
      · exact ⟨one, rfl⟩
      · exact ⟨root, rfl⟩
      · exact ⟨next, rfl⟩
    rw [valueAt_remainder]
  reduced_lt f := by
    cases f <;> decide

/-- `y ^ 2 + x y = x ^ 3 + root`, a curve of four points. -/
def curve : BinaryCurve Four := { field with a := 0, b := 2 }

/-- `y ^ 2 + x y = x ^ 3 + root x ^ 2 + next`, which has the point `(1, 0)`. -/
def flatCurve : BinaryCurve Four := { field with a := 2, b := 3 }

end Four

end EChainLib.Ec
