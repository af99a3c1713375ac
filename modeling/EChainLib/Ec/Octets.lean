import Mathlib
import EChainLib.Ec.Binary
import EChainLib.Support.BigEndian

/-! `EC_POINT_point2oct` and `EC_POINT_oct2point`: the octets of `ec2_oct.cpp` and of `ecp_oct.cpp`.
`none` is a call that returns zero. -/

namespace EChainLib.Ec

open BigEndian (decode padded shortest)

def pointConversionCompressed : Nat := 2
def pointConversionUncompressed : Nat := 4
def pointConversionHybrid : Nat := 6

/-- Where the two implementations differ. -/
structure OctetMethod (P : Type) where
  field : Nat
  field_len : Nat
  setToInfinity : P → P
  isAtInfinity : P → Bool
  getAffineCoordinates : P → Option (Nat × Nat)
  setAffineCoordinates : P → Nat → Nat → Option P
  setCompressedCoordinates : P → Nat → Bool → Option P
  isOnCurve : P → Int
  /-- What is added to the form of a point. -/
  formBit : Nat → Nat → Nat → Option Bool
  /-- What is to be added to the hybrid form. -/
  hybridBit : Nat → Nat → Option Bool

namespace OctetMethod
variable {P : Type} (m : OctetMethod P)

/-- `ret` or `enc_len`. -/
def encLen (form : Nat) : Nat :=
  if form = pointConversionCompressed then 1 + m.field_len else 1 + 2 * m.field_len

def coordinateOctets (n : Nat) : Option (List UInt8) :=
  if (shortest n).length > m.field_len then none else some (padded m.field_len n)

/-- `point2oct`: the return value and what is in the buffer, of this length where there is one. -/
def point2oct (point : P) (form : Nat) (len : Option Nat) : Option (Nat × List UInt8) :=
  if form ≠ pointConversionCompressed ∧ form ≠ pointConversionUncompressed ∧
      form ≠ pointConversionHybrid then none
  else if m.isAtInfinity point then
    match len with
    | none => some (1, [])
    | some len => if len < 1 then none else some (1, [0])
  else
    match len with
    | none => some (m.encLen form, [])
    | some len =>
        if len < m.encLen form then none
        else do
          let (x, y) ← m.getAffineCoordinates point
          let bit ← m.formBit form x y
          let xs ← m.coordinateOctets x
          let ys ← if form = pointConversionCompressed then some [] else m.coordinateOctets y
          return (m.encLen form, UInt8.ofNat (form + bit.toNat) :: (xs ++ ys))

/-- The point that `oct2point` sets before it looks whether it is on the curve. -/
def readCoordinates (point : P) (form : Nat) (y_bit : Bool) (x y : Nat) : Option P :=
  if form = pointConversionCompressed then m.setCompressedCoordinates point x y_bit
  else if y ≥ m.field then none
  else if form = pointConversionHybrid then
    (m.hybridBit x y).bind fun bit =>
      if y_bit ≠ bit then none else m.setAffineCoordinates point x y
  else m.setAffineCoordinates point x y

def readPoint (point : P) (form : Nat) (y_bit : Bool) (x y : Nat) : Option P :=
  if x ≥ m.field then none
  else
    (m.readCoordinates point form y_bit x y).bind fun point =>
      if m.isOnCurve point ≤ 0 then none else some point

/-- `oct2point` behind the first octet, of which it has made `form` and `y_bit`. -/
def readForm (point : P) (form : Nat) (y_bit : Bool) (rest : List UInt8) : Option P :=
  if form ≠ 0 ∧ form ≠ pointConversionCompressed ∧ form ≠ pointConversionUncompressed ∧
      form ≠ pointConversionHybrid then none
  else if (form = 0 ∨ form = pointConversionUncompressed) ∧ y_bit then none
  else if form = 0 then if rest.length + 1 ≠ 1 then none else some (m.setToInfinity point)
  else if rest.length + 1 ≠ m.encLen form then none
  else
    m.readPoint point form y_bit (decode (rest.take m.field_len))
      (decode ((rest.drop m.field_len).take m.field_len))

/-- `oct2point`. -/
def oct2point (point : P) : List UInt8 → Option P
  | [] => none
  | first :: rest =>
      m.readForm point (first.toNat - first.toNat % 2) (first.toNat % 2 = 1) rest

end OctetMethod

/-! `ec2_oct.cpp`. -/

section
variable {F : Type} [Field F]

/-- `BN_GF2m_mod_sqrt_arr` and `BN_GF2m_mod_solve_quad_arr`, which of the two solutions it finds
being left open. -/
structure BinaryRoots (gf : BinaryField F) where
  sqrt : Nat → Nat
  solveQuad : Nat → Option Nat
  sqrt_lt : ∀ a, sqrt a < 2 ^ gf.degree
  sqrt_sqr : ∀ a, gf.elem (sqrt a) ^ 2 = gf.elem a
  solved : ∀ a z, solveQuad a = some z →
    z < 2 ^ gf.degree ∧ gf.elem z ^ 2 + gf.elem z = gf.elem a
  unsolved : ∀ a, solveQuad a = none → ∀ z, z ^ 2 + z ≠ gf.elem a

namespace BinaryCurve
variable [DecidableEq F] (curve : BinaryCurve F) (roots : BinaryRoots curve.toBinaryField)

/-- `ec_GF2m_simple_set_compressed_coordinates`. -/
def setCompressedCoordinates (x_ : Nat) (y_bit : Bool) : Option EcPoint :=
  let x := curve.modArr x_
  if x = 0 then some (EcPoint.setAffineCoordinates x (roots.sqrt curve.b))
  else do
    let tmp := curve.fieldSqr x
    let tmp ← curve.fieldDiv curve.b tmp
    let tmp := curve.a ^^^ tmp
    let tmp := x ^^^ tmp
    let z ← roots.solveQuad tmp
    let z0 : Bool := z % 2 = 1
    let y := curve.fieldMul x z
    let y := if z0 ≠ y_bit then y ^^^ x else y
    return EcPoint.setAffineCoordinates x y

/-- The functions of `ec2_oct.cpp`. -/
def octets : OctetMethod EcPoint where
  field := curve.field
  field_len := (curve.degree + 7) / 8
  setToInfinity := EcPoint.setToInfinity
  isAtInfinity := EcPoint.isAtInfinity
  getAffineCoordinates := EcPoint.getAffineCoordinates
  setAffineCoordinates _ x y := some (EcPoint.setAffineCoordinates x y)
  setCompressedCoordinates _ x y_bit := curve.setCompressedCoordinates roots x y_bit
  isOnCurve := curve.isOnCurve
  formBit form x y :=
    if form ≠ pointConversionUncompressed ∧ x ≠ 0 then
      (curve.fieldDiv y x).map fun yxi => yxi % 2 = 1
    else some false
  hybridBit x y := (curve.fieldDiv y x).map fun yxi => yxi % 2 = 1

end BinaryCurve

end

/-- A solution of `z ^ 2 + z = f`. -/
def Four.solve : Four → Option Four
  | .zero => some .zero
  | .one => some .root
  | _ => none

def Four.roots : BinaryRoots Four.curve.toBinaryField where
  sqrt a := Four.remainder (Four.curve.elem a ^ 2)
  solveQuad a := (Four.solve (Four.curve.elem a)).map Four.remainder
  sqrt_lt a := Four.curve.reduced_lt _
  sqrt_sqr a := by
    have fourth : ∀ f : Four, (f ^ 2) ^ 2 = f := by decide
    exact (congrArg (· ^ 2) (Four.curve.elem_reduced _)).trans (fourth _)
  solved a z found := by
    have solves : ∀ f z : Four, Four.solve f = some z → z ^ 2 + z = f := by decide
    obtain ⟨f, solved, rfl⟩ := Option.map_eq_some_iff.mp found
    have value : Four.curve.elem (Four.remainder f) = f := Four.curve.elem_reduced f
    rw [value]
    exact ⟨Four.curve.reduced_lt f, solves _ _ solved⟩
  unsolved a refused := by
    have unsolvable : ∀ f : Four, Four.solve f = none → ∀ z, z ^ 2 + z ≠ f := by decide
    exact unsolvable _ (Option.map_eq_none_iff.mp refused)

/-! `ecp_oct.cpp`. -/

/-- The curve `y ^ 2 = x ^ 3 + a x + b` of an `EC_GROUP` over a prime field, its parameters decoded,
with `BN_mod_sqrt`. -/
structure PrimeCurve where
  field : Nat
  a : Nat
  b : Nat
  a_is_minus3 : Bool
  sqrt : Nat → Option Nat

/-- The points of the method, reached by the functions that read and write coordinates. -/
structure PrimePoints (P : Type) where
  setToInfinity : P → P
  isAtInfinity : P → Bool
  getAffineCoordinates : P → Option (Nat × Nat)
  setAffineCoordinates : P → Nat → Nat → Option P
  isOnCurve : P → Int

namespace PrimeCurve
variable (curve : PrimeCurve) {P : Type} (points : PrimePoints P)

/-- `tmp1` of `ec_GFp_simple_set_compressed_coordinates`, the right side of the equation. -/
def rightSide (x_ : Nat) : Nat :=
  let x := x_ % curve.field
  let tmp2 := x_ * x_ % curve.field
  let tmp1 := tmp2 * x_ % curve.field
  let tmp1 :=
    if curve.a_is_minus3 then
      let tmp2 := (x + x) % curve.field
      let tmp2 := (tmp2 + x) % curve.field
      (tmp1 + (curve.field - tmp2)) % curve.field
    else
      let tmp2 := curve.a * x % curve.field
      (tmp1 + tmp2) % curve.field
  (tmp1 + curve.b) % curve.field

/-- The root with this last bit. -/
def chooseRoot (y_bit : Bool) (y : Nat) : Option Nat :=
  if y_bit ≠ decide (y % 2 = 1) then if y = 0 then none else some (curve.field - y) else some y

/-- `ec_GFp_simple_set_compressed_coordinates`. -/
def setCompressedCoordinates (point : P) (x_ : Nat) (y_bit : Bool) : Option P :=
  let x := x_ % curve.field
  (curve.sqrt (curve.rightSide x_)).bind fun y =>
    (curve.chooseRoot y_bit y).bind fun y =>
      if y_bit ≠ decide (y % 2 = 1) then none else points.setAffineCoordinates point x y

/-- The functions of `ecp_oct.cpp`. -/
def octets : OctetMethod P where
  field := curve.field
  field_len := (Nat.size curve.field + 7) / 8
  setToInfinity := points.setToInfinity
  isAtInfinity := points.isAtInfinity
  getAffineCoordinates := points.getAffineCoordinates
  setAffineCoordinates := points.setAffineCoordinates
  setCompressedCoordinates := curve.setCompressedCoordinates points
  isOnCurve := points.isOnCurve
  formBit form _ y :=
    some (decide ((form = pointConversionCompressed ∨ form = pointConversionHybrid) ∧ y % 2 = 1))
  hybridBit _ y := some (decide (y % 2 = 1))

end PrimeCurve

end EChainLib.Ec
