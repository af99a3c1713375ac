import Mathlib
import EChainLib.Ec.Binary
import EChainLib.Ec.WnafMul
import EChainLib.Support.CharTwoCurve

/-! The point functions of `ec2_smpl.cpp` compute in the group of the curve. -/

namespace EChainLib.Ec

open CharTwoCurve (At OnCurve)

variable {F : Type} [Field F]

/-! Coordinates as field elements. -/

namespace BinaryField
variable (gf : BinaryField F)

attribute [simp] elem_xor elem_one elem_reduced

@[simp] theorem elem_zero : gf.elem 0 = 0 := by
  have twice := gf.elem_xor 0 0
  rw [Nat.xor_self] at twice
  exact (left_eq_add.mp twice)

include gf in
theorem charP : CharP F 2 := by
  refine CharTwo.of_one_ne_zero_of_two_eq_zero one_ne_zero ?_
  have twice := gf.elem_xor 1 1
  rw [Nat.xor_self, gf.elem_zero, gf.elem_one, one_add_one_eq_two] at twice
  exact twice.symm

theorem elem_inj {a b : Nat} (a_lt : a < 2 ^ gf.degree) (b_lt : b < 2 ^ gf.degree) :
    gf.elem a = gf.elem b ↔ a = b := by
  refine ⟨fun same => ?_, congrArg gf.elem⟩
  rw [← gf.reduced_elem a a_lt, same, gf.reduced_elem b b_lt]

theorem elem_eq_zero {a : Nat} (a_lt : a < 2 ^ gf.degree) : gf.elem a = 0 ↔ a = 0 := by
  rw [← elem_zero gf]
  exact gf.elem_inj a_lt (Nat.two_pow_pos _)

@[simp] theorem elem_modArr (a : Nat) : gf.elem (gf.modArr a) = gf.elem a := gf.elem_reduced _

@[simp] theorem elem_fieldMul (a b : Nat) : gf.elem (gf.fieldMul a b) = gf.elem a * gf.elem b :=
  gf.elem_reduced _

@[simp] theorem elem_fieldSqr (a : Nat) : gf.elem (gf.fieldSqr a) = gf.elem a ^ 2 :=
  gf.elem_reduced _

theorem modArr_lt (a : Nat) : gf.modArr a < 2 ^ gf.degree := gf.reduced_lt _

theorem fieldMul_lt (a b : Nat) : gf.fieldMul a b < 2 ^ gf.degree := gf.reduced_lt _

theorem fieldSqr_lt (a : Nat) : gf.fieldSqr a < 2 ^ gf.degree := gf.reduced_lt _

theorem one_lt : 1 < 2 ^ gf.degree := by
  by_contra small
  have below := gf.reduced_lt 1
  have zero : gf.reduced 1 = 0 := by
    rw [degree] at small
    omega
  have one := gf.elem_reduced 1
  rw [zero, elem_zero] at one
  exact zero_ne_one one

/-- A quotient exists for every divisor but zero. -/
theorem fieldDiv_eq [DecidableEq F] {a b : Nat} (nonzero : gf.elem b ≠ 0) :
    ∃ s, gf.fieldDiv a b = some s ∧ s < 2 ^ gf.degree ∧ gf.elem s = gf.elem a / gf.elem b :=
  ⟨_, if_neg nonzero, gf.reduced_lt _, gf.elem_reduced _⟩

end BinaryField

/-- The parameters are reduced, as `ec_GF2m_simple_group_set_curve` leaves them, and the
discriminant has been checked. -/
structure BinaryCurve.Sound (curve : BinaryCurve F) : Prop where
  a_lt : curve.a < 2 ^ curve.degree
  b_lt : curve.b < 2 ^ curve.degree
  smooth : curve.elem curve.b ≠ 0

namespace BinaryCurve

theorem setCurve_sound (gf : BinaryField F) (a b : Nat)
    (checked : (setCurve gf a b).checkDiscriminant = true) : (setCurve gf a b).Sound where
  a_lt := gf.modArr_lt a
  b_lt := gf.modArr_lt b
  smooth := by
    intro zero
    rw [checkDiscriminant, decide_eq_true_eq] at checked
    have reduced := (setCurve gf a b).modArr_lt (setCurve gf a b).b
    exact checked (((setCurve gf a b).elem_eq_zero reduced).mp
      ((BinaryField.elem_modArr _ _).trans zero))

/-- The points of the curve that the parameters describe. -/
abbrev Points (curve : BinaryCurve F) : Type :=
  (CharTwoCurve.curve (curve.elem curve.a) (curve.elem curve.b)).Point

end BinaryCurve

/-- The `EC_POINT` holds the point, in affine coordinates that are reduced. -/
inductive Holds (curve : BinaryCurve F) : EcPoint → curve.Points → Prop
  | infinity {point : EcPoint} (zero : point.Z = 0) : Holds curve point 0
  | affine {X Y : Nat} {P : curve.Points} (X_lt : X < 2 ^ curve.degree)
      (Y_lt : Y < 2 ^ curve.degree) (here : At P (curve.elem X) (curve.elem Y)) :
      Holds curve ⟨X, Y, 1, true⟩ P

namespace Holds
variable {curve : BinaryCurve F} {point other : EcPoint} {P Q : curve.Points}

theorem setToInfinity (point : EcPoint) : Holds curve point.setToInfinity 0 := .infinity rfl

theorem at_affine {X Y : Nat} (holds : Holds curve ⟨X, Y, 1, true⟩ P) :
    At P (curve.elem X) (curve.elem Y) := by
  cases holds with
  | infinity zero => cases zero
  | affine X_lt Y_lt here => exact here

theorem isAtInfinity (holds : Holds curve point P) : point.isAtInfinity = true ↔ P = 0 := by
  cases holds with
  | infinity zero => simp [EcPoint.isAtInfinity, zero]
  | affine X_lt Y_lt here => simp [EcPoint.isAtInfinity, here.ne_zero]

theorem makeAffine (holds : Holds curve point P) : point.makeAffine = some point := by
  refine if_pos ?_
  cases holds with
  | infinity zero => simp [EcPoint.isAtInfinity, zero]
  | affine X_lt Y_lt here => simp

theorem pointsMakeAffine {points : List EcPoint} {Ps : List curve.Points}
    (all : List.Forall₂ (Holds curve) points Ps) :
    EcPoint.pointsMakeAffine points = some points := by
  induction all with
  | nil => rfl
  | cons head tail ih =>
      rw [EcPoint.pointsMakeAffine] at ih ⊢
      rw [List.mapM_cons, head.makeAffine, ih]
      rfl

theorem cmp (holds : Holds curve point P) (held : Holds curve other Q) :
    EcPoint.cmp point other = 0 ↔ P = Q := by
  cases holds with
  | infinity zero =>
      cases held with
      | infinity other_zero => simp [EcPoint.cmp, EcPoint.isAtInfinity, zero, other_zero]
      | affine X_lt Y_lt here =>
          simp [EcPoint.cmp, EcPoint.isAtInfinity, zero, here.ne_zero.symm]
  | affine X_lt Y_lt here =>
      cases held with
      | infinity other_zero => simp [EcPoint.cmp, EcPoint.isAtInfinity, other_zero, here.ne_zero]
      | affine X₁_lt Y₁_lt there =>
          simp only [EcPoint.cmp, EcPoint.isAtInfinity, one_ne_zero, decide_false,
            Bool.false_eq_true, if_false, and_self, if_true]
          constructor
          · intro equal
            split at equal
            · rename_i same
              rw [← same.1, ← same.2] at there
              exact here.same there
            · cases equal
          · rintro rfl
            obtain ⟨X_same, Y_same⟩ := here.unique there
            exact if_pos ⟨(curve.elem_inj X_lt X₁_lt).mp X_same,
              (curve.elem_inj Y_lt Y₁_lt).mp Y_same⟩

/-- `ec_GF2m_simple_invert` leaves a point with second coordinate zero as it is. -/
theorem invert_flat (holds : Holds curve point P) {x : F} (here : At P x 0) :
    point.invert = some point := by
  cases holds with
  | infinity zero => exact absurd rfl here.ne_zero
  | affine X_lt Y_lt there =>
      have flat := (curve.elem_eq_zero Y_lt).mp (there.unique here).2
      exact if_pos (.inr flat)

/-- So it is right for the others, and for that over the origin. -/
theorem invert_iff (holds : Holds curve point P) :
    (∃ inverse, point.invert = some inverse ∧ Holds curve inverse (-P)) ↔
      ∀ x, At P x 0 → x = 0 := by
  have two := curve.charP
  cases holds with
  | infinity zero =>
      refine iff_of_true ⟨point, if_pos (.inl (by simp [EcPoint.isAtInfinity, zero])), ?_⟩
        fun x here => absurd rfl here.ne_zero
      rw [WeierstrassCurve.Affine.Point.neg_zero]
      exact .infinity zero
  | @affine X Y _ X_lt Y_lt here =>
      by_cases flat : Y = 0
      · subst flat
        rw [BinaryField.elem_zero] at here
        have same : EcPoint.invert ⟨X, 0, 1, true⟩ = some ⟨X, 0, 1, true⟩ := if_pos (.inr rfl)
        constructor
        · rintro ⟨inverse, inverted, held⟩ x there
          rw [same, Option.some.injEq] at inverted
          subst inverted
          have turned := held.at_affine
          rw [BinaryField.elem_zero] at turned
          rw [(there.unique here).1]
          exact here.zero_of_neg (turned.same here)
        · intro only
          refine ⟨_, same, .affine X_lt Y_lt ?_⟩
          have origin := only _ here
          rw [origin] at here ⊢
          rw [here.neg_of_zero, BinaryField.elem_zero]
          exact here
      · refine iff_of_true ?_ fun x there => ?_
        · refine ⟨⟨X, X ^^^ Y, 1, true⟩, ?_, .affine X_lt (Nat.xor_lt_two_pow X_lt Y_lt) ?_⟩
          · simp [EcPoint.invert, EcPoint.isAtInfinity, flat, EcPoint.makeAffine]
          · rw [BinaryField.elem_xor]
            exact here.neg
        · exact absurd ((curve.elem_eq_zero Y_lt).mp (here.unique there).2) flat

theorem isOnCurve (sound : curve.Sound) (holds : Holds curve point P) :
    0 < curve.isOnCurve point := by
  cases holds with
  | infinity zero => simp [BinaryCurve.isOnCurve, EcPoint.isAtInfinity, zero]
  | @affine X Y _ X_lt Y_lt here =>
      have two := curve.charP
      have sum : curve.fieldMul (curve.fieldMul (X ^^^ curve.a) X ^^^ Y) X ^^^ curve.b ^^^
          curve.fieldSqr Y = 0 := by
        rw [← curve.elem_eq_zero (Nat.xor_lt_two_pow
          (Nat.xor_lt_two_pow (curve.fieldMul_lt _ _) sound.b_lt) (curve.fieldSqr_lt _))]
        have on := here.onCurve
        have zero : (2 : F) = 0 := CharTwo.two_eq_zero
        rw [OnCurve] at on
        simp only [BinaryField.elem_xor, BinaryField.elem_fieldMul, BinaryField.elem_fieldSqr]
        grind
      simp [BinaryCurve.isOnCurve, EcPoint.isAtInfinity, sum]

end Holds

/-! Addition. -/

section
variable {curve : BinaryCurve F}

theorem addFinish_holds {x1 y1 x2 s : Nat} {P : curve.Points} (x2_lt : x2 < 2 ^ curve.degree)
    (y1_lt : y1 < 2 ^ curve.degree)
    (here : At P (curve.elem x2)
      ((curve.elem x1 + curve.elem x2) * curve.elem s + curve.elem x2 + curve.elem y1)) :
    Holds curve (curve.addFinish x1 y1 x2 s) P := by
  refine .affine x2_lt
    (Nat.xor_lt_two_pow (Nat.xor_lt_two_pow (curve.fieldMul_lt _ _) x2_lt) y1_lt) ?_
  simpa using here

theorem onCurve_of_accepted (sound : curve.Sound) {x y : Nat}
    (accepted : ¬ curve.isOnCurve ⟨x, y, 1, true⟩ ≤ 0) :
    ∃ P : curve.Points, At P (curve.elem x) (curve.elem y) := by
  have two := curve.charP
  have sum : curve.fieldMul (curve.fieldMul (x ^^^ curve.a) x ^^^ y) x ^^^ curve.b ^^^
      curve.fieldSqr y = 0 := by
    by_contra nonzero
    exact accepted (by simp [BinaryCurve.isOnCurve, EcPoint.isAtInfinity, nonzero])
  have value := congrArg curve.elem sum
  simp only [BinaryField.elem_xor, BinaryField.elem_fieldMul, BinaryField.elem_fieldSqr,
    BinaryField.elem_zero] at value
  refine CharTwoCurve.exists_at sound.smooth ?_
  have zero : (2 : F) = 0 := CharTwo.two_eq_zero
  rw [OnCurve]
  grind

theorem simpleAdd_holds [DecidableEq F] (sound : curve.Sound) (r : EcPoint) {a b : EcPoint}
    {P Q : curve.Points} (left : Holds curve a P) (right : Holds curve b Q) :
    ∃ c, curve.simpleAdd r a b = some c ∧ Holds curve c (P + Q) := by
  have two := curve.charP
  cases left with
  | infinity zero =>
      rw [zero_add]
      exact ⟨b, if_pos (by simp [EcPoint.isAtInfinity, zero]), right⟩
  | @affine x0 y0 _ x0_lt y0_lt here =>
      cases right with
      | infinity zero =>
          rw [add_zero]
          refine ⟨⟨x0, y0, 1, true⟩, ?_, .affine x0_lt y0_lt here⟩
          simp [BinaryCurve.simpleAdd, EcPoint.isAtInfinity, zero]
      | @affine x1 y1 _ x1_lt y1_lt there =>
          simp only [BinaryCurve.simpleAdd, EcPoint.isAtInfinity, one_ne_zero, decide_false,
            Bool.false_eq_true, if_false, EcPoint.coordinates, if_true, Option.bind_eq_bind,
            Option.bind_some]
          -- the chord, the point at infinity, or the tangent
          by_cases apart : x0 ≠ x1
          · have first_apart : curve.elem x0 ≠ curve.elem x1 :=
              (curve.elem_inj x0_lt x1_lt).not.mpr apart
            have divisor : curve.elem (x0 ^^^ x1) ≠ 0 := by
              rw [BinaryField.elem_xor]
              exact fun zero => first_apart (CharTwo.add_eq_zero.mp zero)
            obtain ⟨s, divided, s_lt, slope⟩ := curve.fieldDiv_eq (a := y0 ^^^ y1) divisor
            rw [BinaryField.elem_xor, BinaryField.elem_xor] at slope
            rw [if_pos apart, divided]
            refine ⟨_, rfl, addFinish_holds (Nat.xor_lt_two_pow (Nat.xor_lt_two_pow
              (Nat.xor_lt_two_pow (curve.fieldSqr_lt _) sound.a_lt) s_lt)
              (Nat.xor_lt_two_pow x0_lt x1_lt)) y1_lt ?_⟩
            refine here.add_of_ne there first_apart slope ?_
            simp only [BinaryField.elem_xor, BinaryField.elem_fieldSqr]
            ring
          · obtain rfl := not_not.mp apart
            rw [if_neg apart]
            by_cases ends : y0 ≠ y1 ∨ x0 = 0
            · rw [if_pos ends]
              refine ⟨_, rfl, ?_⟩
              have opposite : Q = -P := by
                rcases ends with turned | origin
                · exact here.opposite there ((curve.elem_inj y0_lt y1_lt).not.mpr turned)
                · rw [origin, BinaryField.elem_zero] at here there
                  rcases here.same_x there with same | opposite
                  · rw [same, here.neg_of_zero]
                  · exact opposite
              rw [opposite, add_neg_cancel]
              exact .setToInfinity r
            · obtain ⟨same_y, nonzero⟩ := not_or.mp ends
              obtain rfl := not_not.mp same_y
              obtain rfl := here.same there
              have divisor : curve.elem x0 ≠ 0 := (curve.elem_eq_zero x0_lt).not.mpr nonzero
              obtain ⟨s, divided, s_lt, slope⟩ := curve.fieldDiv_eq (a := y0) divisor
              rw [if_neg ends, divided]
              refine ⟨_, rfl, addFinish_holds (Nat.xor_lt_two_pow (Nat.xor_lt_two_pow
                (curve.fieldSqr_lt _) (Nat.xor_lt_two_pow s_lt x0_lt)) sound.a_lt) y0_lt ?_⟩
              have rise : curve.elem (s ^^^ x0) = curve.elem y0 / curve.elem x0 + curve.elem x0 := by
                rw [BinaryField.elem_xor, slope]
              refine here.double divisor rise ?_
              simp only [BinaryField.elem_xor, BinaryField.elem_fieldSqr]

end

end EChainLib.Ec
