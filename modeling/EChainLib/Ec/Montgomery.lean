import Mathlib
import EChainLib.Ec.BinaryPoints
import EChainLib.Ec.Precomputation

/-! The products that `ec2_mult.cpp` computes, by its ladder and by wNAFs. -/

namespace EChainLib.Ec

open CharTwoCurve (At OnCurve FirstAt)

variable {F : Type} [Field F] [DecidableEq F] {curve : BinaryCurve F}

theorem simpleMethod_lawful (sound : curve.Sound)
    (origin : ∀ x, OnCurve (curve.elem curve.a) (curve.elem curve.b) x 0 → x = 0) :
    Lawful curve.simpleMethod (Holds curve) where
  infinity := Holds.setToInfinity
  add left right := simpleAdd_holds sound _ left right
  dbl holds := by
    rw [two_smul]
    exact simpleAdd_holds sound _ holds holds
  invert holds := holds.invert_iff.mpr fun x here => origin x here.onCurve
  at_infinity := Holds.isAtInfinity
  on_curve := Holds.isOnCurve sound
  cmp := Holds.cmp
  make_affine all := ⟨_, Holds.pointsMakeAffine all, all⟩

/-- The `EC_METHOD` computes in the group of the curve exactly when no point but one at the origin
of the first axis has second coordinate zero; such a point is its own inverse to it. -/
theorem simpleMethod_lawful_iff (sound : curve.Sound) :
    (Lawful curve.simpleMethod (Holds curve) ↔
      ∀ x, OnCurve (curve.elem curve.a) (curve.elem curve.b) x 0 → x = 0) ∧
    ∀ {point : EcPoint} {P : curve.Points} {x : F}, Holds curve point P → At P x 0 →
      curve.simpleMethod.invert point = some point := by
  have two := curve.charP
  refine ⟨⟨fun lawful x on => ?_, simpleMethod_lawful sound⟩, fun holds here => holds.invert_flat here⟩
  obtain ⟨P, here⟩ := CharTwoCurve.exists_at sound.smooth on
  have held : Holds curve ⟨curve.reduced x, 0, 1, true⟩ P := by
    refine .affine (curve.reduced_lt x) (Nat.two_pow_pos _) ?_
    rw [BinaryField.elem_reduced, BinaryField.elem_zero]
    exact here
  exact held.invert_iff.mp (lawful.invert held) x here

theorem Four.curve_sound : Four.curve.Sound := by
  have checked : (BinaryCurve.setCurve Four.field 0 2).checkDiscriminant = true := by decide +kernel
  have a_reduced : Four.field.modArr 0 = 0 := by decide +kernel
  have b_reduced : Four.field.modArr 2 = 2 := by decide +kernel
  have sound := BinaryCurve.setCurve_sound Four.field 0 2 checked
  rwa [BinaryCurve.setCurve, a_reduced, b_reduced] at sound

theorem Four.curve_origin :
    ∀ x, OnCurve (Four.curve.elem Four.curve.a) (Four.curve.elem Four.curve.b) x 0 → x = 0 := by
  have zero : Four.curve.elem Four.curve.a = 0 := Four.field.elem_zero
  have root : Four.curve.elem Four.curve.b = Four.root := Four.valueAt_remainder .root
  rw [zero, root]
  intro x on
  rw [OnCurve] at on
  revert on
  cases x <;> decide

theorem simpleMethod_lawful_on_four :
    Lawful Four.curve.simpleMethod (Holds Four.curve) :=
  (simpleMethod_lawful_iff Four.curve_sound).1.mpr Four.curve_origin

/-! The ladder. -/

/-- The two points of the ladder are neighbours among the multiples of `P`. -/
structure LadderAt (curve : BinaryCurve F) (P : curve.Points) (k : Nat)
    (ladder : BinaryCurve.Ladder) : Prop where
  z1_lt : ladder.z1 < 2 ^ curve.degree
  z2_lt : ladder.z2 < 2 ^ curve.degree
  first : FirstAt (k • P) (curve.elem ladder.x1) (curve.elem ladder.z1)
  second : FirstAt (k • P + P) (curve.elem ladder.x2) (curve.elem ladder.z2)

theorem mDouble_first (sound : curve.Sound) {Q : curve.Points} {x z : Nat}
    (first : FirstAt Q (curve.elem x) (curve.elem z)) :
    (curve.mDouble x z).2 < 2 ^ curve.degree ∧
      FirstAt (Q + Q) (curve.elem (curve.mDouble x z).1) (curve.elem (curve.mDouble x z).2) := by
  have two := curve.charP
  refine ⟨curve.fieldMul_lt _ _, ?_⟩
  convert first.double sound.smooth using 1
  · simp only [BinaryCurve.mDouble, BinaryField.elem_xor, BinaryField.elem_fieldMul,
      BinaryField.elem_fieldSqr]
    ring
  · simp only [BinaryCurve.mDouble, BinaryField.elem_fieldMul, BinaryField.elem_fieldSqr]

theorem mAdd_first {P Q : curve.Points} {x x1 z1 x2 z2 : Nat} {y : F} (base : At P (curve.elem x) y)
    (first : FirstAt Q (curve.elem x2) (curve.elem z2))
    (second : FirstAt (Q + P) (curve.elem x1) (curve.elem z1)) :
    (curve.mAdd x x1 z1 x2 z2).2 < 2 ^ curve.degree ∧
      FirstAt (Q + (Q + P)) (curve.elem (curve.mAdd x x1 z1 x2 z2).1)
        (curve.elem (curve.mAdd x x1 z1 x2 z2).2) := by
  have two := curve.charP
  refine ⟨curve.fieldSqr_lt _, ?_⟩
  convert first.add base second using 1
  · simp only [BinaryCurve.mAdd, BinaryField.elem_xor, BinaryField.elem_fieldMul,
      BinaryField.elem_fieldSqr]
    ring
  · simp only [BinaryCurve.mAdd, BinaryField.elem_xor, BinaryField.elem_fieldMul,
      BinaryField.elem_fieldSqr]
    ring

theorem ladderStep_at (sound : curve.Sound) {P : curve.Points} {x k : Nat} {y : F}
    (base : At P (curve.elem x) y) (bit : Bool) {ladder : BinaryCurve.Ladder}
    (at_k : LadderAt curve P k ladder) :
    LadderAt curve P (2 * k + bit.toNat) (curve.ladderStep x bit ladder) := by
  have two := curve.charP
  cases bit with
  | false =>
      obtain ⟨double_lt, double⟩ := mDouble_first sound at_k.first
      obtain ⟨add_lt, add⟩ := mAdd_first base at_k.first at_k.second
      have even : (2 * k + false.toNat) • P = k • P + k • P := by
        rw [Bool.toNat_false, add_zero, two_mul, add_smul]
      exact ⟨double_lt, add_lt, by rwa [even], by rwa [even, add_assoc]⟩
  | true =>
      -- the first point is now the larger one, so the second is `-P` from it
      have back : k • P + P + -P = k • P := by rw [add_assoc, add_neg_cancel, add_zero]
      obtain ⟨double_lt, double⟩ := mDouble_first sound at_k.second
      obtain ⟨add_lt, add⟩ := mAdd_first base.neg at_k.second (by rw [back]; exact at_k.first)
      have odd : (2 * k + true.toNat) • P = k • P + P + (k • P + P + -P) := by
        rw [Bool.toNat_true, add_smul, one_smul, two_mul, add_smul, back]
        abel
      have next : (2 * k + true.toNat) • P + P = k • P + P + (k • P + P) := by
        rw [odd, back]
        abel
      exact ⟨add_lt, double_lt, by rwa [odd], by rwa [next]⟩

theorem magnitude_bit (scalar : BigNum) (place : Nat) :
    scalar.magnitude / 2 ^ place =
      2 * (scalar.magnitude / 2 ^ (place + 1)) + (scalar.isBitSet place).toNat := by
  rw [BigNum.isBitSet, Nat.testBit_eq_decide_div_mod_eq, pow_succ, ← Nat.div_div_eq_div_mul]
  rcases Nat.mod_two_eq_zero_or_one (scalar.magnitude / 2 ^ place) with even | odd
  · rw [even, decide_eq_false zero_ne_one, Bool.toNat_false]
    omega
  · rw [odd, decide_eq_true rfl, Bool.toNat_true]
    omega

/-- What has been read of the scalar is the multiple that the ladder stands at. -/
theorem ladderLoop_at (sound : curve.Sound) {P : curve.Points} {x : Nat} {y : F}
    (base : At P (curve.elem x) y) (scalar : BigNum) (count : Nat) {ladder : BinaryCurve.Ladder}
    (read : LadderAt curve P (scalar.magnitude / 2 ^ count) ladder) :
    LadderAt curve P scalar.magnitude (curve.ladderLoop x scalar count ladder) := by
  induction count generalizing ladder with
  | zero => rwa [pow_zero, Nat.div_one] at read
  | succ count ih =>
      refine ih ?_
      rw [magnitude_bit]
      exact ladderStep_at sound base _ read

omit [DecidableEq F] in
theorem first_zero_iff {Q : curve.Points} {X : F} {z : Nat} (z_lt : z < 2 ^ curve.degree)
    (first : FirstAt Q X (curve.elem z)) : z = 0 ↔ Q = 0 := by
  rw [← curve.elem_eq_zero z_lt]
  generalize curve.elem z = Z at first
  cases first with
  | infinity _ => exact ⟨fun _ => rfl, fun _ => rfl⟩
  | affine here nonzero => exact iff_of_false nonzero here.ne_zero

theorem mXY_affine {x y z1 z2 : Nat} (x1 x2 : Nat) (affine : z1 ≠ 0) (next_affine : z2 ≠ 0)
    (y_lt : y < 2 ^ curve.degree)
    (divisor : curve.elem z1 * curve.elem z2 * curve.elem x ≠ 0) :
    ∃ X Y, curve.mXY x y x1 z1 x2 z2 = some (.affine X Y) ∧ X < 2 ^ curve.degree ∧
      Y < 2 ^ curve.degree ∧ curve.elem X = curve.elem x1 / curve.elem z1 ∧
      curve.elem Y = (curve.elem X + curve.elem x) *
        (((curve.elem X + curve.elem x) * (curve.elem x2 / curve.elem z2 + curve.elem x) +
          curve.elem x ^ 2 + curve.elem y) / curve.elem x) + curve.elem y := by
  obtain ⟨t3, divided, -, inverse⟩ := curve.fieldDiv_eq (a := 1)
    (b := curve.fieldMul (curve.fieldMul z1 z2) x) (by simpa using divisor)
  simp only [BinaryField.elem_one, BinaryField.elem_fieldMul] at inverse
  obtain ⟨product, x_nonzero⟩ := mul_ne_zero_iff.mp divisor
  obtain ⟨z1_nonzero, z2_nonzero⟩ := mul_ne_zero_iff.mp product
  simp only [BinaryCurve.mXY, if_neg affine, if_neg next_affine, divided, Option.bind_eq_bind,
    Option.bind_some]
  refine ⟨_, _, rfl, curve.fieldMul_lt _ _, Nat.xor_lt_two_pow (curve.fieldMul_lt _ _) y_lt, ?_, ?_⟩
  · simp only [BinaryField.elem_fieldMul, inverse]
    field_simp
  · simp only [BinaryField.elem_fieldMul, BinaryField.elem_xor, BinaryField.elem_fieldSqr, inverse]
    field_simp
    ring

/-- What `gf2m_Mxy` makes of neighbours. -/
theorem mXY_at {P : curve.Points} {x y k : Nat} (x_lt : x < 2 ^ curve.degree)
    (y_lt : y < 2 ^ curve.degree) (base : At P (curve.elem x) (curve.elem y))
    {ladder : BinaryCurve.Ladder} (at_k : LadderAt curve P k ladder) :
    (curve.mXY x y ladder.x1 ladder.z1 ladder.x2 ladder.z2 = some (.infinity 0 0) ∧ k • P = 0) ∨
      ∃ X Y, curve.mXY x y ladder.x1 ladder.z1 ladder.x2 ladder.z2 = some (.affine X Y) ∧
        Holds curve ⟨X, Y, 1, true⟩ (k • P) := by
  have two := curve.charP
  have z1_zero := first_zero_iff at_k.z1_lt at_k.first
  have z2_zero := first_zero_iff at_k.z2_lt at_k.second
  by_cases none : ladder.z1 = 0
  · exact .inl ⟨if_pos none, z1_zero.mp none⟩
  right
  by_cases last : ladder.z2 = 0
  · refine ⟨x, x ^^^ y, ?_, .affine x_lt (Nat.xor_lt_two_pow x_lt y_lt) ?_⟩
    · rw [BinaryCurve.mXY, if_neg none, if_pos last]
    · rw [BinaryField.elem_xor, eq_neg_of_add_eq_zero_left (z2_zero.mp last)]
      exact base.neg
  · have affine := (curve.elem_eq_zero at_k.z1_lt).not.mpr none
    have next_affine := (curve.elem_eq_zero at_k.z2_lt).not.mpr last
    have coordinate : curve.elem x ≠ 0 := by
      intro zero
      rw [zero] at base
      rcases CharTwoCurve.multiples_of_order_two base.neg_of_zero k with first | second
      · exact none (z1_zero.mpr first)
      · rw [add_smul, one_smul] at second
        exact last (z2_zero.mpr second)
    have here := at_k.first.recover base coordinate at_k.second affine next_affine
    obtain ⟨X, Y, computed, X_lt, Y_lt, X_eq, Y_eq⟩ :=
      mXY_affine ladder.x1 ladder.x2 none last y_lt
        (mul_ne_zero (mul_ne_zero affine next_affine) coordinate)
    refine ⟨X, Y, computed, .affine X_lt Y_lt ?_⟩
    rw [Y_eq, X_eq]
    exact here

theorem ladder_start (sound : curve.Sound) {P : curve.Points} {x y : Nat}
    (base : At P (curve.elem x) (curve.elem y)) :
    LadderAt curve P 1 ⟨curve.modArr x, 1,
      curve.fieldSqr (curve.fieldSqr (curve.modArr x)) ^^^ curve.b,
      curve.fieldSqr (curve.modArr x)⟩ := by
  have two := curve.charP
  have first : FirstAt (1 • P) (curve.elem (curve.modArr x)) (curve.elem 1) := by
    rw [BinaryField.elem_modArr, BinaryField.elem_one, one_nsmul]
    have alone := FirstAt.affine base one_ne_zero
    rwa [mul_one] at alone
  have double := first.double sound.smooth
  refine ⟨curve.one_lt, curve.fieldSqr_lt _, first, ?_⟩
  convert double using 1
  · rw [one_nsmul]
  · simp only [BinaryField.elem_xor, BinaryField.elem_fieldSqr, BinaryField.elem_one]
    ring
  · simp only [BinaryField.elem_fieldSqr, BinaryField.elem_one]
    ring

theorem read_one_bit {scalar : BigNum} (nonzero : scalar.magnitude ≠ 0) :
    scalar.magnitude / 2 ^ (scalar.numBits - 1) = 1 := by
  have below := scalar.magnitude_lt
  have some_bits : 0 < scalar.numBits := Nat.size_pos.mpr (Nat.pos_of_ne_zero nonzero)
  have above : 2 ^ (scalar.numBits - 1) ≤ scalar.magnitude := by
    by_contra small
    have short : scalar.numBits ≤ scalar.numBits - 1 := Nat.size_le.mpr (not_le.mp small)
    omega
  have double : 2 ^ scalar.numBits = 2 ^ (scalar.numBits - 1) * 2 := by
    rw [← pow_succ, Nat.sub_add_cancel some_bits]
  exact Nat.div_eq_of_lt_le (by omega) (by omega)

/-- `ec_GF2m_montgomery_point_multiply` reaches no error, and it computes the product with the
magnitude of the scalar, points of order two and products at infinity included. -/
theorem montgomeryPointMultiply_holds (sound : curve.Sound) (r : EcPoint) (scalar : BigNum)
    {point : EcPoint} {P : curve.Points} (holds : Holds curve point P) :
    ∃ p, curve.montgomeryPointMultiply r (some scalar) (some point) = some p ∧
      Holds curve p (scalar.magnitude • P) := by
  by_cases early : scalar.isZero = true ∨ point.isAtInfinity = true
  · have nothing : scalar.magnitude • P = 0 := by
      rcases early with zero | infinity
      · rw [(BigNum.isZero_iff scalar).mp zero, zero_smul]
      · rw [holds.isAtInfinity.mp infinity, smul_zero]
    rw [nothing]
    exact ⟨_, if_pos early, .setToInfinity r⟩
  have nonzero : scalar.magnitude ≠ 0 := fun zero =>
    early (.inl ((BigNum.isZero_iff scalar).mpr zero))
  cases holds with
  | infinity zero => exact absurd (.inr (by simp [EcPoint.isAtInfinity, zero])) early
  | @affine x y _ x_lt y_lt base =>
      have read : LadderAt curve P (scalar.magnitude / 2 ^ (scalar.numBits - 1))
          ⟨curve.modArr x, 1, curve.fieldSqr (curve.fieldSqr (curve.modArr x)) ^^^ curve.b,
            curve.fieldSqr (curve.modArr x)⟩ := by
        rw [read_one_bit nonzero]
        exact ladder_start sound base
      have done := ladderLoop_at sound base scalar _ read
      simp only [BinaryCurve.montgomeryPointMultiply, if_neg early, Bool.not_true,
        Bool.false_eq_true, if_false, Option.bind_eq_bind]
      rcases mXY_at x_lt y_lt base done with ⟨computed, product⟩ | ⟨X, Y, computed, held⟩
      · rw [computed, product]
        exact ⟨_, rfl, .setToInfinity _⟩
      · rw [computed]
        exact ⟨_, rfl, held⟩

/-! `ec_GF2m_simple_mul`. -/

/-- The inversion of a product goes wrong. -/
def Flat (P : curve.Points) : Prop := ∃ x, x ≠ 0 ∧ At P x 0

theorem toInt_smul (scalar : BigNum) (P : curve.Points) :
    scalar.toInt • P =
      if scalar.neg then -(scalar.magnitude • P) else scalar.magnitude • P := by
  rw [BigNum.toInt]
  split_ifs
  · rw [neg_smul, natCast_zsmul]
  · rw [natCast_zsmul]

theorem invertFor_iff (scalar : BigNum) {p : EcPoint} {P : curve.Points}
    (holds : Holds curve p (scalar.magnitude • P)) :
    (∃ q, p.invertFor scalar = some q ∧ Holds curve q (scalar.toInt • P)) ↔
      (scalar.neg = true → ¬ Flat (scalar.magnitude • P)) := by
  rw [toInt_smul, EcPoint.invertFor]
  cases negative : scalar.neg with
  | true =>
      rw [if_pos rfl, if_pos rfl, holds.invert_iff]
      constructor
      · rintro origin - ⟨x, nonzero, here⟩
        exact nonzero (origin x here)
      · intro fine x here
        by_contra nonzero
        exact fine rfl ⟨x, nonzero, here⟩
  | false =>
      exact iff_of_true ⟨p, rfl, holds⟩ fun negative => by cases negative

theorem addProduct_holds (sound : curve.Sound) (sums : BinaryCurve.Sums) {S : curve.Points}
    (acc : Holds curve sums.acc S) (scalar : BigNum) {point : EcPoint} {P : curve.Points}
    (holds : Holds curve point P) (fine : scalar.neg = true → ¬ Flat (scalar.magnitude • P)) :
    ∃ next, curve.addProduct sums scalar (some point) = some next ∧
      Holds curve next.acc (S + scalar.toInt • P) := by
  obtain ⟨p, product, p_holds⟩ := montgomeryPointMultiply_holds sound sums.p scalar holds
  obtain ⟨q, inverted, q_holds⟩ := (invertFor_iff scalar p_holds).mpr fine
  obtain ⟨sum, added, sum_holds⟩ := simpleAdd_holds sound sums.acc acc q_holds
  exact ⟨⟨q, sum⟩, by simp [BinaryCurve.addProduct, product, inverted, added], sum_holds⟩

/-- A generator that is not set counts as the point at infinity. -/
theorem addProduct_unset (sound : curve.Sound) (sums : BinaryCurve.Sums) {S : curve.Points}
    (acc : Holds curve sums.acc S) (scalar : BigNum) :
    ∃ next, curve.addProduct sums scalar none = some next ∧ Holds curve next.acc S := by
  have kept : sums.p.setToInfinity.invertFor scalar = some sums.p.setToInfinity := by
    have inverted : sums.p.setToInfinity.invert = some sums.p.setToInfinity :=
      if_pos (.inl rfl)
    rw [EcPoint.invertFor, inverted, ite_self]
  obtain ⟨sum, added, sum_holds⟩ :=
    simpleAdd_holds sound sums.acc acc (Holds.setToInfinity sums.p)
  rw [add_zero] at sum_holds
  exact ⟨⟨sums.p.setToInfinity, sum⟩, by
    simp [BinaryCurve.addProduct, BinaryCurve.montgomeryPointMultiply, kept, added], sum_holds⟩

theorem addProducts_holds (sound : curve.Sound) {terms : List (EcPoint × BigNum)}
    {Ps : List curve.Points} (points : List.Forall₂ (fun term P => Holds curve term.1 P) terms Ps)
    (fine : ∀ P : curve.Points, ¬ Flat P) (sums : BinaryCurve.Sums) {S : curve.Points}
    (acc : Holds curve sums.acc S) :
    ∃ next, terms.foldlM (fun sums term => curve.addProduct sums term.2 (some term.1)) sums =
        some next ∧ Holds curve next.acc (S + combination terms Ps) := by
  induction points generalizing sums S with
  | nil => exact ⟨sums, rfl, by simpa [combination] using acc⟩
  | cons head tail ih =>
      obtain ⟨middle, added, middle_holds⟩ := addProduct_holds sound sums acc _ head fun _ => fine _
      obtain ⟨next, later, next_holds⟩ := ih middle middle_holds
      refine ⟨next, by rw [List.foldlM_cons, added]; exact later, ?_⟩
      rw [add_assoc] at next_holds
      exact next_holds

theorem lawful_here (sound : curve.Sound)
    (origin : ∀ x, OnCurve (curve.elem curve.a) (curve.elem curve.b) x 0 → x = 0)
    {group : EcGroup EcPoint} (kept : Kept curve.simpleMethod (Holds curve) group) :
    Lawful group.meth (Holds curve) := by
  rw [kept.method]
  exact simpleMethod_lawful sound origin

omit [DecidableEq F] in
theorem never_flat (origin : ∀ x, OnCurve (curve.elem curve.a) (curve.elem curve.b) x 0 → x = 0)
    (P : curve.Points) : ¬ Flat P := fun ⟨x, nonzero, here⟩ =>
  nonzero (origin x here.onCurve)

section
variable (sound : curve.Sound)
  (origin : ∀ x, OnCurve (curve.elem curve.a) (curve.elem curve.b) x 0 → x = 0)
  {group : EcGroup EcPoint} (kept : Kept curve.simpleMethod (Holds curve) group)
  {terms : List (EcPoint × BigNum)} {Ps : List curve.Points}
  (points : List.Forall₂ (fun term P => Holds curve term.1 P) terms Ps) (r : EcPoint)
include sound origin kept points

theorem simpleMul_without :
    ∃ p, curve.simpleMul group r none terms = some p ∧ Holds curve p (combination terms Ps) := by
  rw [BinaryCurve.simpleMul]
  split_ifs
  · exact ecWNAFMul_without (lawful_here sound origin kept) points r
  · obtain ⟨done, summed, holds⟩ := addProducts_holds sound points (never_flat origin)
      ⟨ecPointNew, ecPointNew.setToInfinity⟩ (Holds.setToInfinity ecPointNew)
    rw [zero_add] at holds
    exact ⟨done.acc, by simp [summed], holds⟩

theorem simpleMul_with (scalar : BigNum) {generator : EcPoint} {G : curve.Points}
    (here : group.generator = some generator) (holds : Holds curve generator G) :
    ∃ p, curve.simpleMul group r (some scalar) terms = some p ∧
      Holds curve p (combination terms Ps + scalar.toInt • G) := by
  rw [BinaryCurve.simpleMul]
  split_ifs
  · exact ecWNAFMul_with (lawful_here sound origin kept) kept.entry points scalar here holds r
  · obtain ⟨first, added, first_holds⟩ := addProduct_holds sound
      ⟨ecPointNew, ecPointNew.setToInfinity⟩ (Holds.setToInfinity ecPointNew) scalar holds
      fun _ => never_flat origin _
    obtain ⟨done, summed, done_holds⟩ :=
      addProducts_holds sound points (never_flat origin) first first_holds
    rw [zero_add, add_comm] at done_holds
    exact ⟨done.acc, by simp [here, added, summed], done_holds⟩

theorem simpleMul_unset (scalar : BigNum) (here : group.generator = none) :
    (terms.length > 1 ∧ curve.simpleMul group r (some scalar) terms = none) ∨
      (terms.length ≤ 1 ∧ ∃ p, curve.simpleMul group r (some scalar) terms = some p ∧
        Holds curve p (combination terms Ps)) := by
  have unset := kept.unset here
  rcases Nat.lt_or_ge 1 terms.length with long | short
  · exact .inl ⟨long, (if_pos (.inl ⟨rfl, long⟩)).trans (ecWNAFMul_unset here r scalar terms)⟩
  · have few : ¬ (((some scalar).isSome = true ∧ terms.length > 1) ∨ terms.length > 2 ∨
        (terms.length = 0 ∧ group.pre_comp.isSome = true)) := by
      rintro (⟨-, long⟩ | long | ⟨-, entry⟩)
      · omega
      · omega
      · rw [unset] at entry
        cases entry
    obtain ⟨first, added, first_holds⟩ := addProduct_unset sound
      ⟨ecPointNew, ecPointNew.setToInfinity⟩ (Holds.setToInfinity ecPointNew) scalar
    obtain ⟨done, summed, done_holds⟩ :=
      addProducts_holds sound points (never_flat origin) first first_holds
    rw [zero_add] at done_holds
    refine .inr ⟨short, done.acc, ?_, done_holds⟩
    rw [BinaryCurve.simpleMul, if_neg few]
    simp [here, added, summed]

end

/-- `EC_POINTs_mul` computes the sum of the terms and of the product of the generator. A generator
that was never set makes the wNAF path fail, while the ladder takes it for the point at infinity. -/
def BinaryMultiplies (curve : BinaryCurve F) (group : EcGroup EcPoint) (r : EcPoint)
    (terms : List (EcPoint × BigNum)) (Ps : List curve.Points) : Prop :=
  (∃ p, ecPointsMul (some curve.simpleMul) group r none terms = some p ∧
    Holds curve p (combination terms Ps)) ∧
  ∀ scalar,
    (group.generator = none ∧ terms.length > 1 ∧
      ecPointsMul (some curve.simpleMul) group r (some scalar) terms = none) ∨
    (group.generator = none ∧ terms.length ≤ 1 ∧
      ∃ p, ecPointsMul (some curve.simpleMul) group r (some scalar) terms = some p ∧
        Holds curve p (combination terms Ps)) ∨
    ∃ generator G p, group.generator = some generator ∧ Holds curve generator G ∧
      ecPointsMul (some curve.simpleMul) group r (some scalar) terms = some p ∧
      Holds curve p (combination terms Ps + scalar.toInt • G)

/-- On a curve without points of second coordinate zero away from the origin, whatever was called
on the group before. -/
theorem simpleMul_after_calls (sound : curve.Sound)
    (origin : ∀ x, OnCurve (curve.elem curve.a) (curve.elem curve.b) x 0 → x = 0)
    (calls : List (GroupCall EcPoint)) (standing : ∀ call ∈ calls, Standing (Holds curve) call)
    (terms : List (EcPoint × BigNum)) (Ps : List curve.Points)
    (points : List.Forall₂ (fun term P => Holds curve term.1 P) terms Ps) (r : EcPoint) :
    ∀ group ∈ Run.states callGroup (ecGroupNew curve.simpleMethod) calls,
      BinaryMultiplies curve group r terms Ps := by
  have lawful := simpleMethod_lawful sound origin
  intro group reached
  have kept := kept_after_calls lawful calls standing group reached
  refine ⟨simpleMul_without sound origin kept points r, fun scalar => ?_⟩
  cases here : group.generator with
  | none =>
      rcases simpleMul_unset sound origin kept points r scalar here with fails | counted
      · exact .inl ⟨rfl, fails⟩
      · exact .inr (.inl ⟨rfl, counted⟩)
  | some generator =>
      obtain ⟨G, holds⟩ := kept.generator generator here
      obtain ⟨p, computed, p_holds⟩ :=
        simpleMul_with sound origin kept points r scalar here holds
      exact .inr (.inr ⟨generator, G, p, rfl, holds, computed, p_holds⟩)

theorem Four.exists_holds {X Y : Four}
    (on : OnCurve (Four.curve.elem Four.curve.a) (Four.curve.elem Four.curve.b) X Y) :
    ∃ P : Four.curve.Points,
      Holds Four.curve ⟨Four.remainder X, Four.remainder Y, 1, true⟩ P := by
  have two := Four.curve.charP
  obtain ⟨P, here⟩ := CharTwoCurve.exists_at Four.curve_sound.smooth on
  refine ⟨P, .affine (Four.curve.reduced_lt X) (Four.curve.reduced_lt Y) ?_⟩
  have X_same : Four.curve.elem (Four.remainder X) = X := Four.curve.elem_reduced X
  have Y_same : Four.curve.elem (Four.remainder Y) = Y := Four.curve.elem_reduced Y
  rw [X_same, Y_same]
  exact here

theorem Four.generator_holds : ∃ P : Four.curve.Points, Holds Four.curve ⟨2, 1, 1, true⟩ P := by
  have on : OnCurve (Four.curve.elem Four.curve.a) (Four.curve.elem Four.curve.b) Four.root
      Four.one := by
    have zero : Four.curve.elem Four.curve.a = 0 := Four.field.elem_zero
    have root : Four.curve.elem Four.curve.b = Four.root := Four.valueAt_remainder .root
    rw [zero, root, OnCurve]
    decide
  exact Four.exists_holds on

theorem simpleMul_after_calls_on_four :
    ∃ G : Four.curve.Points,
      ∀ group ∈ Run.states callGroup (ecGroupNew Four.curve.simpleMethod)
        [.setGenerator ⟨2, 1, 1, true⟩ ⟨false, 4⟩ ⟨false, 1⟩, .precomputeMult],
        BinaryMultiplies Four.curve group ecPointNew [(⟨2, 1, 1, true⟩, ⟨true, 3⟩)] [G] := by
  obtain ⟨G, holds⟩ := Four.generator_holds
  refine ⟨G, simpleMul_after_calls Four.curve_sound Four.curve_origin _ ?_ _ _ (.cons holds .nil) _⟩
  intro call member
  rcases List.mem_cons.mp member with rfl | later
  · exact ⟨G, holds⟩
  · obtain rfl := List.mem_singleton.mp later
    trivial

/-- The product with the generator alone, by the ladder: it is right unless the scalar is negative
and the product with its magnitude is a point that `ec_GF2m_simple_invert` does not invert. -/
theorem generator_product_iff (sound : curve.Sound) (group : EcGroup EcPoint) (r : EcPoint)
    (scalar : BigNum) (generator : EcPoint) (G : curve.Points)
    (here : group.generator = some generator) (plain : group.pre_comp = none)
    (holds : Holds curve generator G) :
    (∃ p, curve.simpleMul group r (some scalar) [] = some p ∧ Holds curve p (scalar.toInt • G)) ↔
      ¬ (scalar.neg = true ∧ ∃ x, x ≠ 0 ∧ At (scalar.magnitude • G) x 0) := by
  obtain ⟨p, product, p_holds⟩ := montgomeryPointMultiply_holds sound ecPointNew scalar holds
  have alone : curve.simpleMul group r (some scalar) [] = p.invertFor scalar := by
    have few : ¬ (((some scalar).isSome = true ∧ ([] : List (EcPoint × BigNum)).length > 1) ∨
        ([] : List (EcPoint × BigNum)).length > 2 ∨
        (([] : List (EcPoint × BigNum)).length = 0 ∧ group.pre_comp.isSome = true)) := by
      simp [plain]
    have added : ∀ q, curve.simpleAdd ecPointNew.setToInfinity ecPointNew.setToInfinity q =
        some q := fun q => if_pos rfl
    rw [BinaryCurve.simpleMul, if_neg few]
    simp only [here, BinaryCurve.addProduct, product, added, Option.bind_eq_bind, Option.bind_some,
      List.foldlM_nil]
    cases p.invertFor scalar <;> rfl
  rw [alone, invertFor_iff scalar p_holds, not_and]
  rfl

theorem Four.flat_curve_sound : Four.flatCurve.Sound where
  a_lt := by decide
  b_lt := by decide
  smooth := by
    have next : Four.flatCurve.elem Four.flatCurve.b = Four.next := Four.valueAt_remainder .next
    rw [next]
    decide

/-- Minus one times the generator `(1, 0)` comes out as the generator. -/
theorem generator_product_of_flat :
    ∃ G : Four.flatCurve.Points, At G 1 0 ∧ ¬ ∃ p, Four.flatCurve.simpleMul
      ⟨Four.flatCurve.simpleMethod, some ⟨1, 0, 1, true⟩, ⟨false, 4⟩, ⟨false, 1⟩, none⟩ ecPointNew
        (some ⟨true, 1⟩) [] = some p ∧ Holds Four.flatCurve p (BigNum.toInt ⟨true, 1⟩ • G) := by
  have two := Four.flatCurve.charP
  have root : Four.flatCurve.elem Four.flatCurve.a = Four.root := Four.valueAt_remainder .root
  have next : Four.flatCurve.elem Four.flatCurve.b = Four.next := Four.valueAt_remainder .next
  have on : OnCurve (Four.flatCurve.elem Four.flatCurve.a) (Four.flatCurve.elem Four.flatCurve.b)
      1 0 := by
    rw [root, next, OnCurve]
    decide
  obtain ⟨G, here⟩ := CharTwoCurve.exists_at Four.flat_curve_sound.smooth on
  have holds : Holds Four.flatCurve ⟨1, 0, 1, true⟩ G := by
    refine .affine (by decide) (by decide) ?_
    rw [BinaryField.elem_one, BinaryField.elem_zero]
    exact here
  refine ⟨G, here, ?_⟩
  rw [generator_product_iff Four.flat_curve_sound _ ecPointNew ⟨true, 1⟩ _ G rfl rfl holds, not_not]
  exact ⟨rfl, 1, one_ne_zero, by rwa [one_smul]⟩

end EChainLib.Ec
