import Mathlib
import EChainLib.Ec.Octets
import EChainLib.Ec.Montgomery

/-! Points of both kinds of curves written as octets and read back. -/

namespace EChainLib.Ec

open BigEndian (decode padded shortest)
open CharTwoCurve (At OnCurve)

/-! The octets of a point, without regard to the field. -/

def IsForm (form : Nat) : Prop :=
  form = pointConversionCompressed ∨ form = pointConversionUncompressed ∨
    form = pointConversionHybrid

namespace OctetMethod
variable {P : Type} (m : OctetMethod P)

def frame (form : Nat) (bit : Bool) (x y : Nat) : List UInt8 :=
  UInt8.ofNat (form + bit.toNat) ::
    (padded m.field_len x ++
      if form = pointConversionCompressed then [] else padded m.field_len y)

variable {m} {form x y : Nat} {bit : Bool} {point r : P}

theorem frame_length (x_fits : x < 256 ^ m.field_len) (y_fits : y < 256 ^ m.field_len) :
    (m.frame form bit x y).length = m.encLen form := by
  have x_length := BigEndian.padded_length _ _ x_fits
  have y_length := BigEndian.padded_length _ _ y_fits
  rw [frame, encLen, List.length_cons, List.length_append, x_length]
  split_ifs
  · rw [List.length_nil]
    omega
  · rw [y_length]
    omega

theorem coordinateOctets_eq (fits : x < 256 ^ m.field_len) :
    m.coordinateOctets x = some (padded m.field_len x) :=
  if_neg (not_lt.mpr (BigEndian.shortest_length _ _ fits))

theorem point2oct_affine (is_form : IsForm form) (affine : m.isAtInfinity point = false)
    (coordinates : m.getAffineCoordinates point = some (x, y))
    (bit_found : m.formBit form x y = some bit) (x_fits : x < 256 ^ m.field_len)
    (y_fits : y < 256 ^ m.field_len) (len : Nat) :
    m.point2oct point form (some len) =
      if len < m.encLen form then none else some (m.encLen form, m.frame form bit x y) := by
  have known : ¬ (form ≠ pointConversionCompressed ∧ form ≠ pointConversionUncompressed ∧
      form ≠ pointConversionHybrid) := by
    rcases is_form with rfl | rfl | rfl <;> decide
  simp only [point2oct, if_neg known, affine, Bool.false_eq_true, if_false, coordinates, bit_found,
    coordinateOctets_eq x_fits, coordinateOctets_eq y_fits, Option.bind_eq_bind, Option.bind_some]
  split_ifs
  · rfl
  · simp [frame, *]
  · simp [frame, *]

theorem first_octet (is_form : IsForm form) (bit : Bool) :
    (UInt8.ofNat (form + bit.toNat)).toNat % 2 = bit.toNat ∧
      (UInt8.ofNat (form + bit.toNat)).toNat - (UInt8.ofNat (form + bit.toNat)).toNat % 2 = form := by
  rcases is_form with rfl | rfl | rfl <;> cases bit <;> decide

theorem oct2point_frame (is_form : IsForm form)
    (plain : form = pointConversionUncompressed → bit = false)
    (x_fits : x < 256 ^ m.field_len) (y_fits : y < 256 ^ m.field_len) :
    m.oct2point r (m.frame form bit x y) =
      m.readPoint r form bit x (if form = pointConversionCompressed then 0 else y) := by
  obtain ⟨parity, rest⟩ := first_octet is_form bit
  have length : (m.frame form bit x y).length = m.encLen form := frame_length x_fits y_fits
  have x_length := BigEndian.padded_length _ _ x_fits
  have y_length := BigEndian.padded_length _ _ y_fits
  rw [frame, List.length_cons] at length
  have known : ¬ (form ≠ 0 ∧ form ≠ pointConversionCompressed ∧
      form ≠ pointConversionUncompressed ∧ form ≠ pointConversionHybrid) := by
    rcases is_form with rfl | rfl | rfl <;> decide
  have some_form : form ≠ 0 := by
    rcases is_form with rfl | rfl | rfl <;> decide
  have odd : (decide (bit.toNat = 1)) = bit := by cases bit <;> rfl
  have allowed : ¬ ((form = 0 ∨ form = pointConversionUncompressed) ∧ bit = true) := by
    rintro ⟨none | uncompressed, set⟩
    · exact some_form none
    · rw [plain uncompressed] at set
      cases set
  rw [frame, oct2point, rest, parity, odd, readForm, if_neg known, if_neg allowed,
    if_neg some_form, if_neg (not_not.mpr length), List.take_left' x_length,
    List.drop_left' x_length, BigEndian.decode_padded]
  congr 1
  split_ifs
  · simp [decode]
  · rw [List.take_of_length_le y_length.le, BigEndian.decode_padded]

theorem form_of_octet (first : UInt8) :
    first.toNat = first.toNat - first.toNat % 2 + (decide (first.toNat % 2 = 1)).toNat := by
  rcases Nat.mod_two_eq_zero_or_one first.toNat with even | odd
  · rw [even]
    rfl
  · rw [odd, decide_eq_true rfl, Bool.toNat_true]
    omega

theorem frame_of_parts {first : UInt8} {rest : List UInt8}
    (first_form : first.toNat - first.toNat % 2 = form)
    (length : rest.length + 1 = m.encLen form) :
    first :: rest = m.frame form (first.toNat % 2 = 1) (decode (rest.take m.field_len))
      (decode ((rest.drop m.field_len).take m.field_len)) := by
  have head : UInt8.ofNat (form + (decide (first.toNat % 2 = 1)).toNat) = first := by
    rw [← first_form, ← form_of_octet]
    exact UInt8.ofNat_toNat
  have x_length : (rest.take m.field_len).length = m.field_len := by
    rw [List.length_take]
    rw [encLen] at length
    split_ifs at length <;> omega
  have x_octets : padded m.field_len (decode (rest.take m.field_len)) = rest.take m.field_len := by
    have whole := BigEndian.padded_decode (rest.take m.field_len)
    rwa [x_length] at whole
  rw [frame, head, x_octets]
  congr 1
  rw [encLen] at length
  split_ifs at length ⊢
  · rw [List.append_nil, List.take_of_length_le (by omega)]
  · have y_length : ((rest.drop m.field_len).take m.field_len).length = m.field_len := by
      rw [List.length_take, List.length_drop]
      omega
    have y_octets := BigEndian.padded_decode ((rest.drop m.field_len).take m.field_len)
    rw [y_length] at y_octets
    have whole : (rest.drop m.field_len).take m.field_len = rest.drop m.field_len := by
      refine List.take_of_length_le ?_
      rw [List.length_drop]
      omega
    rw [y_octets, whole, List.take_append_drop]

/-- What is accepted is the octet zero or has the shape of a point. -/
theorem frame_of_oct2point {buf : List UInt8} (read : m.oct2point r buf = some point) :
    (buf = [0] ∧ point = m.setToInfinity r) ∨
      ∃ form bit x y, IsForm form ∧ (form = pointConversionUncompressed → bit = false) ∧
        x < 256 ^ m.field_len ∧ y < 256 ^ m.field_len ∧ buf = m.frame form bit x y ∧
        m.readPoint r form bit x y = some point := by
  cases buf with
  | nil => cases read
  | cons first rest =>
      rw [oct2point, readForm] at read
      generalize first_form : first.toNat - first.toNat % 2 = form at read
      split_ifs at read with unknown marked infinity long short
      · refine .inl ⟨?_, (Option.some.inj read).symm⟩
        have alone : rest = [] := List.length_eq_zero_iff.mp (by omega)
        have even : first.toNat % 2 ≠ 1 := fun odd => marked ⟨.inl infinity, by simpa using odd⟩
        have zero : first.toNat = 0 := by omega
        rw [alone, UInt8.toNat_inj.mp (zero.trans UInt8.toNat_zero.symm)]
      · have is_form : IsForm form := by
          rw [IsForm]
          tauto
        have fits : ∀ octets : List UInt8, decode (octets.take m.field_len) <
            256 ^ m.field_len := fun octets =>
          (BigEndian.decode_lt _).trans_le
            (Nat.pow_le_pow_right (by decide) (List.length_take_le _ _))
        refine .inr ⟨form, _, _, _, is_form, fun plain => ?_, fits _, fits _,
          frame_of_parts first_form (not_not.mp short), read⟩
        rw [← Bool.not_eq_true]
        exact fun odd => marked ⟨.inr plain, odd⟩

end OctetMethod

section
variable {P : Type}

/-- Where a point is written, how much room it takes. -/
def WrittenAs (m : OctetMethod P) (point : P) (form : Nat) (buf : List UInt8) : Prop :=
  m.point2oct point form none = some (buf.length, []) ∧
    ∀ len, m.point2oct point form (some len) =
      if len < buf.length then none else some (buf.length, buf)

theorem WrittenAs.unique {m : OctetMethod P} {point : P} {form : Nat}
    {buf buf' : List UInt8} (written : WrittenAs m point form buf)
    (written' : WrittenAs m point form buf') : buf = buf' := by
  have here := written.2 (max buf.length buf'.length)
  rw [written'.2, if_neg (by omega), if_neg (by omega)] at here
  exact (congrArg Prod.snd (Option.some.inj here)).symm

theorem written_infinity {m : OctetMethod P} {point : P} (infinity : m.isAtInfinity point = true)
    {form : Nat} (is_form : IsForm form) : WrittenAs m point form [0] := by
  have known : ¬ (form ≠ pointConversionCompressed ∧ form ≠ pointConversionUncompressed ∧
      form ≠ pointConversionHybrid) := by
    rcases is_form with rfl | rfl | rfl <;> decide
  refine ⟨?_, fun len => ?_⟩
  · rw [OctetMethod.point2oct, if_neg known, if_pos infinity]
    rfl
  · rw [OctetMethod.point2oct, if_neg known, if_pos infinity]
    rfl

theorem written_affine (m : OctetMethod P) (point : P) {form x y : Nat} {bit : Bool}
    (is_form : IsForm form) (affine : m.isAtInfinity point = false)
    (coordinates : m.getAffineCoordinates point = some (x, y))
    (x_fits : x < 256 ^ m.field_len) (y_fits : y < 256 ^ m.field_len)
    (bit_found : m.formBit form x y = some bit) :
    WrittenAs m point form (m.frame form bit x y) := by
  have known : ¬ (form ≠ pointConversionCompressed ∧ form ≠ pointConversionUncompressed ∧
      form ≠ pointConversionHybrid) := by
    rcases is_form with rfl | rfl | rfl <;> decide
  refine ⟨?_, fun len => ?_⟩
  · rw [OctetMethod.point2oct, if_neg known, affine, OctetMethod.frame_length x_fits y_fits]
    rfl
  · rw [OctetMethod.frame_length x_fits y_fits]
    exact OctetMethod.point2oct_affine is_form affine coordinates bit_found x_fits y_fits len

theorem frame_compressed {m : OctetMethod P} {bit bit' : Bool} {x x' y y' : Nat} :
    m.frame pointConversionCompressed bit x y = m.frame pointConversionCompressed bit' x' y' ↔
      bit = bit' ∧ x = x' := by
  constructor
  · intro same
    simp only [OctetMethod.frame, if_true, List.append_nil, List.cons.injEq] at same
    obtain ⟨first, rest⟩ := same
    refine ⟨?_, ?_⟩
    · revert first
      cases bit <;> cases bit' <;> decide
    · rw [← BigEndian.decode_padded m.field_len x, rest, BigEndian.decode_padded]
  · rintro ⟨rfl, rfl⟩
    rfl

end

/-! Binary fields. -/

section
variable {F : Type} [Field F]

namespace BinaryField
variable (gf : BinaryField F)

theorem degree_pos : 0 < gf.degree := by
  by_contra none
  have one_lt := gf.one_lt
  rw [Nat.eq_zero_of_not_pos none] at one_lt
  exact absurd one_lt (lt_irrefl 1)

theorem two_pow_degree_le : 2 ^ gf.degree ≤ gf.field := by
  have positive := gf.degree_pos
  rw [degree] at positive ⊢
  exact Nat.lt_size.mp (by omega)

theorem field_fits : 2 ^ gf.degree ≤ 256 ^ ((gf.degree + 7) / 8) := by
  have octets : (256 : Nat) = 2 ^ 8 := rfl
  rw [octets, ← pow_mul]
  exact Nat.pow_le_pow_right (by decide) (by omega)

theorem modArr_eq {a : Nat} (a_lt : a < 2 ^ gf.degree) : gf.modArr a = a := gf.reduced_elem a a_lt

/-- The solutions of one quadratic equation differ in their last bit. -/
theorem solutions {z t : Nat} (z_lt : z < 2 ^ gf.degree) (t_lt : t < 2 ^ gf.degree)
    (same : gf.elem z ^ 2 + gf.elem z = gf.elem t ^ 2 + gf.elem t) : z = t ∨ z = t ^^^ 1 := by
  have two := gf.charP
  have zero : (2 : F) = 0 := CharTwo.two_eq_zero
  have product : (gf.elem z + gf.elem t) * (gf.elem z + gf.elem t + 1) = 0 := by
    linear_combination same + (gf.elem z * gf.elem t + gf.elem t ^ 2 + gf.elem t) * zero
  rcases mul_eq_zero.mp product with equal | apart
  · exact .inl ((gf.elem_inj z_lt t_lt).mp (CharTwo.add_eq_zero.mp equal))
  · refine .inr ((gf.elem_inj z_lt (Nat.xor_lt_two_pow t_lt gf.one_lt)).mp ?_)
    rw [elem_xor, elem_one]
    rw [add_assoc] at apart
    exact CharTwo.add_eq_zero.mp apart

theorem last_bit (t : Nat) : (t ^^^ 1) % 2 = 1 ↔ t % 2 ≠ 1 := by
  rw [Nat.xor_mod_two_eq]
  omega

end BinaryField

variable [DecidableEq F] {curve : BinaryCurve F} (roots : BinaryRoots curve.toBinaryField)

omit [DecidableEq F] in
/-- What `z` solves for the points of one first coordinate. -/
theorem quadratic {x y : F} {P : curve.Points} (here : At P x y) (nonzero : x ≠ 0) :
    (y / x) ^ 2 + y / x = x + (curve.elem curve.a + curve.elem curve.b / x ^ 2) := by
  have two := curve.charP
  have on := here.onCurve
  rw [OnCurve] at on
  field_simp
  linear_combination on

/-- `y` as `ec_GF2m_simple_set_compressed_coordinates` makes it of `z`. -/
def chosenY (curve : BinaryCurve F) (x z : Nat) (y_bit : Bool) : Nat :=
  if decide (z % 2 = 1) ≠ y_bit then curve.fieldMul x z ^^^ x else curve.fieldMul x z

/-- The equation of `z` for the first coordinate `x`. -/
theorem setCompressedCoordinates_eq {x : Nat} (x_lt : x < 2 ^ curve.degree) (nonzero : x ≠ 0)
    (y_bit : Bool) :
    ∃ tmp, curve.elem tmp =
        curve.elem x + (curve.elem curve.a + curve.elem curve.b / curve.elem x ^ 2) ∧
      curve.setCompressedCoordinates roots x y_bit = (roots.solveQuad tmp).map fun z =>
        ⟨x, chosenY curve x z y_bit, 1, true⟩ := by
  have divisor : curve.elem (curve.fieldSqr x) ≠ 0 := by
    rw [BinaryField.elem_fieldSqr]
    exact pow_ne_zero 2 ((curve.elem_eq_zero x_lt).not.mpr nonzero)
  obtain ⟨quotient, divided, -, value⟩ := curve.fieldDiv_eq (a := curve.b) divisor
  refine ⟨x ^^^ (curve.a ^^^ quotient), ?_, ?_⟩
  · rw [BinaryField.elem_xor, BinaryField.elem_xor, value, BinaryField.elem_fieldSqr]
  · simp only [BinaryCurve.setCompressedCoordinates, curve.modArr_eq x_lt, if_neg nonzero, divided,
      Option.bind_eq_bind, Option.bind_some]
    cases roots.solveQuad (x ^^^ (curve.a ^^^ quotient)) <;> rfl

/-- The chosen `y` is the one whose quotient by `x` has this last bit. -/
theorem chosenY_quotient {x z : Nat} (x_lt : x < 2 ^ curve.degree) (nonzero : x ≠ 0)
    (z_lt : z < 2 ^ curve.degree) (y_bit : Bool) :
    chosenY curve x z y_bit < 2 ^ curve.degree ∧
      ∃ t, t < 2 ^ curve.degree ∧ (t = z ∨ t = z ^^^ 1) ∧ decide (t % 2 = 1) = y_bit ∧
        curve.elem (chosenY curve x z y_bit) = curve.elem x * curve.elem t ∧
        curve.fieldDiv (chosenY curve x z y_bit) x = some t := by
  have divisor := (curve.elem_eq_zero x_lt).not.mpr nonzero
  have divide : ∀ Y t, t < 2 ^ curve.degree → curve.elem Y = curve.elem x * curve.elem t →
      curve.fieldDiv Y x = some t := by
    intro Y t t_lt product
    obtain ⟨s, divided, s_lt, value⟩ := curve.fieldDiv_eq (a := Y) divisor
    rw [product, mul_div_cancel_left₀ _ divisor] at value
    rw [divided, (curve.elem_inj s_lt t_lt).mp value]
  rw [chosenY]
  split_ifs with other
  · have product : curve.elem (curve.fieldMul x z ^^^ x) =
        curve.elem x * curve.elem (z ^^^ 1) := by
      rw [BinaryField.elem_xor, BinaryField.elem_xor, BinaryField.elem_fieldMul,
        BinaryField.elem_one]
      ring
    have t_lt := Nat.xor_lt_two_pow z_lt curve.one_lt
    refine ⟨Nat.xor_lt_two_pow (curve.fieldMul_lt _ _) x_lt, z ^^^ 1, t_lt, .inr rfl, ?_, product,
      divide _ _ t_lt product⟩
    have flipped := BinaryField.last_bit z
    by_cases odd : z % 2 = 1
    · cases y_bit with
      | true => exact absurd (decide_eq_true odd) other
      | false => exact decide_eq_false fun set => flipped.mp set odd
    · cases y_bit with
      | true => exact decide_eq_true (flipped.mpr odd)
      | false => exact absurd (decide_eq_false odd) other
  · have product := BinaryField.elem_fieldMul curve.toBinaryField x z
    exact ⟨curve.fieldMul_lt _ _, z, z_lt, .inl rfl, not_not.mp other, product,
      divide _ _ z_lt product⟩

/-- The point of these compressed coordinates. -/
theorem setCompressedCoordinates_point {x y t : Nat} {P : curve.Points}
    (x_lt : x < 2 ^ curve.degree) (y_lt : y < 2 ^ curve.degree)
    (here : At P (curve.elem x) (curve.elem y)) (nonzero : x ≠ 0)
    (quotient : curve.fieldDiv y x = some t) :
    curve.setCompressedCoordinates roots x (t % 2 = 1) = some ⟨x, y, 1, true⟩ := by
  have divisor := (curve.elem_eq_zero x_lt).not.mpr nonzero
  obtain ⟨s, divided, t_lt, value⟩ := curve.fieldDiv_eq (a := y) divisor
  obtain rfl := Option.some.inj (divided.symm.trans quotient)
  have solution := quadratic here divisor
  rw [← value] at solution
  obtain ⟨tmp, tmp_value, set⟩ := setCompressedCoordinates_eq roots x_lt nonzero (s % 2 = 1)
  rw [← tmp_value] at solution
  rw [set]
  cases solved : roots.solveQuad tmp with
  | none => exact absurd solution (roots.unsolved tmp solved _)
  | some z =>
      obtain ⟨z_lt, z_solves⟩ := roots.solved tmp z solved
      obtain ⟨Y_lt, r, r_lt, r_of_z, r_bit, Y_value, -⟩ :=
        chosenY_quotient x_lt nonzero z_lt (decide (s % 2 = 1))
      have same : r = s := by
        rcases curve.solutions z_lt t_lt (z_solves.trans solution.symm) with rfl | rfl
        · rcases r_of_z with rfl | rfl
          · rfl
          · have flipped := BinaryField.last_bit z
            rw [decide_eq_decide, flipped] at r_bit
            tauto
        · rcases r_of_z with rfl | rfl
          · have flipped := BinaryField.last_bit s
            rw [decide_eq_decide, flipped] at r_bit
            tauto
          · rw [Nat.xor_assoc, Nat.xor_self, Nat.xor_zero]
      rw [Option.map_some, (curve.elem_inj Y_lt y_lt).mp]
      rw [Y_value, same, value]
      field_simp

omit [DecidableEq F] in
/-- The point over the origin has the root of `b` for its second coordinate. -/
theorem sqrt_of_origin {y : Nat} {P : curve.Points} (y_lt : y < 2 ^ curve.degree)
    (here : At P 0 (curve.elem y)) : roots.sqrt curve.b = y := by
  have two := curve.charP
  have on := here.onCurve
  rw [OnCurve] at on
  refine (curve.elem_inj (roots.sqrt_lt _) y_lt).mp (CharTwo.sq_injective ?_)
  change curve.elem (roots.sqrt curve.b) ^ 2 = curve.elem y ^ 2
  rw [roots.sqrt_sqr]
  linear_combination -on

theorem setCompressedCoordinates_origin {y : Nat} {P : curve.Points}
    (y_lt : y < 2 ^ curve.degree) (here : At P 0 (curve.elem y)) (y_bit : Bool) :
    curve.setCompressedCoordinates roots 0 y_bit = some ⟨0, y, 1, true⟩ := by
  rw [BinaryCurve.setCompressedCoordinates, curve.modArr_eq (Nat.two_pow_pos _),
    if_pos rfl, sqrt_of_origin roots y_lt here, EcPoint.setAffineCoordinates]

/-- The bit that is written with a point. -/
theorem formBit_eq (form y : Nat) {x : Nat} (x_lt : x < 2 ^ curve.degree)
    (marked : form ≠ pointConversionUncompressed) (nonzero : x ≠ 0) :
    ∃ t, curve.fieldDiv y x = some t ∧
      (curve.octets roots).formBit form x y = some (decide (t % 2 = 1)) := by
  obtain ⟨t, divided, -, -⟩ :=
    curve.fieldDiv_eq (a := y) ((curve.elem_eq_zero x_lt).not.mpr nonzero)
  exact ⟨t, divided, by simp [BinaryCurve.octets, marked, nonzero, divided]⟩

theorem readPoint_of_read (sound : curve.Sound) {form x y z : Nat} {bit : Bool} {P : curve.Points}
    (x_lt : x < 2 ^ curve.degree) (y_lt : y < 2 ^ curve.degree)
    (here : At P (curve.elem x) (curve.elem y)) (r : EcPoint)
    (read : (curve.octets roots).readCoordinates r form bit x z = some ⟨x, y, 1, true⟩) :
    (curve.octets roots).readPoint r form bit x z = some ⟨x, y, 1, true⟩ := by
  have x_in : ¬ x ≥ (curve.octets roots).field :=
    not_le.mpr (x_lt.trans_le curve.two_pow_degree_le)
  have on : ¬ (curve.octets roots).isOnCurve ⟨x, y, 1, true⟩ ≤ 0 :=
    not_le.mpr ((Holds.affine x_lt y_lt here).isOnCurve sound)
  rw [OctetMethod.readPoint, if_neg x_in, read, Option.bind_some, if_neg on]

/-- Reading the parts that were written. The hybrid form of the point over the origin cannot be
read, for its bit is looked for in a quotient by zero. -/
theorem readPoint_written (sound : curve.Sound) {form x y : Nat} {P : curve.Points}
    (is_form : IsForm form) (x_lt : x < 2 ^ curve.degree) (y_lt : y < 2 ^ curve.degree)
    (here : At P (curve.elem x) (curve.elem y)) (r : EcPoint) :
    ∃ bit, (curve.octets roots).formBit form x y = some bit ∧
      (form = pointConversionUncompressed → bit = false) ∧
      (curve.octets roots).readPoint r form bit x
          (if form = pointConversionCompressed then 0 else y) =
        if form = pointConversionHybrid ∧ x = 0 then none else some ⟨x, y, 1, true⟩ := by
  have y_in : ¬ y ≥ (curve.octets roots).field :=
    not_le.mpr (y_lt.trans_le curve.two_pow_degree_le)
  rcases is_form with rfl | rfl | rfl
  · by_cases origin : x = 0
    · subst origin
      refine ⟨false, rfl, fun _ => rfl, readPoint_of_read roots sound x_lt y_lt here r ?_⟩
      rw [BinaryField.elem_zero] at here
      exact setCompressedCoordinates_origin roots y_lt here false
    · obtain ⟨t, quotient, bit⟩ :=
        formBit_eq roots pointConversionCompressed y x_lt (by decide) origin
      refine ⟨_, bit, fun same => absurd same (by decide), ?_⟩
      have not_hybrid : ¬ (pointConversionCompressed = pointConversionHybrid ∧ x = 0) :=
        fun both => absurd both.1 (by decide)
      rw [if_neg not_hybrid, if_pos rfl]
      exact readPoint_of_read roots sound x_lt y_lt here r
        (setCompressedCoordinates_point roots x_lt y_lt here origin quotient)
  · refine ⟨false, rfl, fun _ => rfl, readPoint_of_read roots sound x_lt y_lt here r ?_⟩
    exact if_neg y_in
  · by_cases origin : x = 0
    · subst origin
      refine ⟨false, rfl, fun _ => rfl, ?_⟩
      have no_bit : (curve.octets roots).hybridBit 0 y = none := by
        have no_quotient : curve.fieldDiv y 0 = none := if_pos (BinaryField.elem_zero _)
        simp [BinaryCurve.octets, no_quotient]
      have nothing : (curve.octets roots).readCoordinates r pointConversionHybrid false 0 y =
          none := by
        rw [OctetMethod.readCoordinates, if_neg (by decide), if_neg y_in, if_pos rfl, no_bit]
        rfl
      have hybrid : ¬ pointConversionHybrid = pointConversionCompressed := by decide
      rw [if_neg hybrid, if_pos (And.intro rfl rfl), OctetMethod.readPoint, nothing]
      split_ifs <;> rfl
    · obtain ⟨t, quotient, bit⟩ :=
        formBit_eq roots pointConversionHybrid y x_lt (by decide) origin
      refine ⟨_, bit, fun same => absurd same (by decide), ?_⟩
      have hybrid : ¬ pointConversionHybrid = pointConversionCompressed := by decide
      rw [if_neg hybrid, if_neg fun both => origin both.2]
      refine readPoint_of_read roots sound x_lt y_lt here r ?_
      have same_bit : (curve.octets roots).hybridBit x y = some (decide (t % 2 = 1)) := by
        simp [BinaryCurve.octets, quotient]
      rw [OctetMethod.readCoordinates, if_neg (by decide), if_neg y_in, if_pos rfl, same_bit,
        Option.bind_some, if_neg (not_not.mpr rfl)]
      rfl

/-- A point comes back from its octets, except that the hybrid form of the point over the origin is
refused. -/
theorem binary_octets_read_back_iff (sound : curve.Sound) {point : EcPoint} {P : curve.Points}
    (holds : Holds curve point P) {form : Nat} (is_form : IsForm form) (r : EcPoint) :
    ((∃ buf back, WrittenAs (curve.octets roots) point form buf ∧
      (curve.octets roots).oct2point r buf = some back ∧ Holds curve back P) ↔
      ¬ (form = pointConversionHybrid ∧ ∃ y, At P 0 y)) ∧
    (form = pointConversionHybrid ∧ (∃ y, At P 0 y) →
      ∃ buf, WrittenAs (curve.octets roots) point form buf ∧
        (curve.octets roots).oct2point r buf = none) := by
  cases holds with
  | infinity zero =>
      have apart : ¬ (form = pointConversionHybrid ∧ ∃ y, At (0 : curve.Points) 0 y) := by
        rintro ⟨-, y, here⟩
        exact here.ne_zero rfl
      refine ⟨iff_of_true ⟨[0], r.setToInfinity, written_infinity ?_ is_form, rfl,
        .setToInfinity r⟩ apart, fun lost => absurd lost apart⟩
      simp [BinaryCurve.octets, EcPoint.isAtInfinity, zero]
  | @affine x y _ x_lt y_lt here =>
      obtain ⟨bit, bit_found, plain, read⟩ := readPoint_written roots sound is_form x_lt y_lt here r
      have x_fits := x_lt.trans_le curve.field_fits
      have y_fits := y_lt.trans_le curve.field_fits
      have written := written_affine (curve.octets roots) ⟨x, y, 1, true⟩ is_form rfl rfl
        x_fits y_fits bit_found
      have back := OctetMethod.oct2point_frame (m := curve.octets roots) (r := r) is_form plain
        x_fits y_fits
      rw [read] at back
      have origin : x = 0 ↔ ∃ y, At P 0 y := by
        rw [← curve.elem_eq_zero x_lt]
        constructor
        · intro zero
          exact ⟨_, zero ▸ here⟩
        · rintro ⟨y, there⟩
          exact (here.unique there).1
      rw [← origin]
      by_cases lost : form = pointConversionHybrid ∧ x = 0
      · rw [if_pos lost] at back
        refine ⟨iff_of_false ?_ (not_not.mpr lost), fun _ => ⟨_, written, back⟩⟩
        rintro ⟨buf, other, written', read', -⟩
        rw [← written.unique written', back] at read'
        cases read'
      · rw [if_neg lost] at back
        exact ⟨iff_of_true ⟨_, _, written, back, .affine x_lt y_lt here⟩ lost,
          fun both => absurd both lost⟩

theorem binary_octets_read_back_on_four :
    ∃ P : Four.curve.Points, Holds Four.curve ⟨2, 1, 1, true⟩ P ∧
      ((∃ buf back, WrittenAs (Four.curve.octets Four.roots) ⟨2, 1, 1, true⟩
          pointConversionCompressed buf ∧
        (Four.curve.octets Four.roots).oct2point ecPointNew buf = some back ∧
        Holds Four.curve back P) ↔
        ¬ (pointConversionCompressed = pointConversionHybrid ∧ ∃ y, At P 0 y)) := by
  obtain ⟨P, holds⟩ := Four.generator_holds
  exact ⟨P, holds, (binary_octets_read_back_iff Four.roots Four.curve_sound holds (.inl rfl)
    ecPointNew).1⟩

/-! What is accepted. -/

theorem setCompressedCoordinates_modArr (x : Nat) (y_bit : Bool) :
    curve.setCompressedCoordinates roots (curve.modArr x) y_bit =
      curve.setCompressedCoordinates roots x y_bit := by
  rw [BinaryCurve.setCompressedCoordinates, curve.modArr_eq (curve.modArr_lt x)]
  rfl

/-- The point that compressed coordinates give is reduced, and has their bit unless it is over the
origin. -/
theorem setCompressedCoordinates_cases {x : Nat} {y_bit : Bool} {point : EcPoint}
    (set : curve.setCompressedCoordinates roots x y_bit = some point) :
    ∃ y, point = ⟨curve.modArr x, y, 1, true⟩ ∧ y < 2 ^ curve.degree ∧
      (curve.octets roots).formBit pointConversionCompressed (curve.modArr x) y =
        some (if curve.modArr x = 0 then false else y_bit) := by
  rw [← setCompressedCoordinates_modArr] at set
  have x_lt := curve.modArr_lt x
  generalize curve.modArr x = x at set x_lt ⊢
  by_cases origin : x = 0
  · subst origin
    rw [BinaryCurve.setCompressedCoordinates, curve.modArr_eq x_lt, if_pos rfl] at set
    exact ⟨_, (Option.some.inj set).symm, roots.sqrt_lt _, rfl⟩
  · obtain ⟨tmp, -, found⟩ := setCompressedCoordinates_eq roots x_lt origin y_bit
    rw [found, Option.map_eq_some_iff] at set
    obtain ⟨z, solved, rfl⟩ := set
    obtain ⟨y_lt, t, -, -, bit, -, quotient⟩ :=
      chosenY_quotient x_lt origin (roots.solved tmp z solved).1 y_bit
    refine ⟨_, rfl, y_lt, ?_⟩
    have marked : pointConversionCompressed ≠ pointConversionUncompressed := by decide
    simp [BinaryCurve.octets, marked, origin, quotient, bit]

/-- Parts that are read and written again: compressed ones are as they were when their coordinate
is reduced and the point over the origin has no bit, the others always. -/
theorem rewritten_iff {form x y : Nat} {bit : Bool} {r point : EcPoint}
    (is_form : IsForm form) (plain : form = pointConversionUncompressed → bit = false)
    (x_fits : x < 256 ^ (curve.octets roots).field_len)
    (y_fits : y < 256 ^ (curve.octets roots).field_len)
    (read : (curve.octets roots).readCoordinates r form bit x y = some point) :
    ∃ X Y, point = ⟨X, Y, 1, true⟩ ∧
      (WrittenAs (curve.octets roots) point form ((curve.octets roots).frame form bit x y) ↔
        (form = pointConversionCompressed →
          x < 2 ^ curve.degree ∧ (x = 0 → bit = false))) := by
  by_cases compressed : form = pointConversionCompressed
  · subst compressed
    rw [OctetMethod.readCoordinates, if_pos rfl] at read
    obtain ⟨Y, rfl, Y_lt, bit_found⟩ := setCompressedCoordinates_cases roots read
    refine ⟨_, Y, rfl, ?_⟩
    have written := written_affine (curve.octets roots) ⟨curve.modArr x, Y, 1, true⟩ is_form rfl rfl
      ((curve.modArr_lt x).trans_le curve.field_fits) (Y_lt.trans_le curve.field_fits) bit_found
    have same : WrittenAs (curve.octets roots) ⟨curve.modArr x, Y, 1, true⟩
        pointConversionCompressed ((curve.octets roots).frame pointConversionCompressed bit x y) ↔
          (curve.octets roots).frame pointConversionCompressed bit x y =
            (curve.octets roots).frame pointConversionCompressed
              (if curve.modArr x = 0 then false else bit) (curve.modArr x) Y :=
      ⟨fun other => other.unique written, fun same => same ▸ written⟩
    rw [same, frame_compressed]
    constructor
    · rintro ⟨bit_same, x_same⟩ -
      refine ⟨x_same ▸ curve.modArr_lt x, fun origin => ?_⟩
      rwa [← x_same, if_pos origin] at bit_same
    · intro reduced
      obtain ⟨x_lt, unmarked⟩ := reduced rfl
      rw [curve.modArr_eq x_lt]
      refine ⟨?_, rfl⟩
      split_ifs with origin
      · exact unmarked origin
      · rfl
  · rw [OctetMethod.readCoordinates, if_neg compressed] at read
    -- the other forms hold both coordinates, and the hybrid one is read only with its bit
    have kept : point = ⟨x, y, 1, true⟩ ∧ (curve.octets roots).formBit form x y = some bit := by
      split_ifs at read with outside hybrid
      · subst hybrid
        obtain ⟨found, quotient_bit, set⟩ := Option.bind_eq_some_iff.mp read
        split_ifs at set with different
        obtain rfl := not_not.mp different
        refine ⟨(Option.some.inj set).symm, ?_⟩
        obtain ⟨t, quotient, rfl⟩ := Option.map_eq_some_iff.mp quotient_bit
        have nonzero : x ≠ 0 := by
          rintro rfl
          have none : curve.fieldDiv y 0 = none := if_pos (BinaryField.elem_zero _)
          rw [none] at quotient
          cases quotient
        have marked : pointConversionHybrid ≠ pointConversionUncompressed := by decide
        simp [BinaryCurve.octets, marked, nonzero, quotient]
      · have uncompressed : form = pointConversionUncompressed := by
          rw [IsForm] at is_form
          tauto
        refine ⟨(Option.some.inj read).symm, ?_⟩
        rw [plain uncompressed, uncompressed]
        rfl
    obtain ⟨rfl, bit_found⟩ := kept
    exact ⟨x, y, rfl, iff_of_true
      (written_affine (curve.octets roots) ⟨x, y, 1, true⟩ is_form rfl rfl x_fits y_fits bit_found)
      fun same => absurd same compressed⟩

/-- The octet of the point at infinity, or those of a point of the curve. They are the ones that the
point is written with, except for compressed octets whose coordinate is not reduced or that mark the
point over the origin. -/
def OctetsOf (r point : EcPoint) (buf : List UInt8) : Prop :=
  (buf = [0] ∧ point = r.setToInfinity) ∨
    ∃ form bit x y, ∃ P : curve.Points, IsForm form ∧
      buf = (curve.octets roots).frame form bit x y ∧ point.Z = 1 ∧ point.Z_is_one = true ∧
      At P (curve.elem point.X) (curve.elem point.Y) ∧
      (WrittenAs (curve.octets roots) point form buf ↔
        (form = pointConversionCompressed → x < 2 ^ curve.degree ∧ (x = 0 → bit = false)))

theorem binary_octets_accepted (sound : curve.Sound) (r point : EcPoint) (buf : List UInt8)
    (read : (curve.octets roots).oct2point r buf = some point) : OctetsOf roots r point buf := by
  rcases OctetMethod.frame_of_oct2point read with infinity | parts
  · exact .inl infinity
  · obtain ⟨form, bit, x, y, is_form, plain, x_fits, y_fits, rfl, accepted⟩ := parts
    rw [OctetMethod.readPoint] at accepted
    split_ifs at accepted
    obtain ⟨set, read_set, checked⟩ := Option.bind_eq_some_iff.mp accepted
    split_ifs at checked with off
    obtain rfl := Option.some.inj checked
    obtain ⟨X, Y, rfl, rewritten⟩ :=
      rewritten_iff roots is_form plain x_fits y_fits read_set
    obtain ⟨P, here⟩ := onCurve_of_accepted sound off
    exact .inr ⟨form, bit, x, y, P, is_form, rfl, rfl, rfl, here, rewritten⟩

theorem binary_octets_accepted_on_four :
    ∃ bit, OctetsOf Four.roots ecPointNew ⟨2, 1, 1, true⟩
      ((Four.curve.octets Four.roots).frame pointConversionCompressed bit 2 0) := by
  obtain ⟨P, holds⟩ := Four.generator_holds
  have compressed : IsForm pointConversionCompressed := .inl rfl
  obtain ⟨bit, -, plain, read⟩ := readPoint_written Four.roots Four.curve_sound compressed
    (by decide) (by decide) holds.at_affine ecPointNew
  refine ⟨bit, binary_octets_accepted Four.roots Four.curve_sound ecPointNew _ _ ?_⟩
  rw [OctetMethod.oct2point_frame compressed plain (by decide) (by decide)]
  exact read

end

end EChainLib.Ec
