import Mathlib
import EChainLib.Ec.OctetRoundTrip

/-! The octets of `ecp_oct.cpp`. -/

namespace EChainLib.Ec

open BigEndian (decode padded shortest)

namespace PrimeCurve
variable (curve : PrimeCurve)

def Equation (x y : Nat) : Prop :=
  y * y % curve.field = (x * x * x + curve.a * x + curve.b) % curve.field

/-- The field is one of odd characteristic, and `BN_mod_sqrt` finds the square roots in it. -/
structure Sound : Prop where
  prime : curve.field.Prime
  odd : curve.field % 2 = 1
  minus3 : curve.a_is_minus3 = true → (curve.a + 3) % curve.field = 0
  root : ∀ c r, curve.sqrt c = some r → r < curve.field ∧ r * r % curve.field = c % curve.field
  no_root : ∀ c, curve.sqrt c = none → ∀ r, r * r % curve.field ≠ c % curve.field

variable {curve}

theorem rightSide_cast (sound : curve.Sound) (x : Nat) :
    (curve.rightSide x : ZMod curve.field) =
      ((x * x * x + curve.a * x + curve.b : Nat) : ZMod curve.field) := by
  have below : ∀ n, n % curve.field ≤ curve.field := fun n =>
    (Nat.mod_lt n sound.prime.pos).le
  rw [rightSide]
  split_ifs with minus3
  · have a_value : (curve.a : ZMod curve.field) = -3 := by
      have sum : ((curve.a + 3 : Nat) : ZMod curve.field) = 0 := by
        rw [ZMod.natCast_eq_zero_iff]
        exact Nat.dvd_of_mod_eq_zero (sound.minus3 minus3)
      push_cast at sum
      linear_combination sum
    simp only [ZMod.natCast_mod, Nat.cast_add, Nat.cast_mul, Nat.cast_sub (below _),
      ZMod.natCast_self, a_value]
    ring
  · simp only [ZMod.natCast_mod, Nat.cast_add, Nat.cast_mul]

theorem rightSide_eq (sound : curve.Sound) (x : Nat) :
    curve.rightSide x % curve.field =
      (x * x * x + curve.a * x + curve.b) % curve.field :=
  (ZMod.natCast_eq_natCast_iff' _ _ _).mp (rightSide_cast sound x)

/-- Two numbers with one square are equal or add up to the modulus. -/
theorem same_square (sound : curve.Sound) {y z : Nat} (y_lt : y < curve.field)
    (z_lt : z < curve.field) (same : z * z % curve.field = y * y % curve.field) :
    z = y ∨ z + y = curve.field := by
  have prime : Fact curve.field.Prime := ⟨sound.prime⟩
  have squares : (z : ZMod curve.field) * z = y * y := by
    exact_mod_cast (ZMod.natCast_eq_natCast_iff' (z * z) (y * y) curve.field).mpr same
  rcases mul_self_eq_mul_self_iff.mp squares with equal | opposite
  · left
    have reduced := (ZMod.natCast_eq_natCast_iff' z y curve.field).mp equal
    rwa [Nat.mod_eq_of_lt z_lt, Nat.mod_eq_of_lt y_lt] at reduced
  · have sum : ((z + y : Nat) : ZMod curve.field) = 0 := by
      push_cast
      rw [opposite, neg_add_cancel]
    rw [ZMod.natCast_eq_zero_iff] at sum
    obtain ⟨count, total⟩ := sum
    have few : count < 2 := by
      by_contra many
      have large := Nat.mul_le_mul_left curve.field (not_lt.mp many)
      omega
    interval_cases count
    · left
      omega
    · right
      omega

end PrimeCurve

/-- What the functions on points promise of coordinates. -/
structure PrimePoints.Sound {P : Type} (points : PrimePoints P) (curve : PrimeCurve) : Prop where
  infinity : ∀ r, points.isAtInfinity (points.setToInfinity r) = true
  set : ∀ r x y, x < curve.field → y < curve.field →
    ∃ q, points.setAffineCoordinates r x y = some q ∧ points.isAtInfinity q = false ∧
      points.getAffineCoordinates q = some (x, y)
  get : ∀ q, points.isAtInfinity q = false →
    ∃ x y, points.getAffineCoordinates q = some (x, y) ∧ x < curve.field ∧ y < curve.field
  onCurve : ∀ q x y, points.getAffineCoordinates q = some (x, y) →
    (0 < points.isOnCurve q ↔ curve.Equation x y)

section
variable {P : Type} {curve : PrimeCurve} {points : PrimePoints P}

theorem PrimeCurve.field_fits : curve.field ≤ 256 ^ ((Nat.size curve.field + 7) / 8) := by
  have octets : (256 : Nat) = 2 ^ 8 := rfl
  rw [octets, ← pow_mul]
  exact (Nat.lt_size_self _).le.trans (Nat.pow_le_pow_right (by decide) (by omega))

/-- The point of these compressed coordinates. -/
theorem prime_setCompressed (sound : curve.Sound) (r : P) {x y : Nat} (x_lt : x < curve.field)
    (y_lt : y < curve.field) (on : curve.Equation x y) :
    curve.setCompressedCoordinates points r x (y % 2 = 1) =
      points.setAffineCoordinates r x y := by
  have target : y * y % curve.field = curve.rightSide x % curve.field :=
    Eq.trans on (PrimeCurve.rightSide_eq sound x).symm
  rw [PrimeCurve.setCompressedCoordinates, Nat.mod_eq_of_lt x_lt]
  cases found : curve.sqrt (curve.rightSide x) with
  | none => exact absurd target (sound.no_root _ found y)
  | some z =>
      obtain ⟨z_lt, square⟩ := sound.root _ z found
      rcases PrimeCurve.same_square sound y_lt z_lt (square.trans target.symm) with rfl | sum
      · simp [PrimeCurve.chooseRoot]
      · have odd := sound.odd
        have nonzero : z ≠ 0 := by omega
        have differ : decide (y % 2 = 1) ≠ decide (z % 2 = 1) := by
          intro same
          have equal := decide_eq_decide.mp same
          omega
        have other : curve.field - z = y := by omega
        rw [Option.bind_some, PrimeCurve.chooseRoot, if_pos differ, if_neg nonzero, other,
          Option.bind_some, if_neg (not_not.mpr rfl)]

/-- What is set from compressed coordinates has their bit. -/
theorem prime_setCompressed_cases (sound : curve.Sound) {r q : P} {x : Nat} {y_bit : Bool}
    (x_lt : x < curve.field)
    (set : curve.setCompressedCoordinates points r x y_bit = some q) :
    ∃ y, y < curve.field ∧ decide (y % 2 = 1) = y_bit ∧
      points.setAffineCoordinates r x y = some q := by
  rw [PrimeCurve.setCompressedCoordinates, Nat.mod_eq_of_lt x_lt] at set
  obtain ⟨z, found, later⟩ := Option.bind_eq_some_iff.mp set
  obtain ⟨y, chosen, checked⟩ := Option.bind_eq_some_iff.mp later
  obtain ⟨z_lt, -⟩ := sound.root _ z found
  split_ifs at checked with differ
  refine ⟨y, ?_, (not_not.mp differ).symm, checked⟩
  rw [PrimeCurve.chooseRoot] at chosen
  split_ifs at chosen with other zero
  · obtain rfl := Option.some.inj chosen
    have positive := sound.prime.pos
    omega
  · obtain rfl := Option.some.inj chosen
    exact z_lt

/-- Points that no function on coordinates tells apart. -/
def SamePoint (points : PrimePoints P) (q back : P) : Prop :=
  points.isAtInfinity back = points.isAtInfinity q ∧
    (points.isAtInfinity q = false →
      points.getAffineCoordinates back = points.getAffineCoordinates q)

theorem WrittenAs.same {q back : P} {form : Nat} {buf : List UInt8}
    (same : SamePoint points q back) :
    WrittenAs (curve.octets points) back form buf ↔
      WrittenAs (curve.octets points) q form buf := by
  have written : ∀ len, (curve.octets points).point2oct back form len =
      (curve.octets points).point2oct q form len := by
    intro len
    have at_infinity : (curve.octets points).isAtInfinity back =
        (curve.octets points).isAtInfinity q := same.1
    unfold OctetMethod.point2oct
    rw [at_infinity]
    by_cases infinity : points.isAtInfinity q = true
    · have infinity' : (curve.octets points).isAtInfinity q = true := infinity
      rw [if_pos infinity', if_pos infinity']
    · have coordinates : (curve.octets points).getAffineCoordinates back =
          (curve.octets points).getAffineCoordinates q :=
        same.2 (Bool.eq_false_iff.mpr infinity)
      rw [coordinates]
  rw [WrittenAs, WrittenAs, written none]
  exact and_congr_right fun _ => forall_congr' fun len => by rw [written]

/-- Reading the parts that were written. -/
theorem prime_readPoint_written (sound : curve.Sound) (access : points.Sound curve) {form x y : Nat}
    (is_form : IsForm form) (x_lt : x < curve.field) (y_lt : y < curve.field)
    (on : curve.Equation x y) (r : P) :
    ∃ bit back, (curve.octets points).formBit form x y = some bit ∧
      (form = pointConversionUncompressed → bit = false) ∧
      (curve.octets points).readPoint r form bit x
          (if form = pointConversionCompressed then 0 else y) = some back ∧
      points.isAtInfinity back = false ∧ points.getAffineCoordinates back = some (x, y) := by
  obtain ⟨back, set, affine, coordinates⟩ := access.set r x y x_lt y_lt
  have x_in : ¬ x ≥ (curve.octets points).field := not_le.mpr x_lt
  have y_in : ¬ y ≥ (curve.octets points).field := not_le.mpr y_lt
  have checked : ¬ (curve.octets points).isOnCurve back ≤ 0 :=
    not_le.mpr ((access.onCurve back x y coordinates).mpr on)
  have accepted : ∀ bit z, (curve.octets points).readCoordinates r form bit x z = some back →
      (curve.octets points).readPoint r form bit x z = some back := by
    intro bit z read
    rw [OctetMethod.readPoint, if_neg x_in, read, Option.bind_some, if_neg checked]
  rcases is_form with rfl | rfl | rfl
  · refine ⟨decide (y % 2 = 1), back, ?_, fun same => absurd same (by decide), accepted _ _ ?_,
      affine, coordinates⟩
    · simp [PrimeCurve.octets]
    · exact (prime_setCompressed sound r x_lt y_lt on).trans set
  · refine ⟨false, back, ?_, fun _ => rfl, accepted _ _ ?_, affine, coordinates⟩
    · simp [PrimeCurve.octets, pointConversionUncompressed, pointConversionCompressed,
        pointConversionHybrid]
    · exact (if_neg y_in).trans set
  · refine ⟨decide (y % 2 = 1), back, ?_, fun same => absurd same (by decide), accepted _ _ ?_,
      affine, coordinates⟩
    · simp [PrimeCurve.octets]
    · have not_compressed : ¬ pointConversionHybrid = pointConversionCompressed := by decide
      have bit : (curve.octets points).hybridBit x y = some (decide (y % 2 = 1)) := rfl
      rw [if_neg not_compressed, OctetMethod.readCoordinates, if_neg not_compressed, if_neg y_in,
        if_pos rfl, bit, Option.bind_some, if_neg (not_not.mpr rfl)]
      exact set

/-- The point that the parts give is written as them. -/
theorem prime_written_parts (sound : curve.Sound) (access : points.Sound curve) {r q : P}
    {form x y : Nat} {bit : Bool} (is_form : IsForm form)
    (plain : form = pointConversionUncompressed → bit = false) (x_lt : x < curve.field)
    (read : (curve.octets points).readCoordinates r form bit x y = some q) :
    points.isAtInfinity q = false ∧
      WrittenAs (curve.octets points) q form ((curve.octets points).frame form bit x y) := by
  have fits : ∀ {n}, n < curve.field → n < 256 ^ (curve.octets points).field_len :=
    fun small => small.trans_le PrimeCurve.field_fits
  by_cases compressed : form = pointConversionCompressed
  · subst compressed
    rw [OctetMethod.readCoordinates, if_pos rfl] at read
    obtain ⟨z, z_lt, rfl, set⟩ := prime_setCompressed_cases sound x_lt read
    obtain ⟨q', set', affine, coordinates⟩ := access.set r x z x_lt z_lt
    obtain rfl := Option.some.inj (set.symm.trans set')
    have bit : (curve.octets points).formBit pointConversionCompressed x z =
        some (decide (z % 2 = 1)) := by simp [PrimeCurve.octets]
    have written := written_affine (curve.octets points) q is_form affine coordinates
       (fits x_lt) (fits z_lt) bit
    exact ⟨affine, (frame_compressed.mpr ⟨rfl, rfl⟩ : (curve.octets points).frame _ _ x y =
      (curve.octets points).frame _ _ x z) ▸ written⟩
  · rw [OctetMethod.readCoordinates, if_neg compressed] at read
    have parts : y < curve.field ∧ points.setAffineCoordinates r x y = some q ∧
        (curve.octets points).formBit form x y = some bit := by
      split_ifs at read with outside hybrid
      · subst hybrid
        obtain ⟨found, found_bit, set⟩ := Option.bind_eq_some_iff.mp read
        split_ifs at set with different
        obtain rfl := not_not.mp different
        refine ⟨not_le.mp outside, set, ?_⟩
        obtain rfl := Option.some.inj found_bit
        simp [PrimeCurve.octets]
      · have uncompressed : form = pointConversionUncompressed := by
          rw [IsForm] at is_form
          tauto
        refine ⟨not_le.mp outside, read, ?_⟩
        rw [plain uncompressed, uncompressed]
        rfl
    obtain ⟨y_lt, set, bit_found⟩ := parts
    obtain ⟨q', set', affine, coordinates⟩ := access.set r x y x_lt y_lt
    obtain rfl := Option.some.inj (set.symm.trans set')
    exact ⟨affine, written_affine (curve.octets points) q is_form affine coordinates
      (fits x_lt) (fits y_lt) bit_found⟩

/-- What is accepted is written again as it was. -/
theorem prime_written_of_read (sound : curve.Sound) (access : points.Sound curve) {r q : P}
    {buf : List UInt8} (read : (curve.octets points).oct2point r buf = some q) :
    ∃ form, IsForm form ∧ WrittenAs (curve.octets points) q form buf := by
  rcases OctetMethod.frame_of_oct2point read with ⟨rfl, rfl⟩ | parts
  · exact ⟨pointConversionCompressed, .inl rfl,
      written_infinity (m := curve.octets points) (access.infinity r) (.inl rfl)⟩
  · obtain ⟨form, bit, x, y, is_form, plain, x_fits, y_fits, rfl, accepted⟩ := parts
    rw [OctetMethod.readPoint] at accepted
    split_ifs at accepted with outside
    obtain ⟨set, read_set, checked⟩ := Option.bind_eq_some_iff.mp accepted
    split_ifs at checked
    obtain rfl := Option.some.inj checked
    exact ⟨form, is_form,
      (prime_written_parts sound access is_form plain (not_le.mp outside) read_set).2⟩

/-- Octets are accepted exactly when some form of a point of the curve is written as them, and then
they give that point. -/
theorem prime_octets_iff (sound : curve.Sound) (access : points.Sound curve) (r q : P)
    (valid : points.isAtInfinity q = true ∨ 0 < points.isOnCurve q) (buf : List UInt8) :
    (∃ back, (curve.octets points).oct2point r buf = some back ∧ SamePoint points q back) ↔
      ∃ form, IsForm form ∧ WrittenAs (curve.octets points) q form buf := by
  constructor
  · rintro ⟨back, read, same⟩
    obtain ⟨form, is_form, written⟩ := prime_written_of_read sound access read
    exact ⟨form, is_form, (WrittenAs.same same).mp written⟩
  · rintro ⟨form, is_form, written⟩
    by_cases infinity : points.isAtInfinity q = true
    · obtain rfl := written.unique (written_infinity (m := curve.octets points) infinity is_form)
      refine ⟨points.setToInfinity r, rfl, (access.infinity r).trans infinity.symm, fun affine => ?_⟩
      rw [infinity] at affine
      cases affine
    · have affine := Bool.eq_false_iff.mpr infinity
      obtain ⟨x, y, coordinates, x_lt, y_lt⟩ := access.get q affine
      have on := (access.onCurve q x y coordinates).mp (valid.resolve_left infinity)
      obtain ⟨bit, back, bit_found, plain, read, back_affine, back_coordinates⟩ :=
        prime_readPoint_written sound access is_form x_lt y_lt on r
      have x_fits := x_lt.trans_le PrimeCurve.field_fits
      have y_fits := y_lt.trans_le PrimeCurve.field_fits
      obtain rfl := written.unique (written_affine (curve.octets points) q is_form affine
        coordinates x_fits y_fits bit_found)
      refine ⟨back, ?_, back_affine.trans affine.symm, fun _ => ?_⟩
      · exact (OctetMethod.oct2point_frame is_form plain x_fits y_fits).trans read
      · rw [back_coordinates, coordinates]

end

instance (curve : PrimeCurve) (x y : Nat) : Decidable (curve.Equation x y) :=
  inferInstanceAs (Decidable (_ = _))

/-- Points that are their coordinates. -/
def coordinatePoints (curve : PrimeCurve) : PrimePoints (Option (Nat × Nat)) where
  setToInfinity _ := none
  isAtInfinity q := q.isNone
  getAffineCoordinates q := q.map fun (x, y) => (x % curve.field, y % curve.field)
  setAffineCoordinates _ x y := some (some (x, y))
  isOnCurve q :=
    match q with
    | none => 1
    | some (x, y) => if curve.Equation (x % curve.field) (y % curve.field) then 1 else 0

theorem coordinatePoints_sound (curve : PrimeCurve) (positive : 0 < curve.field) :
    (coordinatePoints curve).Sound curve where
  infinity _ := rfl
  set r x y x_lt y_lt := ⟨some (x, y), rfl, rfl, by
    simp [coordinatePoints, Nat.mod_eq_of_lt x_lt, Nat.mod_eq_of_lt y_lt]⟩
  get q affine := by
    cases q with
    | none => cases affine
    | some xy => exact ⟨_, _, rfl, Nat.mod_lt _ positive, Nat.mod_lt _ positive⟩
  onCurve q x y coordinates := by
    cases q with
    | none => cases coordinates
    | some xy =>
        simp only [coordinatePoints, Option.map_some, Option.some.injEq, Prod.mk.injEq]
          at coordinates ⊢
        obtain ⟨rfl, rfl⟩ := coordinates
        split_ifs with on
        · exact iff_of_true Int.one_pos on
        · exact iff_of_false (lt_irrefl 0) on

/-- `y ^ 2 = x ^ 3 - 3 x + 2` over seven elements. -/
def sevenElements : PrimeCurve where
  field := 7
  a := 4
  b := 2
  a_is_minus3 := true
  sqrt c := (List.range 7).find? fun r => r * r % 7 = c % 7

theorem sevenElements_sound : sevenElements.Sound where
  prime := by decide
  odd := rfl
  minus3 _ := rfl
  root c r found := by
    have square := List.find?_some found
    have member := List.mem_of_find?_eq_some found
    exact ⟨List.mem_range.mp member, of_decide_eq_true square⟩
  no_root c found r same := by
    have none := List.find?_eq_none.mp found (r % 7)
      (List.mem_range.mpr (Nat.mod_lt r (by decide)))
    refine none (decide_eq_true ?_)
    rw [← Nat.mul_mod]
    exact same

theorem prime_octets_of_seven :
    (∃ back, (sevenElements.octets (coordinatePoints sevenElements)).oct2point none [3, 0] =
        some back ∧ SamePoint (coordinatePoints sevenElements) (some (0, 3)) back) ↔
      ∃ form, IsForm form ∧ WrittenAs (sevenElements.octets (coordinatePoints sevenElements))
        (some (0, 3)) form [3, 0] :=
  prime_octets_iff sevenElements_sound (coordinatePoints_sound sevenElements (by decide)) none
    (some (0, 3)) (.inr (by decide)) [3, 0]

end EChainLib.Ec
