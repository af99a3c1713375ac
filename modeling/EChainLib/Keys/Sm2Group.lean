import EChainLib.Keys.Cfca

/-! `EccSm2::NewGroup`: a group made from parameters in hex, with checks that leave the function
by `break`. The local `group` is then returned as it is. -/

namespace EChainLib.Keys

inductive GroupType where
  | gfp
  | f2m
  deriving DecidableEq

/-- What OpenSSL does. A call that changes a group or a point gives what it returns and the group
or the point afterwards. -/
structure CurveLib where
  Group : Type
  Point : Type
  /-- `BN_hex2bn`; a text without a number leaves the 0 of `BN_CTX_get`. -/
  hex2bn : Bytes → Int
  /-- `BN_is_prime_ex`. -/
  isPrime : Int → Bool
  /-- `EC_GROUP_new(EC_GFp_mont_method())`. -/
  groupNew : Option Group
  setCurveGFp : Group → Int → Int → Int → Bool × Group
  setCurveGF2m : Group → Int → Int → Int → Bool × Group
  pointNew : Group → Point
  setAffineGFp : Group → Point → Int → Int → Bool × Point
  setAffineGF2m : Group → Point → Int → Int → Bool × Point
  /-- `EC_GROUP_set_generator`, with the cofactor 1. -/
  setGenerator : Group → Point → Int → Bool × Group
  /-- `EC_POINT_mul` of the generator. -/
  mulGenerator : Group → Int → Point
  isAtInfinity : Group → Point → Bool
  groupCheck : Group → Bool
  isPrime_iff : ∀ number, isPrime number = true ↔ ∃ q : Nat, number = q ∧ q.Prime

variable (lib : CurveLib)

/-- The numbers that the six texts spell. -/
structure CurveNumbers where
  p : Int
  a : Int
  b : Int
  xG : Int
  yG : Int
  n : Int
  deriving DecidableEq

def curveNumbers (phex ahex bhex xGhex yGhex nhex : Bytes) : CurveNumbers where
  p := lib.hex2bn (cString phex)
  a := lib.hex2bn (cString ahex)
  b := lib.hex2bn (cString bhex)
  xG := lib.hex2bn (cString xGhex)
  yG := lib.hex2bn (cString yGhex)
  n := lib.hex2bn (cString nhex)

/-- `bn_191`, from a text of 48 digits. -/
def bn191 : Int := 0x400000000000000000000000000000000000000000000000

/-- Behind the two branches. -/
def checkedGroup (group : lib.Group) : Option lib.Group :=
  if lib.groupCheck group then some group else none

/-- The branch `GFP` once there is a group. -/
def gfpGroup (m : CurveNumbers) (new : lib.Group) : Option lib.Group :=
  let curve := lib.setCurveGFp new m.p m.a m.b
  if !curve.1 then some curve.2
  else
    -- what this call returns is not looked at
    let G := (lib.setAffineGFp curve.2 (lib.pointNew curve.2) m.xG m.yG).2
    let generated := lib.setGenerator curve.2 G m.n
    let group := generated.2
    if !generated.1 then some group
    else if (m.a * m.a * m.a * 4 + m.b * m.b * 27) % m.p = 0 then some group
    else if m.yG * m.yG % m.p ≠ (m.xG * m.xG * m.xG + (m.a * m.xG + m.b)) % m.p then some group
    else if !lib.isPrime m.n then some group
    else if !lib.isAtInfinity group (lib.mulGenerator group m.n) then some group
    else checkedGroup lib group

/-- The other branch once there is a group. -/
def f2mGroup (m : CurveNumbers) (new : lib.Group) : Option lib.Group :=
  let curve := lib.setCurveGF2m new m.p m.a m.b
  if !curve.1 then some curve.2
  else
    let G := (lib.setAffineGF2m curve.2 (lib.pointNew curve.2) m.xG m.yG).2
    let generated := lib.setGenerator curve.2 G m.n
    if !generated.1 then some generated.2 else checkedGroup lib generated.2

def newGroup (type : GroupType) (phex ahex bhex xGhex yGhex nhex : Bytes) : Option lib.Group :=
  let m := curveNumbers lib phex ahex bhex xGhex yGhex nhex
  match type with
  | .gfp =>
      if m.n ≤ bn191 then none
      else if !lib.isPrime m.p then none
      else if m.p % 2 = 0 then none
      else lib.groupNew.bind (gfpGroup lib m)
  | .f2m => lib.groupNew.bind (f2mGroup lib m)

/-! The checks. -/

def IsPrime (number : Int) : Prop := ∃ q : Nat, number = q ∧ q.Prime

/-- Every check of the branch `GFP` but the one of the group and those of the sizes of `p` and
`n` holds, and this is the group that was made. -/
structure GfpBuilt (m : CurveNumbers) (new group : lib.Group) : Prop where
  curve : (lib.setCurveGFp new m.p m.a m.b).1 = true
  generator : lib.setGenerator (lib.setCurveGFp new m.p m.a m.b).2
    (lib.setAffineGFp (lib.setCurveGFp new m.p m.a m.b).2
      (lib.pointNew (lib.setCurveGFp new m.p m.a m.b).2) m.xG m.yG).2 m.n = (true, group)
  discriminant : (4 * m.a ^ 3 + 27 * m.b ^ 2) % m.p ≠ 0
  base_point : m.yG ^ 2 % m.p = (m.xG ^ 3 + m.a * m.xG + m.b) % m.p
  n_prime : IsPrime m.n
  n_fold : lib.isAtInfinity group (lib.mulGenerator group m.n) = true

/-- Every call of the other branch but the last check and the one that sets the point of the
generator, which returns `set`. -/
structure F2mBuilt (m : CurveNumbers) (new : lib.Group) (set : Bool) (group : lib.Group) :
    Prop where
  curve : (lib.setCurveGF2m new m.p m.a m.b).1 = true
  affine : (lib.setAffineGF2m (lib.setCurveGF2m new m.p m.a m.b).2
    (lib.pointNew (lib.setCurveGF2m new m.p m.a m.b).2) m.xG m.yG).1 = set
  generator : lib.setGenerator (lib.setCurveGF2m new m.p m.a m.b).2
    (lib.setAffineGF2m (lib.setCurveGF2m new m.p m.a m.b).2
      (lib.pointNew (lib.setCurveGF2m new m.p m.a m.b).2) m.xG m.yG).2 m.n = (true, group)

/-- All checks of the type pass. -/
def Passed (type : GroupType) (m : CurveNumbers) : Prop :=
  match type with
  | .gfp => 2 ^ 191 < m.n ∧ IsPrime m.p ∧ m.p % 2 ≠ 0 ∧
      ∃ new group, lib.groupNew = some new ∧ GfpBuilt lib m new group ∧
        lib.groupCheck group = true
  | .f2m => ∃ new group, lib.groupNew = some new ∧ F2mBuilt lib m new true group ∧
      lib.groupCheck group = true

/-- No check fails that is left with a group already made, and none is missing: the size of `n`
between 2^190 and 2^191, and the point of the generator in the other branch. -/
def LeavesInTime (type : GroupType) (m : CurveNumbers) : Prop :=
  match type with
  | .gfp => m.n ≤ 2 ^ 190 ∨ ¬ IsPrime m.p ∨ m.p % 2 = 0 ∨ lib.groupNew = none ∨
      ∃ new group, lib.groupNew = some new ∧ GfpBuilt lib m new group ∧
        (2 ^ 191 < m.n ∨ lib.groupCheck group = false)
  | .f2m => lib.groupNew = none ∨
      ∃ new set group, lib.groupNew = some new ∧ F2mBuilt lib m new set group ∧
        (set = true ∨ lib.groupCheck group = false)

variable {lib}

theorem checkedGroup_eq_none_iff (group : lib.Group) :
    checkedGroup lib group = none ↔ lib.groupCheck group = false := by
  rw [checkedGroup]
  cases lib.groupCheck group <;> simp

/-- With a group made, only the last check gives none. -/
theorem gfpGroup_eq_none_iff (m : CurveNumbers) (new : lib.Group) :
    gfpGroup lib m new = none ↔
      ∃ group, GfpBuilt lib m new group ∧ lib.groupCheck group = false := by
  have cubes : m.a * m.a * m.a * 4 + m.b * m.b * 27 = 4 * m.a ^ 3 + 27 * m.b ^ 2 := by ring
  have squares : m.yG * m.yG = m.yG ^ 2 := by ring
  have right : m.xG * m.xG * m.xG + (m.a * m.xG + m.b) = m.xG ^ 3 + m.a * m.xG + m.b := by ring
  have n_prime : lib.isPrime m.n = true ↔ IsPrime m.n := lib.isPrime_iff m.n
  simp only [gfpGroup, cubes, squares, right]
  constructor
  · intro refused
    -- every other branch returns the group
    split_ifs at refused with set again zero apart composite finite
    rw [Bool.not_eq_true', Bool.not_eq_false] at set again composite finite
    exact ⟨_, ⟨set, Prod.ext again rfl, zero, not_not.mp apart, n_prime.mp composite, finite⟩,
      (checkedGroup_eq_none_iff _).mp refused⟩
  · rintro ⟨group, built, unchecked⟩
    rw [if_neg (by simp [built.curve]), built.generator]
    dsimp only
    rw [if_neg (by simp), if_neg built.discriminant, if_neg (not_not.mpr built.base_point),
      if_neg (by simp [n_prime.mpr built.n_prime]), if_neg (by simp [built.n_fold])]
    exact (checkedGroup_eq_none_iff group).mpr unchecked

theorem f2mGroup_eq_none_iff (m : CurveNumbers) (new : lib.Group) :
    f2mGroup lib m new = none ↔
      ∃ set group, F2mBuilt lib m new set group ∧ lib.groupCheck group = false := by
  simp only [f2mGroup]
  constructor
  · intro refused
    split_ifs at refused with set again
    rw [Bool.not_eq_true', Bool.not_eq_false] at set again
    exact ⟨_, _, ⟨set, rfl, Prod.ext again rfl⟩, (checkedGroup_eq_none_iff _).mp refused⟩
  · rintro ⟨set, group, built, unchecked⟩
    rw [if_neg (by simp [built.curve]), built.generator]
    dsimp only
    rw [if_neg (by simp)]
    exact (checkedGroup_eq_none_iff group).mpr unchecked

theorem bn191_value : bn191 = 2 ^ 190 := by norm_num [bn191]

/-- With a group made, the answer is right where nothing is left undone and the size of `n` is
not in between. -/
theorem gfpGroup_right_iff (m : CurveNumbers) (new : lib.Group) :
    (gfpGroup lib m new ≠ none ↔
        2 ^ 191 < m.n ∧ ∃ group, GfpBuilt lib m new group ∧ lib.groupCheck group = true) ↔
      ∃ group, GfpBuilt lib m new group ∧ (2 ^ 191 < m.n ∨ lib.groupCheck group = false) := by
  rw [ne_eq, gfpGroup_eq_none_iff]
  by_cases whole : ∃ group, GfpBuilt lib m new group
  -- the calls give one group, so both sides speak of that
  · obtain ⟨group, built⟩ := whole
    have only : ∀ other, GfpBuilt lib m new other → other = group := fun other built' => by
      have same := built'.generator.symm.trans built.generator
      exact (Prod.mk.inj same).2
    have one : ∀ property : lib.Group → Prop,
        (∃ other, GfpBuilt lib m new other ∧ property other) ↔ property group := by
      intro property
      constructor
      · rintro ⟨other, built', holds⟩
        exact only other built' ▸ holds
      · exact fun holds => ⟨group, built, holds⟩
    rw [one, one, one]
    cases lib.groupCheck group <;> simp
  · have nothing : ∀ property : lib.Group → Prop,
        ¬ ∃ other, GfpBuilt lib m new other ∧ property other := fun property found =>
      whole (found.imp fun _ => And.left)
    simp [nothing]

theorem f2mGroup_right_iff (m : CurveNumbers) (new : lib.Group) :
    (f2mGroup lib m new ≠ none ↔
        ∃ group, F2mBuilt lib m new true group ∧ lib.groupCheck group = true) ↔
      ∃ set group, F2mBuilt lib m new set group ∧
        (set = true ∨ lib.groupCheck group = false) := by
  rw [ne_eq, f2mGroup_eq_none_iff]
  by_cases whole : ∃ set group, F2mBuilt lib m new set group
  · obtain ⟨set, group, built⟩ := whole
    have only : ∀ set' other, F2mBuilt lib m new set' other → set' = set ∧ other = group := by
      intro set' other built'
      have same := built'.generator.symm.trans built.generator
      exact ⟨built'.affine.symm.trans built.affine, (Prod.mk.inj same).2⟩
    constructor
    · intro right
      refine ⟨set, group, built, ?_⟩
      by_cases checked : lib.groupCheck group = true
      · have returned : ¬ ∃ set' other, F2mBuilt lib m new set' other ∧
            lib.groupCheck other = false := by
          rintro ⟨set', other, built', unchecked⟩
          obtain ⟨rfl, rfl⟩ := only set' other built'
          rw [checked] at unchecked
          cases unchecked
        obtain ⟨other, built', -⟩ := right.mp returned
        exact .inl (only true other built').1.symm
      · exact .inr (Bool.eq_false_iff.mpr checked)
    · rintro ⟨set', other, built', right⟩
      obtain ⟨rfl, rfl⟩ := only set' other built'
      constructor
      · intro returned
        have checked : lib.groupCheck other = true := Bool.not_eq_false _ ▸ fun unchecked =>
          returned ⟨set', other, built', unchecked⟩
        rcases right with rfl | unchecked
        · exact ⟨other, built', checked⟩
        · rw [unchecked] at checked
          cases checked
      · rintro ⟨last, built_last, checked⟩ ⟨set'', unmade, built'', unchecked⟩
        obtain ⟨-, rfl⟩ := only true last built_last
        obtain ⟨-, rfl⟩ := only set'' unmade built''
        rw [checked] at unchecked
        cases unchecked
  · have nothing : ∀ set group, ¬ F2mBuilt lib m new set group := fun set group built =>
      whole ⟨set, group, built⟩
    simp [nothing]

/-- `NewGroup` gives no group exactly for rejected parameters where it does not leave with a
group already made. -/
theorem new_group_iff (type : GroupType) (phex ahex bhex xGhex yGhex nhex : Bytes) :
    (newGroup lib type phex ahex bhex xGhex yGhex nhex ≠ none ↔
        Passed lib type (curveNumbers lib phex ahex bhex xGhex yGhex nhex)) ↔
      LeavesInTime lib type (curveNumbers lib phex ahex bhex xGhex yGhex nhex) := by
  generalize numbers : curveNumbers lib phex ahex bhex xGhex yGhex nhex = m
  cases type with
  | gfp =>
      have p_prime : lib.isPrime m.p = true ↔ IsPrime m.p := lib.isPrime_iff m.p
      simp only [newGroup, numbers, bn191_value, Passed, LeavesInTime]
      by_cases small : m.n ≤ 2 ^ 190
      · have not_large : ¬ 2 ^ 191 < m.n := by omega
        rw [if_pos small]
        exact iff_of_true (iff_of_false (fun made => made rfl) fun passed => not_large passed.1)
          (.inl small)
      rw [if_neg small]
      by_cases composite : ¬ IsPrime m.p
      · have refused : lib.isPrime m.p = false := Bool.eq_false_iff.mpr (p_prime.not.mpr composite)
        rw [refused, Bool.not_false, if_pos rfl]
        exact iff_of_true (iff_of_false (fun made => made rfl) fun passed => composite passed.2.1)
          (.inr (.inl composite))
      have prime := not_not.mp composite
      rw [p_prime.mpr prime, Bool.not_true, if_neg Bool.false_ne_true]
      by_cases even : m.p % 2 = 0
      · rw [if_pos even]
        exact iff_of_true (iff_of_false (fun made => made rfl) fun passed => passed.2.2.1 even)
          (.inr (.inr (.inl even)))
      rw [if_neg even]
      cases made : lib.groupNew with
      | none => simp
      | some new =>
          have right := gfpGroup_right_iff m new
          -- the limits are any numbers from here on
          generalize (2 : Int) ^ 191 = large at right ⊢
          generalize (2 : Int) ^ 190 = limit at small ⊢
          simpa [small, prime, even] using right
  | f2m =>
      simp only [newGroup, numbers, Passed, LeavesInTime]
      cases made : lib.groupNew with
      | none => simp
      | some new =>
          have right := f2mGroup_right_iff m new
          simpa using right

/-! Parameters that fail a check behind `EC_GROUP_new`. -/

/-- The digits up to the first other character, behind what is read already. -/
def hexNumber (read : Nat) : Bytes → Nat
  | [] => read
  | c :: rest =>
      match hexValue false c with
      | none => read
      | some digit => hexNumber (read * 16 + digit.toNat) rest

def emptyCurve : CurveNumbers := ⟨0, 0, 0, 0, 0, 0⟩

/-- A group is its parameters. A curve is set if `p` is odd and has more than two bits. -/
def smallCurves : CurveLib where
  Group := CurveNumbers
  Point := Int × Int
  hex2bn text := hexNumber 0 text
  isPrime number := decide (0 ≤ number ∧ number.toNat.Prime)
  groupNew := some emptyCurve
  setCurveGFp group p a b :=
    if 3 < p ∧ p % 2 = 1 then (true, { group with p, a, b }) else (false, group)
  setCurveGF2m group p a b :=
    if 3 < p ∧ p % 2 = 1 then (true, { group with p, a, b }) else (false, group)
  pointNew _ := (0, 0)
  setAffineGFp group _ x y := (true, (x % group.p, y % group.p))
  setAffineGF2m group _ x y := (true, (x % group.p, y % group.p))
  setGenerator group G n := (true, { group with xG := G.1, yG := G.2, n })
  mulGenerator _ _ := (0, 0)
  isAtInfinity _ point := point == (0, 0)
  groupCheck group :=
    group.yG ^ 2 % group.p == (group.xG ^ 3 + group.a * group.xG + group.b) % group.p
  isPrime_iff number := by
    rw [decide_eq_true_iff]
    constructor
    · rintro ⟨nonneg, prime⟩
      exact ⟨number.toNat, (Int.toNat_of_nonneg nonneg).symm, prime⟩
    · rintro ⟨q, rfl, prime⟩
      exact ⟨Int.natCast_nonneg q, by simpa using prime⟩

/-- 48 digits `F`. -/
def longOrder : Bytes := List.replicate 48 0x46

/-- The point (0, 1) is not on the curve. -/
def offCurve : CurveNumbers := ⟨7, 1, 0, 0, 1, 16 ^ 48 - 1⟩

def evenPrime : CurveNumbers := { offCurve with p := 8 }

theorem offCurve_numbers :
    curveNumbers smallCurves [0x37] [0x31] [0x30] [0x30] [0x31] longOrder = offCurve := by
  decide +kernel

theorem evenPrime_numbers :
    curveNumbers smallCurves [0x38] [0x31] [0x30] [0x30] [0x31] longOrder = evenPrime := by
  decide +kernel

/-- A generator that is not on its curve gives a group, and in the other branch so does a `p`
with which no curve is set. -/
theorem half_built_group_returned :
    (newGroup smallCurves .gfp [0x37] [0x31] [0x30] [0x30] [0x31] longOrder ≠ none ∧
        ¬ Passed smallCurves .gfp
          (curveNumbers smallCurves [0x37] [0x31] [0x30] [0x30] [0x31] longOrder)) ∧
      newGroup smallCurves .f2m [0x38] [0x31] [0x30] [0x30] [0x31] longOrder ≠ none ∧
        ¬ Passed smallCurves .f2m
          (curveNumbers smallCurves [0x38] [0x31] [0x30] [0x30] [0x31] longOrder) := by
  have off_curve : ∀ new group, ¬ GfpBuilt smallCurves offCurve new group :=
    fun new group built => absurd built.base_point (by decide)
  have no_curve : ∀ new set group, ¬ F2mBuilt smallCurves evenPrime new set group :=
    fun new set group built => Bool.false_ne_true built.curve
  have prime : smallCurves.isPrime offCurve.p = true :=
    (smallCurves.isPrime_iff 7).mpr ⟨7, rfl, by norm_num⟩
  refine ⟨⟨?_, ?_⟩, ?_, ?_⟩
  · rw [newGroup, offCurve_numbers, if_neg (by decide +kernel), if_neg (by simp [prime]),
      if_neg (by decide)]
    intro (refused : gfpGroup smallCurves offCurve emptyCurve = none)
    obtain ⟨group, built, -⟩ := (gfpGroup_eq_none_iff _ _).mp refused
    exact off_curve _ group built
  · rw [offCurve_numbers]
    rintro ⟨-, -, -, new, group, -, built, -⟩
    exact off_curve new group built
  · rw [newGroup, evenPrime_numbers]
    intro (refused : f2mGroup smallCurves evenPrime emptyCurve = none)
    obtain ⟨set, group, built, -⟩ := (f2mGroup_eq_none_iff _ _).mp refused
    exact no_curve _ set group built
  · rw [evenPrime_numbers]
    rintro ⟨new, group, -, built, -⟩
    exact no_curve new true group built

end EChainLib.Keys
