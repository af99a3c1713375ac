import Mathlib

/-! The curves `y ^ 2 + x y = x ^ 3 + a x ^ 2 + b` over fields of characteristic two: the group law
in coordinates, and the multiples of a point by their first coordinates alone. -/

namespace EChainLib.CharTwoCurve

variable {F : Type*} [Field F]

abbrev curve (a b : F) : WeierstrassCurve.Affine F :=
  { a₁ := 1, a₂ := a, a₃ := 0, a₄ := 0, a₆ := b }

def OnCurve (a b x y : F) : Prop := y ^ 2 + x * y = x ^ 3 + a * x ^ 2 + b

variable {a b : F} {P Q R : (curve a b).Point} {x y x₁ y₁ : F}

/-- `P` is the affine point of these coordinates. -/
def At (P : (curve a b).Point) (x y : F) : Prop := ∃ on, P = .some x y on

namespace At

theorem unique (here : At P x y) (there : At P x₁ y₁) : x = x₁ ∧ y = y₁ := by
  obtain ⟨on, rfl⟩ := here
  obtain ⟨on₁, same⟩ := there
  cases same
  exact ⟨rfl, rfl⟩

theorem same (here : At P x y) (there : At Q x y) : P = Q := by
  obtain ⟨on, rfl⟩ := here
  obtain ⟨on₁, rfl⟩ := there
  rfl

theorem ne_zero (here : At P x y) : P ≠ 0 := by
  obtain ⟨on, rfl⟩ := here
  exact WeierstrassCurve.Affine.Point.some_ne_zero on

theorem onCurve (here : At P x y) : OnCurve a b x y := by
  obtain ⟨on, rfl⟩ := here
  have equation := ((curve a b).equation_iff x y).mp on.1
  simpa [OnCurve] using equation

end At

/-- Two points of one first coordinate are the same or opposite. -/
theorem At.same_x (here : At P x y) (there : At Q x y₁) : Q = P ∨ Q = -P := by
  obtain ⟨on, rfl⟩ := here
  obtain ⟨on₁, rfl⟩ := there
  exact WeierstrassCurve.Affine.Point.X_eq_iff.mp rfl

theorem At.opposite (here : At P x y) (there : At Q x y₁) (different : y ≠ y₁) : Q = -P := by
  rcases here.same_x there with same | opposite
  · exact absurd (here.unique (same ▸ there)).2 different
  · exact opposite

section
variable [CharP F 2]

theorem exists_at (smooth : b ≠ 0) (on : OnCurve a b x y) : ∃ P : (curve a b).Point, At P x y := by
  have discriminant : (curve a b).Δ = b := by
    have two : (2 : F) = 0 := CharTwo.two_eq_zero
    simp only [WeierstrassCurve.Δ, WeierstrassCurve.b₂, WeierstrassCurve.b₄, WeierstrassCurve.b₆,
      WeierstrassCurve.b₈]
    grind
  have equation : (curve a b).Equation x y := by
    rw [WeierstrassCurve.Affine.equation_iff]
    simpa [OnCurve] using on
  have nonsingular := ((curve a b).equation_iff_nonsingular_of_Δ_ne_zero
    (discriminant.symm ▸ smooth)).mp equation
  exact ⟨.some x y nonsingular, nonsingular, rfl⟩

theorem negY_eq (a b x y : F) : (curve a b).negY x y = x + y := by
  rw [WeierstrassCurve.Affine.negY, CharTwo.neg_eq, CharTwo.sub_eq_add, CharTwo.sub_eq_add, one_mul,
    add_zero, add_comm]

theorem At.neg (here : At P x y) : At (-P) x (x + y) := by
  obtain ⟨on, rfl⟩ := here
  have on_neg : (curve a b).Nonsingular x (x + y) :=
    negY_eq a b x y ▸ ((curve a b).nonsingular_neg x y).mpr on
  refine ⟨on_neg, ?_⟩
  rw [WeierstrassCurve.Affine.Point.neg_some]
  congr 1
  exact negY_eq a b x y

/-- The third point of the line of this slope through two points, seen from the second one. -/
theorem thirdPoint (a b x x₁ y₁ slope : F) :
    (curve a b).addX x₁ x slope = slope ^ 2 + slope + a + x + x₁ ∧
      (curve a b).addY x₁ x y₁ slope =
        (x₁ + (slope ^ 2 + slope + a + x + x₁)) * slope +
          (slope ^ 2 + slope + a + x + x₁) + y₁ := by
  have two : (2 : F) = 0 := CharTwo.two_eq_zero
  have first : (curve a b).addX x₁ x slope = slope ^ 2 + slope + a + x + x₁ := by
    simp only [WeierstrassCurve.Affine.addX, CharTwo.sub_eq_add, one_mul]
    ring
  refine ⟨first, ?_⟩
  rw [WeierstrassCurve.Affine.addY, negY_eq, WeierstrassCurve.Affine.negAddY, first]
  simp only [CharTwo.sub_eq_add]
  ring

theorem At.add_of_ne [DecidableEq F] (here : At P x y) (there : At Q x₁ y₁) (apart : x ≠ x₁)
    {slope x₂ : F} (rise : slope = (y + y₁) / (x + x₁)) (first : x₂ = slope ^ 2 + slope + a + x + x₁) :
    At (P + Q) x₂ ((x₁ + x₂) * slope + x₂ + y₁) := by
  obtain ⟨on, rfl⟩ := here
  obtain ⟨on₁, rfl⟩ := there
  obtain ⟨addX, addY⟩ := thirdPoint a b x x₁ y₁ slope
  have slopes : (curve a b).slope x₁ x y₁ y = slope := by
    rw [WeierstrassCurve.Affine.slope_of_X_ne apart.symm, CharTwo.sub_eq_add, CharTwo.sub_eq_add,
      add_comm y₁, add_comm x₁, rise]
  have sum := @WeierstrassCurve.Affine.Point.add_of_X_ne F _ (curve a b) _ _ _ _ _ on₁ on apart.symm
  simp only [slopes, addX, addY, ← first] at sum
  rw [add_comm]
  exact ⟨_, sum⟩

theorem At.double [DecidableEq F] (here : At P x y) (nonzero : x ≠ 0) {slope x₂ : F}
    (rise : slope = y / x + x) (first : x₂ = slope ^ 2 + slope + a) :
    At (P + P) x₂ ((x + x₂) * slope + x₂ + y) := by
  obtain ⟨on, rfl⟩ := here
  have two : (2 : F) = 0 := CharTwo.two_eq_zero
  obtain ⟨addX, addY⟩ := thirdPoint a b x x y slope
  have turned : y ≠ (curve a b).negY x y := by
    rw [negY_eq]
    exact fun same => nonzero (right_eq_add.mp same)
  have slopes : (curve a b).slope x x y y = slope := by
    rw [WeierstrassCurve.Affine.slope_of_Y_ne rfl turned, negY_eq, rise, CharTwo.sub_eq_add]
    field_simp
    grind
  have same : slope ^ 2 + slope + a + x + x = x₂ := by
    rw [first, add_assoc _ x x, CharTwo.add_self_eq_zero, add_zero]
  have sum := @WeierstrassCurve.Affine.Point.add_self_of_Y_ne F _ (curve a b) _ _ _ on turned
  simp only [slopes, addX, addY, same] at sum
  exact ⟨_, sum⟩

/-- The points with first coordinate zero are of order two. -/
theorem At.neg_of_zero (here : At P 0 y) : -P = P := by
  have turned := here.neg
  rw [zero_add] at turned
  exact turned.same here

theorem At.zero_of_neg (here : At P x y) (own : -P = P) : x = 0 := by
  have turned := here.neg
  rw [own] at turned
  exact right_eq_add.mp (here.unique turned).2

/-! First coordinates as fractions. -/

/-- `X / Z` is the first coordinate of the point, which is at infinity where `Z` is zero. -/
inductive FirstAt : (curve a b).Point → F → F → Prop
  | infinity {X : F} (nonzero : X ≠ 0) : FirstAt 0 X 0
  | affine {P : (curve a b).Point} {x y Z : F} (here : At P x y) (nonzero : Z ≠ 0) :
      FirstAt P (x * Z) Z

variable [DecidableEq F] {X₁ Z₁ X₂ Z₂ : F}

theorem FirstAt.double (smooth : b ≠ 0) (first : FirstAt P X₁ Z₁) :
    FirstAt (P + P) (X₁ ^ 4 + b * Z₁ ^ 4) (X₁ ^ 2 * Z₁ ^ 2) := by
  cases first with
  | infinity nonzero =>
      have still : FirstAt (0 + 0 : (curve a b).Point) (X₁ ^ 4) 0 := by
        rw [zero_add]
        exact .infinity (pow_ne_zero 4 nonzero)
      simpa using still
  | affine here nonzero =>
      rename_i x y
      by_cases zero : x = 0
      · subst zero
        have own : P + P = 0 := by
          rw [← here.neg_of_zero, neg_add_eq_zero]
          exact here.neg_of_zero.symm
        rw [own]
        have coordinate : b * Z₁ ^ 4 ≠ 0 := mul_ne_zero smooth (pow_ne_zero 4 nonzero)
        simpa using FirstAt.infinity coordinate
      · have on := here.onCurve
        have two : (2 : F) = 0 := CharTwo.two_eq_zero
        have product : x ^ 2 * Z₁ ^ 4 ≠ 0 := mul_ne_zero (pow_ne_zero 2 zero) (pow_ne_zero 4 nonzero)
        have twice := FirstAt.affine (here.double zero rfl rfl) product
        have slope : (y / x + x) * x = y + x ^ 2 := by
          field_simp
        convert twice using 1
        · rw [OnCurve] at on
          grind
        · ring

/-- The sum of two points that differ by `P`. -/
theorem FirstAt.add (base : At P x y) (first : FirstAt Q X₁ Z₁) (second : FirstAt (Q + P) X₂ Z₂) :
    FirstAt (Q + (Q + P)) (x * (X₂ * Z₁ + Z₂ * X₁) ^ 2 + X₂ * Z₁ * (Z₂ * X₁))
      ((X₂ * Z₁ + Z₂ * X₁) ^ 2) := by
  have two : (2 : F) = 0 := CharTwo.two_eq_zero
  cases first with
  | infinity nonzero =>
      rw [zero_add] at second ⊢
      rw [zero_add]
      cases second with
      | infinity _ => exact absurd rfl base.ne_zero
      | affine here product =>
          obtain ⟨rfl, rfl⟩ := base.unique here
          have still := FirstAt.affine base (pow_ne_zero 2 (mul_ne_zero product nonzero))
          simpa using still
  | affine here nonzero =>
      rename_i x₁ y₁
      generalize sum : Q + P = R at second ⊢
      have difference : P = R + -Q := by rw [← sum]; abel
      cases second with
      | infinity other =>
          rw [zero_add] at difference
          have turned := here.neg
          rw [← difference] at turned
          obtain ⟨rfl, -⟩ := base.unique turned
          rw [add_zero]
          have still := FirstAt.affine here (pow_ne_zero 2 (mul_ne_zero other nonzero))
          simpa using still
      | affine there product =>
          rename_i x₂ y₂
          -- `Q` and `Q + P` share a first coordinate only when they are opposite
          by_cases same : x₁ = x₂
          · subst same
            have not_same : R ≠ Q := by
              intro same
              rw [same, add_neg_cancel] at difference
              exact base.ne_zero difference
            have opposite := (here.same_x there).resolve_left not_same
            have coordinate : x₁ ≠ 0 := by
              rintro rfl
              exact not_same (opposite.trans here.neg_of_zero)
            rw [opposite, add_neg_cancel]
            have some_first : x₁ ^ 2 * Z₁ ^ 2 * Z₂ ^ 2 ≠ 0 := mul_ne_zero
              (mul_ne_zero (pow_ne_zero 2 coordinate) (pow_ne_zero 2 nonzero)) (pow_ne_zero 2 product)
            convert FirstAt.infinity some_first using 1
            · grind
            · grind
          · have apart : x₁ + x₂ ≠ 0 := fun zero => same (CharTwo.add_eq_zero.mp zero)
            have whole := here.add_of_ne there same rfl rfl
            have part := there.add_of_ne here.neg (Ne.symm same) rfl rfl
            rw [← difference] at part
            have first_of_base := (base.unique part).1
            have scaled := FirstAt.affine whole
              (pow_ne_zero 2 (mul_ne_zero (mul_ne_zero apart nonzero) product))
            convert scaled using 1
            · rw [first_of_base]
              field_simp
              grind
            · ring

/-- Both coordinates of `Q`, from the first coordinates of `Q` and `Q + P`. -/
theorem FirstAt.recover (base : At P x y) (coordinate : x ≠ 0) (first : FirstAt Q X₁ Z₁)
    (second : FirstAt (Q + P) X₂ Z₂) (affine : Z₁ ≠ 0) (next_affine : Z₂ ≠ 0) :
    At Q (X₁ / Z₁)
      ((X₁ / Z₁ + x) * (((X₁ / Z₁ + x) * (X₂ / Z₂ + x) + x ^ 2 + y) / x) + y) := by
  have two : (2 : F) = 0 := CharTwo.two_eq_zero
  cases first with
  | infinity _ => exact absurd rfl affine
  | @affine _ x₁ y₁ _ here _ =>
      generalize sum : Q + P = R at second
      cases second with
      | infinity _ => exact absurd rfl next_affine
      | @affine _ x₂ y₂ _ there _ =>
          rw [mul_div_cancel_right₀ x₁ affine, mul_div_cancel_right₀ x₂ next_affine]
          have not_opposite : Q ≠ -P := by
            rintro rfl
            rw [neg_add_cancel] at sum
            exact there.ne_zero sum.symm
          by_cases same : x = x₁
          · subst same
            have same_point := (base.same_x here).resolve_right not_opposite
            rw [same_point, CharTwo.add_self_eq_zero, zero_mul, zero_add]
            exact base
          · have apart : x₁ + x ≠ 0 := fun zero => same (CharTwo.add_eq_zero.mp zero).symm
            have whole := here.add_of_ne base (Ne.symm same) rfl rfl
            rw [sum] at whole
            have first_of_sum := (there.unique whole).1
            have slope : (y₁ + y) / (x₁ + x) * (x₁ + x) = y₁ + y := div_mul_cancel₀ _ apart
            have on := base.onCurve
            have on₁ := here.onCurve
            rw [OnCurve] at on on₁
            convert here using 1
            field_simp
            grind

omit [CharP F 2] in
/-- The multiples of a point of order two are itself and the point at infinity. -/
theorem multiples_of_order_two (own : -P = P) (k : ℕ) : k • P = 0 ∨ (k + 1) • P = 0 := by
  have twice : 2 • P = 0 := by
    rw [two_nsmul, ← own, neg_add_eq_zero]
    exact own.symm
  rcases Nat.even_or_odd k with ⟨half, rfl⟩ | ⟨half, rfl⟩
  · left
    rw [← two_mul, mul_nsmul, twice, nsmul_zero]
  · right
    rw [show 2 * half + 1 + 1 = 2 * (half + 1) by ring, mul_nsmul, twice, nsmul_zero]

end

end EChainLib.CharTwoCurve
