import EChainLib.Ec.Montgomery

/-! `EC_KEY` of `ec_key.cpp` and `EC_GROUP_check` of `ec_check.cpp`, over the groups of
`ec_lib.cpp`. Points and groups are of one method. -/

namespace EChainLib.Ec

open CharTwoCurve (OnCurve)

/-- `EC_KEY`. -/
structure EcKey (P : Type) where
  group : Option (EcGroup P)
  pub_key : Option P
  priv_key : Option BigNum

/-- What the functions of `ec_key.cpp` use of an `EC_METHOD`, beside the point functions. -/
structure KeyMethod (P : Type) where
  mul : Option (MulMethod P)
  /-- `EC_POINT_new`. -/
  pointNew : P
  checkDiscriminant : EcGroup P → Bool
  setAffineCoordinates : BigNum → BigNum → Option P
  getAffineCoordinates : P → Option (Nat × Nat)

variable {P : Type}

/-- `EC_KEY_new`. -/
def ecKeyNew : EcKey P := ⟨none, none, none⟩

/-- `EC_KEY_copy`: what the source does not have stays. -/
def ecKeyCopy (dest src : EcKey P) : EcKey P where
  group := src.group.orElse fun _ => dest.group
  pub_key := if src.group.isSome then src.pub_key.orElse fun _ => dest.pub_key else dest.pub_key
  priv_key := src.priv_key.orElse fun _ => dest.priv_key

/-- `EC_KEY_set_group`. -/
def ecKeySetGroup (key : EcKey P) (group : Option (EcGroup P)) : EcKey P × Bool :=
  ({ key with group := group }, group.isSome)

/-- `EC_KEY_set_private_key`. -/
def ecKeySetPrivateKey (key : EcKey P) (priv_key : Option BigNum) : EcKey P × Bool :=
  ({ key with priv_key := priv_key }, priv_key.isSome)

/-- `EC_KEY_set_public_key`. Without a group there is no point to copy to. -/
def ecKeySetPublicKey (key : EcKey P) (pub_key : Option P) : EcKey P × Bool :=
  let pub_key := if key.group.isSome then pub_key else none
  ({ key with pub_key := pub_key }, pub_key.isSome)

/-- `EC_KEY_precompute_mult`; with or without a `mul` of the method it is
`ec_wNAF_precompute_mult`. -/
def ecKeyPrecomputeMult (key : EcKey P) : EcKey P × Bool :=
  match key.group with
  | none => (key, false)
  | some group =>
      let (group, ok) := ecWNAFPrecomputeMult group
      ({ key with group := some group }, ok)

/-- A call of `BN_rand_range`. One that fails may leave any number. -/
inductive RandRange
  | drawn (priv_key : Nat)
  | failed (priv_key : BigNum)

/-- The loop over `BN_rand_range`: what `priv_key` holds behind it, and whether it is a key; `none`
is still drawing. -/
def drawKey : List RandRange → Option (BigNum × Bool)
  | [] => none
  | .failed priv_key :: _ => some (priv_key, false)
  | .drawn priv_key :: rest =>
      if priv_key = 0 then drawKey rest else some (⟨false, priv_key⟩, true)

section
variable (meth : KeyMethod P)

/-- `EC_KEY_generate_key`. A private key that was there is drawn into. -/
def ecKeyGenerateKey (key : EcKey P) (draws : List RandRange) : Option (EcKey P × Bool) :=
  match key.group with
  | none => some (key, false)
  | some group =>
      -- `EC_GROUP_get_order`
      if group.order.isZero then some (key, false)
      else do
        let (priv_key, drawn) ← drawKey draws
        let failed := { key with priv_key := key.priv_key.map fun _ => priv_key }
        if !drawn then return (failed, false)
        else
          match ecPointMul meth.mul group (key.pub_key.getD meth.pointNew) (some priv_key) none
              none with
          -- for the groups of `ec_lib.cpp` only where the order is zero
          | none => return (failed, false)
          | some pub_key =>
              return ({ key with pub_key := some pub_key, priv_key := some priv_key }, true)

/-- The end of `EC_KEY_check_key`. -/
def privateKeyFits (group : EcGroup P) (point pub_key : P) : Option BigNum → Bool
  | none => true
  | some priv_key =>
      -- `BN_cmp`, by sign and magnitude
      if priv_key.toInt ≥ group.order.toInt then false
      else
        match ecPointMul meth.mul group point (some priv_key) none none with
        | none => false
        | some point => group.meth.pointCmp point pub_key = 0

/-- `EC_KEY_check_key`. -/
def ecKeyCheckKey (key : EcKey P) : Bool :=
  match key.group, key.pub_key with
  | some group, some pub_key =>
      if group.meth.isAtInfinity pub_key then false
      else if group.meth.isOnCurve pub_key ≤ 0 then false
      else if group.order.isZero then false
      else
        match ecPointMul meth.mul group meth.pointNew none (some pub_key) (some group.order) with
        | none => false
        | some point =>
            if !group.meth.isAtInfinity point then false
            else privateKeyFits meth group point pub_key key.priv_key
  | _, _ => false

/-- `EC_KEY_set_public_key_affine_coordinates`. A point that the check refuses stays in the key. -/
def ecKeySetPublicKeyAffineCoordinates (key : EcKey P) (x y : BigNum) : EcKey P × Bool :=
  if key.group.isNone then (key, false)
  else
    match meth.setAffineCoordinates x y with
    | none => (key, false)
    | some point =>
        match meth.getAffineCoordinates point with
        | none => (key, false)
        | some (tx, ty) =>
            if x.toInt ≠ tx ∨ y.toInt ≠ ty then (key, false)
            else
              let key := (ecKeySetPublicKey key (some point)).1
              (key, ecKeyCheckKey meth key)

/-- `EC_GROUP_check`. -/
def ecGroupCheck (group : EcGroup P) : Bool :=
  if !meth.checkDiscriminant group then false
  else
    match group.generator with
    | none => false
    | some generator =>
        if group.meth.isOnCurve generator ≤ 0 then false
        else if group.order.isZero then false
        else
          match ecPointMul meth.mul group meth.pointNew (some group.order) none none with
          | none => false
          | some point => group.meth.isAtInfinity point

/-- The calls that change a key. -/
inductive KeyCall (P : Type)
  | setGroup (group : Option (EcGroup P))
  | setPrivateKey (priv_key : Option BigNum)
  | setPublicKey (pub_key : Option P)
  | setPublicKeyAffineCoordinates (x y : BigNum)
  | precomputeMult
  | copy (src : EcKey P)
  | generateKey (draws : List RandRange)

/-- A run of `EC_KEY_generate_key` that is still drawing has not changed the key yet. -/
def callKey (key : EcKey P) : KeyCall P → EcKey P
  | .setGroup group => (ecKeySetGroup key group).1
  | .setPrivateKey priv_key => (ecKeySetPrivateKey key priv_key).1
  | .setPublicKey pub_key => (ecKeySetPublicKey key pub_key).1
  | .setPublicKeyAffineCoordinates x y => (ecKeySetPublicKeyAffineCoordinates meth key x y).1
  | .precomputeMult => (ecKeyPrecomputeMult key).1
  | .copy src => ecKeyCopy key src
  | .generateKey draws =>
      match ecKeyGenerateKey meth key draws with
      | none => key
      | some (key, _) => key

end

/-! What the checks accept. -/

variable {G : Type} [AddCommGroup G]

/-- The public key is a point other than infinity that the order takes to infinity, and the product
of the generator and the private key, if there is one. That one is only bounded from above. -/
def EcKey.Valid (Rep : P → G → Prop) (key : EcKey P) : Prop :=
  ∃ group pub_key Q, key.group = some group ∧ key.pub_key = some pub_key ∧ Rep pub_key Q ∧ Q ≠ 0 ∧
    group.order.toInt ≠ 0 ∧ group.order.toInt • Q = 0 ∧
    ∀ priv_key, key.priv_key = some priv_key → priv_key.toInt < group.order.toInt ∧
      ∃ generator g, group.generator = some generator ∧ Rep generator g ∧ priv_key.toInt • g = Q

/-- The curve is smooth, and the order takes the generator to infinity. -/
def EcGroup.Checks (meth : KeyMethod P) (Rep : P → G → Prop) (group : EcGroup P) : Prop :=
  meth.checkDiscriminant group = true ∧ ∃ generator g, group.generator = some generator ∧
    Rep generator g ∧ group.order.toInt ≠ 0 ∧ group.order.toInt • g = 0

/-- A key drawn for the generator of its group. -/
def EcKey.Drawn (Rep : P → G → Prop) (before after : EcKey P) : Prop :=
  ∃ group generator g, ∃ d : Nat, ∃ pub_key, before.group = some group ∧
    group.generator = some generator ∧ Rep generator g ∧ 0 < d ∧ (d : Int) < group.order.toInt ∧
    Rep pub_key ((d : Int) • g) ∧
    after = ⟨some group, some pub_key, some ⟨false, d⟩⟩

/-- What a call that fails leaves: a private key that was there may be what a failing
`BN_rand_range` left. -/
def EcKey.Undrawn (before after : EcKey P) (draws : List RandRange) : Prop :=
  after.group = before.group ∧ after.pub_key = before.pub_key ∧
    (after.priv_key = before.priv_key ∨
      (before.priv_key.isSome = true ∧
        ∃ priv_key, .failed priv_key ∈ draws ∧ after.priv_key = some priv_key))

/-- `BN_rand_range` delivers numbers below the order. -/
def EcKey.InRange (key : EcKey P) (draws : List RandRange) : Prop :=
  ∀ group, key.group = some group → ∀ drawn : Nat, .drawn drawn ∈ draws →
    (drawn : Int) < group.order.toInt

/-- With a checked group of prime order, what `EC_KEY_generate_key` makes, `EC_KEY_check_key`
accepts. -/
def EcKey.Agrees (meth : KeyMethod P) (key : EcKey P) : Prop :=
  ∀ group generator draws after, key.group = some group → group.generator = some generator →
    group.meth.isAtInfinity generator = false → ecGroupCheck meth group = true →
    group.order.magnitude.Prime → key.InRange draws →
    ecKeyGenerateKey meth key draws = some (after, true) → ecKeyCheckKey meth after = true

/-- What the functions on a key answer. -/
structure EcKey.Sound (meth : KeyMethod P) (Rep : P → G → Prop) (key : EcKey P) : Prop where
  checked : ecKeyCheckKey meth key = true ↔ key.Valid Rep
  group_checked : ∀ group, key.group = some group →
    (ecGroupCheck meth group = true ↔ group.Checks meth Rep)
  generated : ∀ draws after ok, key.InRange draws →
    ecKeyGenerateKey meth key draws = some (after, ok) →
      if ok then key.Drawn Rep after else key.Undrawn after draws
  agrees : key.Agrees meth

/-- A group as the calls of `ec_lib.cpp` leave it. -/
structure Made (meth : Method P) (Rep : P → G → Prop) (group : EcGroup P) : Prop where
  kept : Kept meth Rep group
  ordered : group.generator = none → group.order.toInt = 0

theorem made_after_calls {meth : Method P} {Rep : P → G → Prop} (lawful : Lawful meth Rep)
    (calls : List (GroupCall P)) (standing : ∀ call ∈ calls, Standing Rep call) :
    ∀ group ∈ Run.states callGroup (ecGroupNew meth) calls, Made meth Rep group := by
  have start : Made meth Rep (ecGroupNew meth) := by
    refine ⟨kept_after_calls lawful [] (by simp) _ (Run.start_mem_states _ _ _), fun _ => rfl⟩
  refine Run.invariant_along callGroup (fun _ call => Standing Rep call) (Made meth Rep)
    (fun group call made standing => ⟨callGroup_kept lawful group call made.kept standing, ?_⟩)
    _ calls start (Run.meets_of_forall callGroup (Standing Rep) _ calls standing)
  cases call with
  | setGenerator generator order cofactor =>
      intro nothing
      cases nothing
  | precomputeMult =>
      intro nothing
      have same : (ecWNAFPrecomputeMult group).1.order = group.order := by
        rw [ecWNAFPrecomputeMult]
        cases precompute group <;> rfl
      rw [callGroup, (ecWNAFPrecomputeMult_frame group).2] at nothing
      rw [callGroup, same]
      exact made.ordered nothing

/-- A way of multiplying that computes products. -/
structure Multiplies (mul : Option (MulMethod P)) (meth : Method P) (Rep : P → G → Prop) : Prop where
  point : ∀ {group p Q}, Kept meth Rep group → Rep p Q → ∀ r scalar,
    ∃ q, ecPointMul mul group r none (some p) (some scalar) = some q ∧ Rep q (scalar.toInt • Q)
  generator : ∀ {group generator g}, Kept meth Rep group → group.generator = some generator →
    Rep generator g → ∀ r scalar,
      ∃ q, ecPointMul mul group r (some scalar) none none = some q ∧ Rep q (scalar.toInt • g)
  unset : ∀ {group}, Kept meth Rep group → group.generator = none → ∀ r scalar,
    ecPointMul mul group r (some scalar) none none = none ∨
      ∃ q, ecPointMul mul group r (some scalar) none none = some q ∧ Rep q 0

theorem wNAF_multiplies {meth : Method P} {Rep : P → G → Prop} (lawful : Lawful meth Rep) :
    Multiplies none meth Rep := by
  constructor
  · rintro group p Q kept rep r scalar
    obtain ⟨rfl, -, -, -⟩ := kept
    obtain ⟨q, computed, q_rep⟩ :=
      ecWNAFMul_without lawful (List.Forall₂.cons (a := (p, scalar)) rep .nil) r
    refine ⟨q, computed, ?_⟩
    simpa [combination] using q_rep
  · rintro group generator g kept here rep r scalar
    obtain ⟨rfl, -, entry, -⟩ := kept
    obtain ⟨q, computed, q_rep⟩ := ecWNAFMul_with lawful entry .nil scalar here rep r
    refine ⟨q, computed, ?_⟩
    simpa [combination] using q_rep
  · rintro group - here r scalar
    exact .inl (ecWNAFMul_unset here r scalar [])

/-- A point of the curve, or one that is refused. -/
def Usable (meth : Method P) (Rep : P → G → Prop) (p : P) : Prop :=
  (∃ Q, Rep p Q) ∨ meth.isOnCurve p ≤ 0

theorem toInt_eq_zero (a : BigNum) : a.toInt = 0 ↔ a.isZero = true := by
  rw [BigNum.isZero_iff, BigNum.toInt]
  split_ifs <;> omega

section
variable {meth : Method P} {Rep : P → G → Prop}

/-- A point stands for one element only. -/
theorem Lawful.unique (lawful : Lawful meth Rep) {p : P} {g h : G} (rep : Rep p g)
    (also : Rep p h) : g = h :=
  (lawful.cmp rep also).mp ((lawful.cmp rep rep).mpr rfl)

variable {km : KeyMethod P} (lawful : Lawful meth Rep) (multiplies : Multiplies km.mul meth Rep)
  {group : EcGroup P} (made : Made meth Rep group)
include lawful multiplies made

theorem privateKeyFits_iff {pub_key : P} {Q : G} (rep : Rep pub_key Q) (nonzero : Q ≠ 0)
    (point : P) (priv_key : Option BigNum) :
    privateKeyFits km group point pub_key priv_key = true ↔
      ∀ d, priv_key = some d → d.toInt < group.order.toInt ∧
        ∃ generator g, group.generator = some generator ∧ Rep generator g ∧ d.toInt • g = Q := by
  cases priv_key with
  | none => simp [privateKeyFits]
  | some d =>
      have method := made.kept.method
      simp only [Option.some.injEq, forall_eq', privateKeyFits]
      by_cases large : d.toInt ≥ group.order.toInt
      · rw [if_pos large]
        exact iff_of_false Bool.false_ne_true fun both => absurd both.1 (not_lt.mpr large)
      rw [if_neg large]
      have small : d.toInt < group.order.toInt := not_le.mp large
      -- without a generator the product fails or is infinity, and `Q` is neither
      cases here : group.generator with
      | none =>
          have no_generator : ¬ (d.toInt < group.order.toInt ∧ ∃ generator g,
              none = some generator ∧ Rep generator g ∧ d.toInt • g = Q) := by
            rintro ⟨-, generator, g, nothing, -⟩
            cases nothing
          rcases multiplies.unset made.kept here point d with fails | ⟨q, computed, q_rep⟩
          · rw [fails]
            exact iff_of_false Bool.false_ne_true no_generator
          · rw [computed]
            refine iff_of_false ?_ no_generator
            rw [decide_eq_true_eq, method, lawful.cmp q_rep rep]
            exact nonzero.symm
      | some generator =>
          obtain ⟨g, g_rep⟩ := made.kept.generator generator here
          obtain ⟨q, computed, q_rep⟩ := multiplies.generator made.kept here g_rep point d
          rw [computed]
          simp only [decide_eq_true_eq, method, lawful.cmp q_rep rep]
          constructor
          · exact fun same => ⟨small, generator, g, rfl, g_rep, same⟩
          · rintro ⟨-, other, h, same, h_rep, product⟩
            obtain rfl := Option.some.inj same
            rwa [lawful.unique g_rep h_rep]

theorem ecGroupCheck_iff : ecGroupCheck km group = true ↔ group.Checks km Rep := by
  have method := made.kept.method
  rw [ecGroupCheck, EcGroup.Checks]
  cases discriminant : km.checkDiscriminant group with
  | false => simp
  | true =>
      simp only [Bool.not_true, Bool.false_eq_true, if_false, true_and]
      cases here : group.generator with
      | none =>
          refine iff_of_false Bool.false_ne_true ?_
          rintro ⟨generator, g, nothing, -⟩
          cases nothing
      | some generator =>
          obtain ⟨g, g_rep⟩ := made.kept.generator generator here
          have on : ¬ group.meth.isOnCurve generator ≤ 0 := by
            rw [method]
            exact not_le.mpr (lawful.on_curve g_rep)
          obtain ⟨q, computed, q_rep⟩ :=
            multiplies.generator made.kept here g_rep km.pointNew group.order
          simp only [if_neg on, computed]
          by_cases zero : group.order.isZero = true
          · rw [if_pos zero]
            refine iff_of_false Bool.false_ne_true ?_
            rintro ⟨-, -, -, -, nonzero, -⟩
            exact nonzero ((toInt_eq_zero _).mpr zero)
          · rw [if_neg zero, method, lawful.at_infinity q_rep]
            constructor
            · exact fun product => ⟨generator, g, rfl, g_rep, (toInt_eq_zero _).not.mpr zero, product⟩
            · rintro ⟨other, h, same, h_rep, -, product⟩
              obtain rfl := Option.some.inj same
              rwa [lawful.unique g_rep h_rep]

theorem ecKeyCheckKey_iff {key : EcKey P} (here : key.group = some group)
    (usable : ∀ p, key.pub_key = some p → Usable meth Rep p) :
    ecKeyCheckKey km key = true ↔ key.Valid Rep := by
  have method := made.kept.method
  rw [ecKeyCheckKey, EcKey.Valid, here]
  cases there : key.pub_key with
  | none =>
      refine iff_of_false Bool.false_ne_true ?_
      rintro ⟨other, pub_key, Q, -, nothing, -⟩
      cases nothing
  | some pub_key =>
      rcases usable pub_key there with ⟨Q, rep⟩ | off
      · -- the public key stands for `Q` only
        have reduced : (∃ other p R, some group = some other ∧ some pub_key = some p ∧ Rep p R ∧ R ≠ 0 ∧
            other.order.toInt ≠ 0 ∧ other.order.toInt • R = 0 ∧
            ∀ d, key.priv_key = some d → d.toInt < other.order.toInt ∧
              ∃ generator g, other.generator = some generator ∧ Rep generator g ∧ d.toInt • g = R) ↔
            Q ≠ 0 ∧ group.order.toInt ≠ 0 ∧ group.order.toInt • Q = 0 ∧
              ∀ d, key.priv_key = some d → d.toInt < group.order.toInt ∧
                ∃ generator g, group.generator = some generator ∧ Rep generator g ∧ d.toInt • g = Q := by
          constructor
          · rintro ⟨other, p, R, same_group, same_point, p_rep, rest⟩
            obtain rfl := Option.some.inj same_group
            obtain rfl := Option.some.inj same_point
            rwa [lawful.unique rep p_rep]
          · exact fun rest => ⟨group, pub_key, Q, rfl, rfl, rep, rest⟩
        rw [reduced]
        have on : ¬ group.meth.isOnCurve pub_key ≤ 0 := by
          rw [method]
          exact not_le.mpr (lawful.on_curve rep)
        have infinite : group.meth.isAtInfinity pub_key = true ↔ Q = 0 := by
          rw [method]
          exact lawful.at_infinity rep
        obtain ⟨q, computed, q_rep⟩ := multiplies.point made.kept rep km.pointNew group.order
        have product : group.meth.isAtInfinity q = true ↔ group.order.toInt • Q = 0 := by
          rw [method]
          exact lawful.at_infinity q_rep
        simp only [if_neg on, computed]
        -- the checks of the source in their order, each against its clause
        by_cases zero : Q = 0
        · rw [if_pos (infinite.mpr zero)]
          exact iff_of_false Bool.false_ne_true fun rest => rest.1 zero
        rw [if_neg (infinite.not.mpr zero)]
        by_cases no_order : group.order.isZero = true
        · rw [if_pos no_order]
          exact iff_of_false Bool.false_ne_true fun rest => rest.2.1 ((toInt_eq_zero _).mpr no_order)
        rw [if_neg no_order]
        by_cases vanishes : group.order.toInt • Q = 0
        · have fits := privateKeyFits_iff lawful multiplies made rep zero q key.priv_key
          rw [product.mpr vanishes, Bool.not_true, if_neg Bool.false_ne_true, fits]
          exact ⟨fun rest => ⟨zero, (toInt_eq_zero _).not.mpr no_order, vanishes, rest⟩,
            fun rest => rest.2.2.2⟩
        · rw [Bool.eq_false_iff.mpr (product.not.mpr vanishes), Bool.not_false, if_pos rfl]
          exact iff_of_false Bool.false_ne_true fun rest => vanishes rest.2.2.1
      · have off' : group.meth.isOnCurve pub_key ≤ 0 := by rwa [method]
        refine iff_of_false ?_ ?_
        · simp [off']
        · rintro ⟨other, p, R, -, same_point, p_rep, -⟩
          obtain rfl := Option.some.inj same_point
          exact absurd (lawful.on_curve p_rep) (not_lt.mpr off)

end

theorem drawKey_cases {out : BigNum} {draws : List RandRange} {drawn : Bool}
    (computed : drawKey draws = some (out, drawn)) :
    (drawn = false ∧ .failed out ∈ draws) ∨
      (drawn = true ∧ ∃ d, 0 < d ∧ .drawn d ∈ draws ∧ out = ⟨false, d⟩) := by
  induction draws with
  | nil => cases computed
  | cons draw rest ih =>
      cases draw with
      | failed priv_key =>
          obtain ⟨rfl, rfl⟩ := Prod.mk.inj (Option.some.inj computed)
          exact .inl ⟨rfl, List.mem_cons_self⟩
      | drawn d =>
          rw [drawKey] at computed
          by_cases zero : d = 0
          · rw [if_pos zero] at computed
            rcases ih computed with ⟨failed, member⟩ | ⟨found, k, positive, member, same⟩
            · exact .inl ⟨failed, List.mem_cons_of_mem _ member⟩
            · exact .inr ⟨found, k, positive, List.mem_cons_of_mem _ member, same⟩
          · rw [if_neg zero] at computed
            obtain ⟨rfl, rfl⟩ := Prod.mk.inj (Option.some.inj computed)
            exact .inr ⟨rfl, d, Nat.pos_of_ne_zero zero, List.mem_cons_self, rfl⟩

theorem undrawn_of_failed {key : EcKey P} {out : BigNum} {draws : List RandRange}
    (failed : .failed out ∈ draws) :
    key.Undrawn { key with priv_key := key.priv_key.map fun _ => out } draws := by
  refine ⟨rfl, rfl, ?_⟩
  cases key.priv_key with
  | none => exact .inl rfl
  | some old => exact .inr ⟨rfl, out, failed, rfl⟩

section
variable {meth : Method P} {Rep : P → G → Prop} {km : KeyMethod P}
  (multiplies : Multiplies km.mul meth Rep) {key : EcKey P}
  (groups : ∀ group, key.group = some group → Made meth Rep group)
include multiplies groups

theorem ecKeyGenerateKey_cases {draws : List RandRange} {after : EcKey P} {ok : Bool}
    (computed : ecKeyGenerateKey km key draws = some (after, ok)) :
    (ok = false ∧ key.Undrawn after draws) ∨
      (ok = true ∧ ∃ group generator g, ∃ d : Nat, ∃ pub_key, key.group = some group ∧
        group.generator = some generator ∧ Rep generator g ∧ 0 < d ∧ .drawn d ∈ draws ∧
        Rep pub_key ((d : Int) • g) ∧ after = ⟨some group, some pub_key, some ⟨false, d⟩⟩) := by
  have unchanged : key.Undrawn key draws := ⟨rfl, rfl, .inl rfl⟩
  rw [ecKeyGenerateKey] at computed
  cases here : key.group with
  | none =>
      simp only [here] at computed
      obtain ⟨rfl, rfl⟩ := Prod.mk.inj (Option.some.inj computed)
      exact .inl ⟨rfl, unchanged⟩
  | some group =>
      simp only [here] at computed
      by_cases no_order : group.order.isZero = true
      · rw [if_pos no_order] at computed
        obtain ⟨rfl, rfl⟩ := Prod.mk.inj (Option.some.inj computed)
        exact .inl ⟨rfl, unchanged⟩
      rw [if_neg no_order] at computed
      have made := groups group here
      obtain ⟨generator, set⟩ : ∃ generator, group.generator = some generator := by
        refine Option.ne_none_iff_exists'.mp fun nothing => no_order ?_
        exact (toInt_eq_zero _).mp (made.ordered nothing)
      obtain ⟨g, g_rep⟩ := made.kept.generator generator set
      obtain ⟨⟨out, drawn⟩, draws_end, rest⟩ := Option.bind_eq_some_iff.mp computed
      rcases drawKey_cases draws_end with ⟨rfl, failed⟩ | ⟨rfl, d, positive, member, rfl⟩
      · simp only [Bool.not_false, if_true, Option.pure_def, Option.some.injEq, Prod.mk.injEq] at rest
        obtain ⟨rfl, rfl⟩ := rest
        exact .inl ⟨rfl, here ▸ undrawn_of_failed failed⟩
      · obtain ⟨q, product, q_rep⟩ := multiplies.generator made.kept set g_rep
          (key.pub_key.getD km.pointNew) ⟨false, d⟩
        simp only [Bool.not_true, Bool.false_eq_true, if_false, product, Option.pure_def,
          Option.some.injEq, Prod.mk.injEq] at rest
        obtain ⟨rfl, rfl⟩ := rest
        exact .inr ⟨rfl, group, generator, g, d, q, rfl, set, g_rep, positive, member, q_rep, rfl⟩

theorem ecKeyGenerateKey_drawn {draws : List RandRange} {after : EcKey P} {ok : Bool}
    (in_range : key.InRange draws) (computed : ecKeyGenerateKey km key draws = some (after, ok)) :
    if ok then key.Drawn Rep after else key.Undrawn after draws := by
  rcases ecKeyGenerateKey_cases multiplies groups computed with ⟨rfl, undrawn⟩ | ⟨rfl, drawn⟩
  · exact undrawn
  · obtain ⟨group, generator, g, d, pub_key, here, set, g_rep, positive, member, rep, same⟩ := drawn
    exact ⟨group, generator, g, d, pub_key, here, set, g_rep, positive, in_range group here d member,
      rep, same⟩

end

/-! Runs of calls on a key. -/

/-- A group that some calls lead to. -/
def Reached (meth : Method P) (Rep : P → G → Prop) (group : EcGroup P) : Prop :=
  ∃ calls, (∀ call ∈ calls, Standing Rep call) ∧
    group ∈ Run.states callGroup (ecGroupNew meth) calls

/-- Groups come from the functions on groups, and public keys are points of the curve or refused. -/
def KeyStanding (km : KeyMethod P) (meth : Method P) (Rep : P → G → Prop) : KeyCall P → Prop
  | .setGroup group => ∀ given, group = some given → Reached meth Rep given
  | .setPrivateKey _ => True
  | .setPublicKey pub_key => ∀ point, pub_key = some point → Usable meth Rep point
  | .setPublicKeyAffineCoordinates x y =>
      ∀ point, km.setAffineCoordinates x y = some point → Usable meth Rep point
  | .precomputeMult => True
  | .copy src => (∀ given, src.group = some given → Reached meth Rep given) ∧
      ∀ point, src.pub_key = some point → Usable meth Rep point
  | .generateKey _ => True

theorem orElse_cases {α : Type} {first second : Option α} {value : α}
    (same : first.orElse (fun _ => second) = some value) :
    first = some value ∨ second = some value := by
  cases first with
  | none => exact .inr same
  | some held => exact .inl same

structure KeyKept (meth : Method P) (Rep : P → G → Prop) (key : EcKey P) : Prop where
  groups : ∀ group, key.group = some group → Made meth Rep group
  points : ∀ point, key.pub_key = some point → Usable meth Rep point

section
variable {meth : Method P} {Rep : P → G → Prop} {km : KeyMethod P} (lawful : Lawful meth Rep)
  {key : EcKey P}
include lawful

theorem Reached.made {group : EcGroup P} (reached : Reached meth Rep group) :
    Made meth Rep group := by
  obtain ⟨calls, standing, member⟩ := reached
  exact made_after_calls lawful calls standing group member

omit lawful in
theorem KeyKept.setPublicKey (kept : KeyKept meth Rep key) {pub_key : Option P}
    (usable : ∀ point, pub_key = some point → Usable meth Rep point) :
    KeyKept meth Rep (ecKeySetPublicKey key pub_key).1 := by
  refine ⟨kept.groups, fun point same => ?_⟩
  rw [ecKeySetPublicKey] at same
  by_cases grouped : key.group.isSome = true
  · simp only [if_pos grouped] at same
    exact usable point same
  · simp only [if_neg grouped] at same
    cases same

theorem KeyKept.call (multiplies : Multiplies km.mul meth Rep) (kept : KeyKept meth Rep key)
    (call : KeyCall P) (standing : KeyStanding km meth Rep call) :
    KeyKept meth Rep (callKey km key call) := by
  -- one case per call: groups are only set or precomputed, points only set when on the curve
  cases call with
  | setGroup group =>
      exact ⟨fun given same => Reached.made lawful (standing given same), kept.points⟩
  | setPrivateKey priv_key => exact ⟨kept.groups, kept.points⟩
  | setPublicKey pub_key => exact kept.setPublicKey standing
  | setPublicKeyAffineCoordinates x y =>
      rw [callKey, ecKeySetPublicKeyAffineCoordinates]
      split_ifs with none
      · exact kept
      cases set : km.setAffineCoordinates x y with
      | none => exact kept
      | some point =>
          cases coordinates : km.getAffineCoordinates point with
          | none => simpa only [coordinates] using kept
          | some found =>
              simp only [coordinates]
              split_ifs
              · exact kept
              · exact kept.setPublicKey fun other same => Option.some.inj same ▸ standing point set
  | precomputeMult =>
      rw [callKey, ecKeyPrecomputeMult]
      cases here : key.group with
      | none => exact kept
      | some group =>
          refine ⟨fun given same => ?_, kept.points⟩
          obtain rfl := Option.some.inj same
          have made := kept.groups group here
          refine ⟨callGroup_kept lawful group .precomputeMult made.kept trivial, fun nothing => ?_⟩
          have order : (ecWNAFPrecomputeMult group).1.order = group.order := by
            rw [ecWNAFPrecomputeMult]
            cases precompute group <;> rfl
          rw [(ecWNAFPrecomputeMult_frame group).2] at nothing
          rw [order]
          exact made.ordered nothing
  | copy src =>
      obtain ⟨src_groups, src_points⟩ := standing
      refine ⟨fun given same => ?_, fun point same => ?_⟩
      · rcases orElse_cases same with from_src | own
        · exact Reached.made lawful (src_groups given from_src)
        · exact kept.groups given own
      · rw [callKey, ecKeyCopy] at same
        split_ifs at same
        · rcases orElse_cases same with from_src | own
          · exact src_points point from_src
          · exact kept.points point own
        · exact kept.points point same
  | generateKey draws =>
      rw [callKey]
      cases computed : ecKeyGenerateKey km key draws with
      | none => exact kept
      | some result =>
          obtain ⟨after, ok⟩ := result
          rcases ecKeyGenerateKey_cases multiplies kept.groups computed with
            ⟨-, group_same, point_same, -⟩ | ⟨-, group, _, _, _, pub_key, here, _, _, _, _, rep, rfl⟩
          · exact ⟨fun given same => kept.groups given (group_same ▸ same),
              fun point same => kept.points point (point_same ▸ same)⟩
          · refine ⟨fun given same => ?_, fun point same => ?_⟩
            · obtain rfl := Option.some.inj same
              exact kept.groups group here
            · obtain rfl := Option.some.inj same
              exact .inl ⟨_, rep⟩

theorem KeyKept.checked (multiplies : Multiplies km.mul meth Rep) (kept : KeyKept meth Rep key) :
    ecKeyCheckKey km key = true ↔ key.Valid Rep := by
  cases here : key.group with
  | none =>
      refine iff_of_false (by simp [ecKeyCheckKey, here]) ?_
      rintro ⟨group, pub_key, Q, same, -⟩
      cases here.symm.trans same
  | some group => exact ecKeyCheckKey_iff lawful multiplies (kept.groups group here) here kept.points

theorem KeyKept.agrees (multiplies : Multiplies km.mul meth Rep) (kept : KeyKept meth Rep key) :
    key.Agrees km := by
  intro group generator draws after here set finite checked prime in_range computed
  have made := kept.groups group here
  have after_kept := kept.call lawful multiplies (.generateKey draws) trivial
  simp only [callKey, computed] at after_kept
  have drawn := ecKeyGenerateKey_drawn multiplies kept.groups in_range computed
  rw [if_pos rfl] at drawn
  obtain ⟨-, other, h, other_set, h_rep, order, vanishes⟩ :=
    (ecGroupCheck_iff lawful multiplies made).mp checked
  obtain ⟨group', generator', g, d, pub_key, here', set', g_rep, positive, small, rep, rfl⟩ := drawn
  obtain rfl := Option.some.inj (here.symm.trans here')
  obtain rfl := Option.some.inj (set.symm.trans set')
  obtain rfl := Option.some.inj (set.symm.trans other_set)
  obtain rfl := lawful.unique g_rep h_rep
  have order_eq : group.order.toInt = (group.order.magnitude : Int) := by
    rw [BigNum.toInt] at small ⊢
    split_ifs at small ⊢
    · omega
    · rfl
  have nonzero : g ≠ 0 := by
    rw [made.kept.method] at finite
    exact (lawful.at_infinity g_rep).not.mp (Bool.eq_false_iff.mp finite)
  -- the generator is of prime order
  have exact_order : addOrderOf g = group.order.magnitude := by
    have fact : Fact group.order.magnitude.Prime := ⟨prime⟩
    refine addOrderOf_eq_prime ?_ nonzero
    rw [← natCast_zsmul, ← order_eq]
    exact vanishes
  have finite_key : (d : Int) • g ≠ 0 := by
    rw [natCast_zsmul, Ne, ← addOrderOf_dvd_iff_nsmul_eq_zero, exact_order]
    intro divides
    have large := Nat.le_of_dvd positive divides
    omega
  refine (after_kept.checked lawful multiplies).mpr ?_
  refine ⟨group, pub_key, (d : Int) • g, rfl, rfl, rep, finite_key, order, ?_, fun priv same => ?_⟩
  · rw [smul_comm, vanishes, smul_zero]
  · obtain rfl := Option.some.inj same
    exact ⟨small, generator, g, set, g_rep, rfl⟩

theorem KeyKept.sound (multiplies : Multiplies km.mul meth Rep) (kept : KeyKept meth Rep key) :
    key.Sound km Rep where
  checked := kept.checked lawful multiplies
  group_checked group here := ecGroupCheck_iff lawful multiplies (kept.groups group here)
  generated _ _ _ in_range computed :=
    ecKeyGenerateKey_drawn multiplies kept.groups in_range computed
  agrees := kept.agrees lawful multiplies

theorem keyKept_after_calls (multiplies : Multiplies km.mul meth Rep) (calls : List (KeyCall P))
    (standing : ∀ call ∈ calls, KeyStanding km meth Rep call) :
    ∀ key ∈ Run.states (callKey km) ecKeyNew calls, KeyKept meth Rep key := by
  refine Run.invariant_along (callKey km) (fun _ call => KeyStanding km meth Rep call)
    (KeyKept meth Rep) (fun key call kept standing => kept.call lawful multiplies call standing)
    _ calls ⟨fun group same => ?_, fun point same => ?_⟩
    (Run.meets_of_forall _ _ _ calls standing)
  · cases same
  · cases same

end

/-- Whatever was called on a key before, where the method has no `mul` of its own. -/
theorem ecKey_after_calls {meth : Method P} {Rep : P → G → Prop} (lawful : Lawful meth Rep)
    (km : KeyMethod P) (default : km.mul = none) (calls : List (KeyCall P))
    (standing : ∀ call ∈ calls, KeyStanding km meth Rep call) :
    ∀ key ∈ Run.states (callKey km) ecKeyNew calls, key.Sound km Rep := by
  have multiplies : Multiplies km.mul meth Rep := by
    rw [default]
    exact wNAF_multiplies lawful
  intro key reached
  exact (keyKept_after_calls lawful multiplies calls standing key reached).sound lawful multiplies

/-- The integers, with a generator set. -/
def integerGroup : EcGroup Int :=
  Run.final callGroup (ecGroupNew integers) [.setGenerator 7 ⟨false, 11⟩ ⟨false, 1⟩, .precomputeMult]

def integerKeys : KeyMethod Int where
  mul := none
  pointNew := 0
  checkDiscriminant _ := true
  setAffineCoordinates x _ := some x.toInt
  getAffineCoordinates _ := none

theorem ecKey_after_calls_of_integers :
    (Run.final (callKey integerKeys) ecKeyNew
      [.setGroup (some integerGroup), .setPrivateKey (some ⟨true, 4⟩),
        .generateKey [.drawn 0, .drawn 5], .setPublicKey (some 35)]).Sound integerKeys
      (fun a b : Int => a = b) := by
  refine ecKey_after_calls integers_lawful integerKeys rfl _ (fun call member => ?_) _
    (Run.final_mem_states _ _ _)
  have reached : Reached integers (fun a b : Int => a = b) integerGroup :=
    ⟨_, by simp [Standing], Run.final_mem_states _ _ _⟩
  fin_cases member
  · exact fun given same => Option.some.inj same ▸ reached
  · trivial
  · trivial
  · exact fun point same => .inl ⟨point, rfl⟩

/-! Keys of the curves over binary fields. -/

section
variable {F : Type} [Field F] [DecidableEq F] {curve : BinaryCurve F}

/-- `ec_GF2m_simple_method`. -/
def BinaryCurve.keyMethod (curve : BinaryCurve F) : KeyMethod EcPoint where
  mul := some curve.simpleMul
  pointNew := ecPointNew
  checkDiscriminant _ := curve.checkDiscriminant
  setAffineCoordinates x y := some (EcPoint.setAffineCoordinates x.magnitude y.magnitude)
  getAffineCoordinates := EcPoint.getAffineCoordinates

theorem simpleMul_multiplies (sound : curve.Sound)
    (origin : ∀ x, OnCurve (curve.elem curve.a) (curve.elem curve.b) x 0 → x = 0) :
    Multiplies curve.keyMethod.mul curve.simpleMethod (Holds curve) := by
  constructor
  · rintro group p Q kept holds r scalar
    obtain ⟨q, computed, q_holds⟩ := simpleMul_without sound origin kept
      (List.Forall₂.cons (a := (p, scalar)) holds .nil) r
    refine ⟨q, computed, ?_⟩
    simpa [combination] using q_holds
  · rintro group generator g kept here holds r scalar
    obtain ⟨q, computed, q_holds⟩ := simpleMul_with sound origin kept .nil r scalar here holds
    refine ⟨q, computed, ?_⟩
    simpa [combination] using q_holds
  · rintro group kept here r scalar
    rcases simpleMul_unset sound origin kept .nil r scalar here with ⟨long, -⟩ | ⟨-, computed⟩
    · exact absurd long (by simp)
    · obtain ⟨q, product, q_holds⟩ := computed
      exact .inr ⟨q, product, by simpa [combination] using q_holds⟩

/-- Reduced coordinates are those of a point of the curve, or refused. -/
theorem usable_of_reduced (sound : curve.Sound) {x y : Nat} (x_lt : x < 2 ^ curve.degree)
    (y_lt : y < 2 ^ curve.degree) :
    Usable curve.simpleMethod (Holds curve) (EcPoint.setAffineCoordinates x y) := by
  by_cases off : curve.isOnCurve ⟨x, y, 1, true⟩ ≤ 0
  · exact .inr off
  · obtain ⟨P, here⟩ := onCurve_of_accepted sound off
    exact .inl ⟨P, .affine x_lt y_lt here⟩

/-- Whatever was called on a key before, on a curve without points of second coordinate zero away
from the origin. -/
theorem binaryKey_after_calls (sound : curve.Sound)
    (origin : ∀ x, OnCurve (curve.elem curve.a) (curve.elem curve.b) x 0 → x = 0)
    (calls : List (KeyCall EcPoint))
    (standing : ∀ call ∈ calls, KeyStanding curve.keyMethod curve.simpleMethod (Holds curve) call) :
    ∀ key ∈ Run.states (callKey curve.keyMethod) ecKeyNew calls,
      key.Sound curve.keyMethod (Holds curve) := by
  have lawful := simpleMethod_lawful sound origin
  have multiplies := simpleMul_multiplies sound origin
  intro key reached
  exact (keyKept_after_calls lawful multiplies calls standing key reached).sound lawful multiplies

end

theorem binaryKey_after_calls_on_four :
    (Run.final (callKey Four.curve.keyMethod) ecKeyNew
      [.setGroup (some (Run.final callGroup (ecGroupNew Four.curve.simpleMethod)
        [.setGenerator ⟨2, 1, 1, true⟩ ⟨false, 4⟩ ⟨false, 1⟩])), .generateKey [.drawn 3],
        .setPublicKeyAffineCoordinates ⟨false, 2⟩ ⟨false, 3⟩]).Sound
      Four.curve.keyMethod (Holds Four.curve) := by
  obtain ⟨G, holds⟩ := Four.generator_holds
  refine binaryKey_after_calls Four.curve_sound Four.curve_origin _ (fun call member => ?_) _
    (Run.final_mem_states _ _ _)
  fin_cases member
  · intro given same
    obtain rfl := Option.some.inj same
    exact ⟨_, by simpa [Standing] using ⟨G, holds⟩, Run.final_mem_states _ _ _⟩
  · trivial
  · intro point same
    obtain rfl := Option.some.inj same
    exact usable_of_reduced Four.curve_sound (by decide) (by decide)

end EChainLib.Ec
