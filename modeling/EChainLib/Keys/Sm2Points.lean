import EChainLib.Ec.Key
import EChainLib.Keys.Sm2

/-! `EccSm2` of `ecc_sm2.cpp` on the groups of `ec_lib.cpp`: it computes what `EccSm2` of a curve
does. A run of `BN_rand_range` is the list of what it delivers. -/

namespace EChainLib.Keys.Points

open Ec (KeyMethod ecPointMul)

structure EccSm2 (P : Type) where
  dA_ : Nat
  pkey_ : P
  valid_ : Bool

variable {P : Type} (meth : KeyMethod P) (group : Ec.EcGroup P) (curve_a curve_b : Nat)
  (sm3 : Bytes → Digest)

/-- `EC_POINT_mul` with a factor of the generator only. -/
def mulGenerator (r : P) (scalar : Nat) : Option P :=
  ecPointMul meth.mul group r (some ⟨false, scalar⟩) none none

/-- `EccSm2::getZA`; `none` is a group without a generator, whose coordinates nobody has. -/
def getZA (id : Bytes) (pkey : P) : Option Bytes := do
  let entla := UInt32.ofNat id.length * 8
  let (xA, yA) := (meth.getAffineCoordinates pkey).getD (0, 0)
  let generator ← group.generator
  let (xG, yG) := (meth.getAffineCoordinates generator).getD (0, 0)
  return (sm3 ([(entla >>> 8).toUInt8, (entla &&& 0xFF).toUInt8] ++ id ++
    bn2FixedString curve_a 32 ++ bn2FixedString curve_b 32 ++
    bn2FixedString xG 32 ++ bn2FixedString yG 32 ++
    bn2FixedString xA 32 ++ bn2FixedString yA 32)).val

/-- `e = Hv(ZA || M)` as a number. -/
def messageDigest (id msg : Bytes) (pkey : P) : Option Nat :=
  (getZA meth group curve_a curve_b sm3 id pkey).map fun ZA =>
    BigEndian.decode (sm3 (ZA ++ msg)).val

/-- `EccSm2::From`. What a call that fails leaves in `pkey_` nobody reads. -/
def EccSm2.ofBytes (old : EccSm2 P) (skey_bin : Bytes) : EccSm2 P :=
  let dA_ := BigEndian.decode skey_bin
  if (dA_ : Int) = group.order.toInt then { old with dA_ := dA_, valid_ := false }
  else
    match mulGenerator meth group old.pkey_ dA_ with
    | none => { old with dA_ := dA_, valid_ := false }
    | some pkey_ =>
        match meth.getAffineCoordinates pkey_ with
        | none => { dA_ := dA_, pkey_ := pkey_, valid_ := false }
        | some _ => { dA_ := dA_, pkey_ := pkey_, valid_ := true }

/-- `EccSm2::NewRandom`; a `continue` draws again. -/
def EccSm2.newRandom (pkey_ : P) : List Nat → Option (EccSm2 P)
  | [] => none
  | dA_ :: rest =>
      if (dA_ : Int) = group.order.toInt then newRandom pkey_ rest
      else
        match mulGenerator meth group pkey_ dA_ with
        | none => newRandom pkey_ rest
        | some pkey_ =>
            match meth.getAffineCoordinates pkey_ with
            | none => newRandom pkey_ rest
            | some (x, y) =>
                let size := (BigEndian.shortest group.order.magnitude).length
                if size ≠ (BigEndian.shortest x).length ∨ size ≠ (BigEndian.shortest y).length then
                  newRandom pkey_ rest
                else some { dA_ := dA_, pkey_ := pkey_, valid_ := true }

def EccSm2.getPublicKey (key : EccSm2 P) : Bytes :=
  if !key.valid_ then []
  else
    let (x, y) := (meth.getAffineCoordinates key.pkey_).getD (0, 0)
    4 :: (bn2FixedString x 32 ++ bn2FixedString y 32)

/-- The loops of `Sign`, with `pt1`, `r` and `s` as the rounds before left them. -/
def signLoop (dA_ e : Nat) : P → Nat → Nat → List Nat → Option (Nat × Nat)
  | _, _, _, [] => none
  | pt1, r, s, k :: rest =>
      let order := group.order.magnitude
      if k = 0 ∨ k = order then signLoop dA_ e pt1 r s rest
      else
        match mulGenerator meth group pt1 k with
        | none => some (r, s)
        | some pt1 =>
            match meth.getAffineCoordinates pt1 with
            | none => some (r, s)
            | some (x, _) =>
                let x1 := x % order
                if x1 = 0 then signLoop dA_ e pt1 r s rest
                else
                  let r := (x1 + e) % order
                  if r = 0 ∨ (r + k) % order = 0 then signLoop dA_ e pt1 r s rest
                  else
                    let s := (dA_ + 1) % order
                    match modInverse s order with
                    | none => some (r, s)
                    | some inverse =>
                        let bn := ((k : Int) - (r * dA_ % order : Nat)) % order
                        let s := inverse * bn.toNat % order
                        if s = 0 then signLoop dA_ e pt1 r s rest else some (r, s)

def EccSm2.sign (key : EccSm2 P) (id msg : Bytes) (nonces : List Nat) : Option Bytes :=
  if !key.valid_ then some []
  else do
    let e ← messageDigest meth group curve_a curve_b sm3 id msg key.pkey_
    let (r, s) ← signLoop meth group key.dA_ e meth.pointNew 0 0 nonces
    return bn2FixedString r 32 ++ bn2FixedString s 32

/-- `EccSm2::verify`. -/
def verify (pkey id msg strsig : Bytes) : Option Int :=
  match splitKey pkey with
  | none => none
  | some (px, py) =>
    let order := group.order.magnitude
    let r := BigEndian.decode (strsig.take (strsig.length / 2))
    let s := BigEndian.decode ((strsig.drop (strsig.length / 2)).take (strsig.length / 2))
    let pub_key := (meth.setAffineCoordinates ⟨false, BigEndian.decode px⟩
      ⟨false, BigEndian.decode py⟩).getD meth.pointNew
    if r = 0 ∨ order ≤ r ∨ s = 0 ∨ order ≤ s then some 0
    else
      let t := (r + s) % order
      if t = 0 then some 0
      else
        match messageDigest meth group curve_a curve_b sm3 id msg pub_key with
        | none => none
        | some e =>
          match ecPointMul meth.mul group meth.pointNew (some ⟨false, s⟩) (some pub_key)
              (some ⟨false, t⟩) with
          | none => some (-1)
          | some point =>
            match meth.getAffineCoordinates point with
            | none => some (-1)
            | some (x1, _) => if (x1 % order + e) % order = r then some 1 else some 0

/-! The curve that the points are of. -/

variable (curve : EcGroup) (Rep : P → curve.Point → Prop)

/-- A method without a `mul`, as `EC_GFp_mont_method` is, whose coordinates are the curve's. -/
structure Coordinates : Prop where
  mul : meth.mul = none
  get : ∀ {p Q}, Rep p Q → meth.getAffineCoordinates p = curve.affine Q
  set : ∀ {x y Q}, curve.ofAffine x y = some Q →
    ∃ p, meth.setAffineCoordinates ⟨false, x⟩ ⟨false, y⟩ = some p ∧ Rep p Q

/-- The group has the curve's generator and order. -/
structure OfCurve : Prop where
  generator : ∃ generator, group.generator = some generator ∧ Rep generator curve.generator
  order : group.order = ⟨false, curve.order⟩

/-- `key` holds what the key of the curve does. -/
structure StandsFor {curve : EcGroup} (Rep : P → curve.Point → Prop) (key : EccSm2 P)
    (key' : Keys.EccSm2 curve) : Prop where
  number : key.dA_ = key'.dA_
  valid : key.valid_ = key'.valid_
  point : key.valid_ = true → Rep key.pkey_ key'.pkey_

/-- Keys are made, exported and used as on the curve. What `verify` makes of coordinates that are
no point's is not said. -/
structure Computes : Prop where
  ofBytes : ∀ (old : EccSm2 P) (old' : Keys.EccSm2 curve) skey_bin,
    StandsFor Rep (old.ofBytes meth group skey_bin) (old'.ofBytes skey_bin)
  newRandom : ∀ pkey_ draws, Option.Rel (StandsFor Rep) (EccSm2.newRandom meth group pkey_ draws)
    (Keys.EccSm2.newRandom draws)
  getPublicKey : ∀ key key', StandsFor Rep key key' → key.getPublicKey meth = key'.getPublicKey
  sign : ∀ key key', StandsFor Rep key key' → ∀ id msg nonces,
    key.sign meth group curve.curve_a curve.curve_b sm3 id msg nonces =
      key'.sign sm3 id msg nonces
  verify : ∀ pkey, (∀ px py, splitKey pkey = some (px, py) →
      curve.ofAffine (BigEndian.decode px) (BigEndian.decode py) ≠ none) → ∀ id msg strsig,
    verify meth group curve.curve_a curve.curve_b sm3 pkey id msg strsig =
      Keys.verify curve sm3 pkey id msg strsig

section
variable {meth group curve Rep}
variable {m : Ec.Method P} (lawful : Ec.Lawful m Rep) (coordinates : Coordinates meth curve Rep)
  (kept : Ec.Kept m Rep group) (of_curve : OfCurve group curve Rep)
include lawful coordinates kept of_curve

theorem mulGenerator_eq (r : P) (k : Nat) :
    ∃ p, mulGenerator meth group r k = some p ∧ Rep p (k • curve.generator) ∧
      meth.getAffineCoordinates p = curve.affine (k • curve.generator) := by
  obtain ⟨generator, here, rep⟩ := of_curve.generator
  obtain ⟨p, computed, p_rep⟩ :=
    (Ec.wNAF_multiplies lawful).generator kept here rep r ⟨false, k⟩
  have factor : (⟨false, k⟩ : Ec.BigNum).toInt • curve.generator = k • curve.generator :=
    natCast_zsmul curve.generator k
  rw [factor] at p_rep
  refine ⟨p, ?_, p_rep, coordinates.get p_rep⟩
  rw [mulGenerator, coordinates.mul, computed]

theorem sum_eq {pub_key : P} {Q : curve.Point} (rep : Rep pub_key Q) (r : P) (s t : Nat) :
    ∃ p, ecPointMul meth.mul group r (some ⟨false, s⟩) (some pub_key) (some ⟨false, t⟩) = some p ∧
      meth.getAffineCoordinates p = curve.affine (s • curve.generator + t • Q) := by
  obtain ⟨generator, here, generator_rep⟩ := of_curve.generator
  obtain ⟨rfl, -, entry, -⟩ := kept
  -- the key is a term of its own; the generator is one too, or comes from its table
  obtain ⟨p, computed, p_rep⟩ := Ec.ecWNAFMul_with lawful entry
    (List.Forall₂.cons (a := (pub_key, ⟨false, t⟩)) rep .nil) ⟨false, s⟩ here generator_rep r
  have sum : Ec.combination [(pub_key, (⟨false, t⟩ : Ec.BigNum))] [Q] +
      (⟨false, s⟩ : Ec.BigNum).toInt • curve.generator = s • curve.generator + t • Q := by
    rw [add_comm]
    simp [Ec.combination, Ec.BigNum.toInt]
  rw [sum] at p_rep
  refine ⟨p, ?_, coordinates.get p_rep⟩
  rw [coordinates.mul]
  exact computed

omit lawful kept in
theorem messageDigest_eq {pkey : P} {Q : curve.Point} (rep : Rep pkey Q) (id msg : Bytes) :
    messageDigest meth group curve.curve_a curve.curve_b sm3 id msg pkey =
      some (Keys.messageDigest curve sm3 id msg Q) := by
  obtain ⟨generator, here, generator_rep⟩ := of_curve.generator
  simp only [messageDigest, getZA, here, coordinates.get rep, coordinates.get generator_rep,
    Option.bind_eq_bind, Option.bind_some, Option.pure_def, Option.map_some]
  rfl

omit lawful coordinates kept in
theorem order_eq : group.order.magnitude = curve.order ∧ group.order.toInt = curve.order := by
  rw [of_curve.order]
  exact ⟨rfl, rfl⟩

theorem ofBytes_eq (old : EccSm2 P) (old' : Keys.EccSm2 curve) (skey_bin : Bytes) :
    StandsFor Rep (old.ofBytes meth group skey_bin) (old'.ofBytes skey_bin) := by
  obtain ⟨p, computed, rep, same⟩ := mulGenerator_eq lawful coordinates kept of_curve old.pkey_
    (BigEndian.decode skey_bin)
  rw [EccSm2.ofBytes, Keys.EccSm2.ofBytes, (order_eq of_curve).2]
  simp only [Nat.cast_inj, computed, same]
  split
  · exact ⟨rfl, rfl, fun refused => by cases refused⟩
  · cases curve.affine (BigEndian.decode skey_bin • curve.generator) with
    | none => exact ⟨rfl, rfl, fun refused => by cases refused⟩
    | some found => exact ⟨rfl, rfl, fun _ => rep⟩

theorem newRandom_eq (draws : List Nat) (pkey_ : P) :
    Option.Rel (StandsFor Rep) (EccSm2.newRandom meth group pkey_ draws)
      (Keys.EccSm2.newRandom draws) := by
  induction draws generalizing pkey_ with
  | nil => exact .none
  | cons dA_ rest ih =>
      obtain ⟨p, computed, rep, same⟩ :=
        mulGenerator_eq lawful coordinates kept of_curve pkey_ dA_
      obtain ⟨magnitude, number⟩ := order_eq of_curve
      rw [EccSm2.newRandom, Keys.EccSm2.newRandom, number, magnitude]
      simp only [Nat.cast_inj, computed, same]
      split
      · exact ih pkey_
      · cases curve.affine (dA_ • curve.generator) with
        | none => exact ih p
        | some found =>
            dsimp only
            split
            · exact ih p
            · exact .some ⟨rfl, rfl, fun _ => rep⟩

omit lawful kept of_curve in
theorem getPublicKey_eq {key : EccSm2 P} {key' : Keys.EccSm2 curve}
    (stands : StandsFor Rep key key') : key.getPublicKey meth = key'.getPublicKey := by
  rw [EccSm2.getPublicKey, Keys.EccSm2.getPublicKey, ← stands.valid]
  cases valid : key.valid_ with
  | false => rfl
  | true => simp only [coordinates.get (stands.point valid)]

theorem signLoop_eq (dA_ e : Nat) (nonces : List Nat) (pt1 : P) (r s : Nat) :
    signLoop meth group dA_ e pt1 r s nonces = Keys.signLoop curve dA_ e r s nonces := by
  induction nonces generalizing pt1 r s with
  | nil => rfl
  | cons k rest ih =>
      obtain ⟨p, computed, -, same⟩ := mulGenerator_eq lawful coordinates kept of_curve pt1 k
      rw [signLoop, Keys.signLoop, (order_eq of_curve).1]
      -- what is left of a round is the same, and `pt1` only goes on into the rounds behind it
      cases found : curve.affine (k • curve.generator) with
      | none => simp only [computed, same, found, ih]
      | some point =>
          cases inverted : modInverse ((dA_ + 1) % curve.order) curve.order with
          | none => simp only [computed, same, found, inverted, ih]
          | some inverse => simp only [computed, same, found, inverted, ih]

theorem sign_eq {key : EccSm2 P} {key' : Keys.EccSm2 curve} (stands : StandsFor Rep key key')
    (id msg : Bytes) (nonces : List Nat) :
    key.sign meth group curve.curve_a curve.curve_b sm3 id msg nonces =
      key'.sign sm3 id msg nonces := by
  rw [EccSm2.sign, Keys.EccSm2.sign, ← stands.valid]
  cases valid : key.valid_ with
  | false => rfl
  | true =>
      have digest := messageDigest_eq sm3 coordinates of_curve (stands.point valid) id msg
      simp only [Bool.not_true, Bool.false_eq_true, if_false, digest, stands.number,
        signLoop_eq lawful coordinates kept of_curve, Option.bind_eq_bind, Option.bind_some]
      cases Keys.signLoop curve key'.dA_ (Keys.messageDigest curve sm3 id msg key'.pkey_) 0 0
        nonces <;> rfl

theorem verify_eq {pkey : Bytes} (points : ∀ px py, splitKey pkey = some (px, py) →
      curve.ofAffine (BigEndian.decode px) (BigEndian.decode py) ≠ none) (id msg strsig : Bytes) :
    verify meth group curve.curve_a curve.curve_b sm3 pkey id msg strsig =
      Keys.verify curve sm3 pkey id msg strsig := by
  rw [verify, Keys.verify]
  cases split : splitKey pkey with
  | none => rfl
  | some halves =>
      obtain ⟨px, py⟩ := halves
      obtain ⟨Q, accepted⟩ := Option.ne_none_iff_exists'.mp (points px py split)
      obtain ⟨pub_key, set, rep⟩ := coordinates.set accepted
      simp only [set, accepted, Option.getD_some, (order_eq of_curve).1,
        messageDigest_eq sm3 coordinates of_curve rep]
      -- whatever the two halves of the signature say
      generalize BigEndian.decode (strsig.take (strsig.length / 2)) = r
      generalize BigEndian.decode
        ((strsig.drop (strsig.length / 2)).take (strsig.length / 2)) = s
      obtain ⟨p, computed, same⟩ := sum_eq lawful coordinates kept of_curve rep meth.pointNew s
        ((r + s) % curve.order)
      cases found : curve.affine
          (s • curve.generator + ((r + s) % curve.order) • Q) with
      | none => simp only [computed, same, found]
      | some point => simp only [computed, same, found]

end

/-- Whatever generators and multiples the group had before, `EccSm2` computes what it does on the
curve that the group has now. -/
theorem eccSm2_after_calls {m : Ec.Method P} {curve : EcGroup} {Rep : P → curve.Point → Prop}
    (lawful : Ec.Lawful m Rep) (coordinates : Coordinates meth curve Rep)
    (calls : List (Ec.GroupCall P)) (standing : ∀ call ∈ calls, Ec.Standing Rep call) :
    ∀ group ∈ Run.states Ec.callGroup (Ec.ecGroupNew m) calls, OfCurve group curve Rep →
      Computes meth group sm3 curve Rep := by
  intro group reached of_curve
  have kept := Ec.kept_after_calls lawful calls standing group reached
  constructor
  · exact ofBytes_eq lawful coordinates kept of_curve
  · exact fun pkey_ draws => newRandom_eq lawful coordinates kept of_curve draws pkey_
  · exact fun _ _ stands => getPublicKey_eq coordinates stands
  · exact fun _ _ stands => sign_eq sm3 lawful coordinates kept of_curve stands
  · exact fun _ points => verify_eq sm3 lawful coordinates kept of_curve points

/-- Seven points, each its own representation. -/
def sevenMethod : Ec.Method (ZMod 7) where
  setToInfinity _ := 0
  add a b := some (a + b)
  dbl a := some (a + a)
  invert a := some (-a)
  isAtInfinity a := a = 0
  isOnCurve _ := 1
  pointCmp a b := if a = b then 0 else 1
  pointsMakeAffine := some

def sevenKeys : KeyMethod (ZMod 7) where
  mul := none
  pointNew := 0
  checkDiscriminant _ := true
  setAffineCoordinates x _ := some (x.magnitude : ZMod 7)
  getAffineCoordinates point := if point = 0 then none else some (point.val, point.val)

theorem sevenMethod_lawful : Ec.Lawful sevenMethod (fun a b : ZMod 7 => a = b) where
  infinity _ := rfl
  add := by
    rintro a b - - rfl rfl
    exact ⟨a + b, rfl, rfl⟩
  dbl := by
    rintro a - rfl
    exact ⟨a + a, rfl, (two_zsmul a).symm⟩
  invert := by
    rintro a - rfl
    exact ⟨-a, rfl, rfl⟩
  at_infinity := by
    rintro a - rfl
    exact decide_eq_true_iff
  on_curve _ := Int.one_pos
  cmp := by
    rintro a b - - rfl rfl
    simp [sevenMethod]
  make_affine {points gs} all := ⟨points, rfl, all⟩

theorem sevenKeys_coordinates :
    Coordinates sevenKeys sevenPoints (fun a b : ZMod 7 => a = b) where
  mul := rfl
  get := by
    rintro a - rfl
    rfl
  set := by
    intro x y Q accepted
    exact ⟨(x : ZMod 7), rfl, Option.some.inj accepted⟩

/-- Another generator, its multiples, and then the one of the curve. -/
def sevenCalls : List (Ec.GroupCall (ZMod 7)) :=
  [.setGenerator 3 ⟨false, 1000⟩ ⟨false, 1⟩, .precomputeMult, .setGenerator 1 ⟨false, 7⟩ ⟨false, 1⟩]

theorem sevenCalls_standing :
    ∀ call ∈ sevenCalls, Ec.Standing (fun a b : ZMod 7 => a = b) call := by
  simp [sevenCalls, Ec.Standing]

theorem eccSm2_after_calls_of_seven :
    Computes sevenKeys (Run.final Ec.callGroup (Ec.ecGroupNew sevenMethod) sevenCalls) zeroHash
      sevenPoints (fun a b : ZMod 7 => a = b) :=
  eccSm2_after_calls sevenKeys zeroHash sevenMethod_lawful sevenKeys_coordinates sevenCalls
    sevenCalls_standing _ (Run.final_mem_states _ _ _) ⟨⟨1, rfl, rfl⟩, rfl⟩

end EChainLib.Keys.Points
