import Mathlib
import EChainLib.Support.BigEndian
import EChainLib.Support.Scalars
import EChainLib.Support.Strings
import EChainLib.Keys.PrivateKey

/-! `EccSm2` of `ecc_sm2.cpp`: keys, `Sign` and `verify`. OpenSSL's curve and
number arithmetic is exact; the curve is the parameter `EcGroup`, and a run of
`BN_rand_range` is the list of what it delivers. -/

namespace EChainLib.Keys

/-- A curve with its generator; `none` is a call that fails. -/
structure EcGroup where
  Point : Type
  [group : AddCommGroup Point]
  order : Nat
  generator : Point
  curve_a : Nat
  curve_b : Nat
  /-- `EC_POINT_get_affine_coordinates_GFp`, which the point at infinity fails. -/
  affine : Point → Option (Nat × Nat)
  /-- `EC_POINT_set_affine_coordinates_GFp`. -/
  ofAffine : Nat → Nat → Option Point
  multiple_zero : ∀ k : Nat, k • generator = 0 ↔ order ∣ k
  affine_infinity : ∀ point, affine point = none ↔ point = 0
  affine_small : ∀ point x y, affine point = some (x, y) → x < 256 ^ 32 ∧ y < 256 ^ 32
  ofAffine_affine : ∀ point x y, affine point = some (x, y) → ofAffine x y = some point
  order_small : order < 256 ^ 32

attribute [instance] EcGroup.group

/-- `BN_mod_inverse`; a failed call leaves its result as it was. -/
def modInverse (a order : Nat) : Option Nat :=
  if Nat.gcd a order = 1 then some ((a : ZMod order)⁻¹).val else none

/-- `EccSm2::Bn2FixedString`. -/
def bn2FixedString (bn len : Nat) : Bytes :=
  let tmp := BigEndian.shortest bn
  if tmp.length ≤ len then List.replicate (len - tmp.length) 0 ++ tmp
  else tmp.drop (tmp.length - len)

theorem bn2FixedString_padded (bn len : Nat) (fits : bn < 256 ^ len) :
    bn2FixedString bn len = BigEndian.padded len bn := by
  rw [bn2FixedString, if_pos (BigEndian.shortest_length len bn fits), BigEndian.padded]

variable (group : EcGroup) (sm3 : Bytes → Digest)

structure EccSm2 where
  dA_ : Nat
  pkey_ : group.Point
  valid_ : Bool

/-- `EccSm2::getZA`. Coordinates that cannot be had stay zero. -/
def getZA (id : Bytes) (pkey : group.Point) : Bytes :=
  let entla := UInt32.ofNat id.length * 8
  let (xG, yG) := (group.affine group.generator).getD (0, 0)
  let (xA, yA) := (group.affine pkey).getD (0, 0)
  (sm3 ([(entla >>> 8).toUInt8, (entla &&& 0xFF).toUInt8] ++ id ++
    bn2FixedString group.curve_a 32 ++ bn2FixedString group.curve_b 32 ++
    bn2FixedString xG 32 ++ bn2FixedString yG 32 ++
    bn2FixedString xA 32 ++ bn2FixedString yA 32)).val

/-- `e = Hv(ZA || M)` as a number. -/
def messageDigest (id msg : Bytes) (pkey : group.Point) : Nat :=
  BigEndian.decode (sm3 (getZA group sm3 id pkey ++ msg)).val

variable {group}

/-- `EccSm2::From`; what it returns is `valid_`. Only equality with the order is
refused, so a key above it is taken as it is. -/
def EccSm2.ofBytes (old : EccSm2 group) (skey_bin : Bytes) : EccSm2 group :=
  let dA_ := BigEndian.decode skey_bin
  if dA_ = group.order then { old with dA_ := dA_, valid_ := false }
  else
    match group.affine (dA_ • group.generator) with
    | none => { dA_ := dA_, pkey_ := dA_ • group.generator, valid_ := false }
    | some _ => { dA_ := dA_, pkey_ := dA_ • group.generator, valid_ := true }

/-- `EccSm2::NewRandom` over the numbers drawn; `none` is still looping. -/
def EccSm2.newRandom : List Nat → Option (EccSm2 group)
  | [] => none
  | dA_ :: rest =>
      if dA_ = group.order then newRandom rest
      else
        match group.affine (dA_ • group.generator) with
        | none => newRandom rest
        | some (x, y) =>
            if (BigEndian.shortest group.order).length ≠ (BigEndian.shortest x).length ∨
                (BigEndian.shortest group.order).length ≠ (BigEndian.shortest y).length then
              newRandom rest
            else some { dA_ := dA_, pkey_ := dA_ • group.generator, valid_ := true }

def EccSm2.getPublicKey (key : EccSm2 group) : Bytes :=
  if !key.valid_ then []
  else
    let (x, y) := (group.affine key.pkey_).getD (0, 0)
    4 :: (bn2FixedString x 32 ++ bn2FixedString y 32)

/-- The loops of `Sign` over the nonces drawn, with `r` and `s` as the rounds
before left them. A `goto end` hands both out as they are. -/
def signLoop (group : EcGroup) (dA_ e : Nat) : Nat → Nat → List Nat → Option (Nat × Nat)
  | _, _, [] => none
  | r, s, k :: rest =>
      if k = 0 ∨ k = group.order then signLoop group dA_ e r s rest
      else
        match group.affine (k • group.generator) with
        | none => some (r, s)
        | some (x, _) =>
            let x1 := x % group.order
            if x1 = 0 then signLoop group dA_ e r s rest
            else
              let r := (x1 + e) % group.order
              if r = 0 ∨ (r + k) % group.order = 0 then signLoop group dA_ e r s rest
              else
                -- s = ((1 + d)^-1 * (k - rd)) mod n
                let s := (dA_ + 1) % group.order
                match modInverse s group.order with
                | none => some (r, s)
                | some inverse =>
                    let bn := ((k : Int) - (r * dA_ % group.order : Nat)) % group.order
                    let s := inverse * bn.toNat % group.order
                    if s = 0 then signLoop group dA_ e r s rest else some (r, s)

def EccSm2.sign (key : EccSm2 group) (id msg : Bytes) (nonces : List Nat) : Option Bytes :=
  if !key.valid_ then some []
  else
    (signLoop group key.dA_ (messageDigest group sm3 id msg key.pkey_) 0 0 nonces).map
      fun (r, s) => bn2FixedString r 32 ++ bn2FixedString s 32

/-- `px` and `py` of `EccSm2::verify`. The size is unsigned, `len` an `int`; `none` is the
`std::out_of_range` of `substr`, or that `1 + len` is no `int`. -/
def splitKey (pkey : Bytes) : Option (Bytes × Bytes) := do
  let len := (Int32.ofNat ((pkey.length + (2 ^ 64 - 1)) % 2 ^ 64 / 2)).toInt
  let px ← Strings.substr pkey 1 len
  let py ← if len + 1 = 2 ^ 31 then none else Strings.substr pkey (1 + len) len
  return (px, py)

variable (group)

/-- `EccSm2::verify`. -/
def verify (pkey id msg strsig : Bytes) : Option Int :=
  match splitKey pkey with
  | none => none
  | some (px, py) =>
    let r := BigEndian.decode (strsig.take (strsig.length / 2))
    let s := BigEndian.decode ((strsig.drop (strsig.length / 2)).take (strsig.length / 2))
    -- a point whose coordinates are refused is still the one at infinity
    let pub_key := (group.ofAffine (BigEndian.decode px) (BigEndian.decode py)).getD 0
    if r = 0 ∨ group.order ≤ r ∨ s = 0 ∨ group.order ≤ s then some 0
    else
      let t := (r + s) % group.order
      if t = 0 then some 0
      else
        match group.affine (s • group.generator + t • pub_key) with
        | none => some (-1)
        | some (x1, _) =>
            if (x1 % group.order + messageDigest group sm3 id msg pub_key) % group.order = r then
              some 1
            else some 0

section PrimeOrder

variable {group} (prime : group.order.Prime)
include prime

theorem modInverse_zero : modInverse 0 group.order = none := by
  simp [modInverse, prime.ne_one]

theorem modInverse_nonzero (a : Nat) (small : a < group.order) (nonzero : a ≠ 0) :
    ∃ inverse, modInverse a group.order = some inverse ∧
      (inverse : ZMod group.order) * a = 1 := by
  have coprime : Nat.gcd a group.order = 1 :=
    (Nat.coprime_of_lt_prime (by omega) small prime).symm
  have := Fact.mk prime
  refine ⟨((a : ZMod group.order)⁻¹).val, by simp [modInverse, coprime], ?_⟩
  rw [ZMod.natCast_zmod_val, mul_comm]
  exact ZMod.coe_mul_inv_eq_one a coprime

end PrimeOrder

theorem generator_killed : group.order • group.generator = 0 :=
  (group.multiple_zero group.order).mpr dvd_rfl

theorem affine_of_nonce (k : Nat) (positive : k ≠ 0) (small : k < group.order) :
    ∃ x y, group.affine (k • group.generator) = some (x, y) := by
  have finite : group.affine (k • group.generator) ≠ none := by
    rw [ne_eq, group.affine_infinity, group.multiple_zero]
    exact Nat.not_dvd_of_pos_of_lt (by omega) small
  obtain ⟨coordinates, found⟩ := Option.ne_none_iff_exists'.mp finite
  exact ⟨coordinates.1, coordinates.2, found⟩

/-- `BN_mod_sub(bn, k, bn, order, ctx)` in the field of scalars. -/
theorem modSub_cast (order k m : Nat) (positive : 0 < order) :
    (((((k : Int) - (m % order : Nat)) % order).toNat : Nat) : ZMod order) = k - m := by
  have nonnegative : 0 ≤ ((k : Int) - (m % order : Nat)) % order :=
    Int.emod_nonneg _ (by omega)
  rw [← Int.cast_natCast, Int.toNat_of_nonneg nonnegative, ZMod.intCast_mod]
  push_cast
  rfl

theorem signing_equation {order : Nat} (dA_ r k inverse : Nat) (positive : 0 < order)
    (inverted : (inverse : ZMod order) * ((dA_ + 1) % order : Nat) = 1) :
    ((inverse * (((k : Int) - (r * dA_ % order : Nat)) % order).toNat % order : Nat) :
        ZMod order) * (dA_ + 1) = k - r * dA_ := by
  have unit : (inverse : ZMod order) * ((dA_ : ZMod order) + 1) = 1 := by
    simpa using inverted
  rw [ZMod.natCast_mod, Nat.cast_mul, modSub_cast order k (r * dA_) positive, mul_right_comm, unit,
    one_mul, Nat.cast_mul]

/-- What `Sign` hands out once a nonce is accepted: `r` from the nonce's point,
and an `s` that answers the signing equation unless `1 + d` has no inverse. -/
structure SignedWith (dA_ e r s k x : Nat) : Prop where
  r_value : r = (x % group.order + e) % group.order
  r_nonzero : r ≠ 0
  sum_nonzero : (r + k) % group.order ≠ 0
  no_inverse : (dA_ + 1) % group.order = 0 → s = 0
  equation : (dA_ + 1) % group.order ≠ 0 → s ≠ 0 ∧ s < group.order ∧
    (s : ZMod group.order) * (dA_ + 1) = k - r * dA_

variable {group}

theorem signLoop_exit (prime : group.order.Prime) (dA_ e r₀ s₀ r s : Nat) (nonces : List Nat)
    (range : ∀ k ∈ nonces, k < group.order)
    (returned : signLoop group dA_ e r₀ s₀ nonces = some (r, s)) :
    ∃ k x y, group.affine (k • group.generator) = some (x, y) ∧
      SignedWith group dA_ e r s k x := by
  induction nonces generalizing r₀ s₀ with
  | nil => cases returned
  | cons k rest ih =>
      have later : ∀ j ∈ rest, j < group.order := fun j member =>
        range j (List.mem_cons_of_mem k member)
      have small := range k List.mem_cons_self
      rw [signLoop] at returned
      split at returned
      · exact ih _ _ later returned
      · rename_i used
        obtain ⟨x, y, found⟩ := affine_of_nonce group k (by omega) small
        rw [found] at returned
        simp only at returned
        split at returned
        · exact ih _ _ later returned
        · split at returned
          · exact ih _ _ later returned
          · rename_i _ usable
            obtain ⟨r_nonzero, sum_nonzero⟩ := not_or.mp usable
            by_cases stuck : (dA_ + 1) % group.order = 0
            · rw [stuck, modInverse_zero prime] at returned
              simp only [Option.some.injEq, Prod.mk.injEq] at returned
              obtain ⟨rfl, rfl⟩ := returned
              exact ⟨k, x, y, found, rfl, r_nonzero, sum_nonzero, fun _ => rfl,
                fun free => absurd stuck free⟩
            · obtain ⟨inverse, solved, inverted⟩ :=
                modInverse_nonzero prime _ (Nat.mod_lt _ prime.pos) stuck
              rw [solved] at returned
              simp only at returned
              split at returned
              · exact ih _ _ later returned
              · rename_i s_nonzero
                simp only [Option.some.injEq, Prod.mk.injEq] at returned
                obtain ⟨rfl, rfl⟩ := returned
                refine ⟨k, x, y, found, rfl, r_nonzero, sum_nonzero,
                  fun free => absurd free stuck, fun _ => ⟨s_nonzero, Nat.mod_lt _ prime.pos, ?_⟩⟩
                exact signing_equation dA_ _ k inverse prime.pos inverted

/-- The key an object holds after `From` or `NewRandom` returned true. -/
def Holds (group : EcGroup) (key : EccSm2 group) : Prop :=
  (∃ (old : EccSm2 group) (skey_bin : Bytes), key = old.ofBytes skey_bin ∧ key.valid_ = true) ∨
    ∃ draws : List Nat, EccSm2.newRandom draws = some key

/-- A key that was made: its point is its multiple of the generator. -/
structure Made (key : EccSm2 group) : Prop where
  valid : key.valid_ = true
  multiple : key.pkey_ = key.dA_ • group.generator
  finite : ∃ x y, group.affine key.pkey_ = some (x, y)

theorem ofBytes_made (old : EccSm2 group) (skey_bin : Bytes)
    (accepted : (old.ofBytes skey_bin).valid_ = true) : Made (old.ofBytes skey_bin) := by
  unfold EccSm2.ofBytes at accepted ⊢
  simp only at accepted ⊢
  split at accepted
  · cases accepted
  · split at accepted
    · cases accepted
    · rename_i other _ coordinates found
      rw [if_neg other]
      exact ⟨rfl, rfl, coordinates.1, coordinates.2, found⟩

theorem newRandom_made (draws : List Nat) (key : EccSm2 group)
    (returned : EccSm2.newRandom draws = some key) : Made key := by
  induction draws with
  | nil => cases returned
  | cons dA_ rest ih =>
      rw [EccSm2.newRandom] at returned
      split at returned
      · exact ih returned
      · split at returned
        · exact ih returned
        · rename_i x y found
          split at returned
          · exact ih returned
          · obtain rfl := Option.some.inj returned
            exact ⟨rfl, rfl, x, y, found⟩

theorem made_of_holds (key : EccSm2 group) (held : Holds group key) : Made key := by
  rcases held with ⟨old, skey_bin, rfl, accepted⟩ | ⟨draws, returned⟩
  · exact ofBytes_made old skey_bin accepted
  · exact newRandom_made draws key returned

/-! What `verify` reads back of the two texts. -/

theorem publicKey_read (key : EccSm2 group) (made : Made key) :
    ∃ x y, key.getPublicKey = 4 :: (BigEndian.padded 32 x ++ BigEndian.padded 32 y) ∧
      (BigEndian.padded 32 x).length = 32 ∧ (BigEndian.padded 32 y).length = 32 ∧
      group.ofAffine x y = some key.pkey_ := by
  obtain ⟨x, y, found⟩ := made.finite
  obtain ⟨x_small, y_small⟩ := group.affine_small _ _ _ found
  refine ⟨x, y, ?_, BigEndian.padded_length 32 x x_small, BigEndian.padded_length 32 y y_small,
    group.ofAffine_affine _ _ _ found⟩
  simp [EccSm2.getPublicKey, made.valid, found, bn2FixedString_padded _ 32 x_small,
    bn2FixedString_padded _ 32 y_small]

/-- A key of 65 bytes is split into its two coordinates, whatever its first byte. -/
theorem splitKey_coordinates (form : UInt8) (px py : Bytes) (px_length : px.length = 32)
    (py_length : py.length = 32) : splitKey (form :: (px ++ py)) = some (px, py) := by
  have size : (form :: (px ++ py)).length = 65 := by simp [px_length, py_length]
  have whole : form :: (px ++ py) = [form] ++ (px ++ py) := rfl
  have first : Strings.substr (form :: (px ++ py)) 1 32 = some px :=
    Strings.substr_eq whole (by simp) (by simp [px_length])
  have behind : form :: (px ++ py) = (form :: px) ++ (py ++ []) := by simp
  have second : Strings.substr (form :: (px ++ py)) (1 + 32) 32 = some py :=
    Strings.substr_eq behind (by simp [px_length]) (by simp [py_length])
  have half : (65 + (2 ^ 64 - 1)) % 2 ^ 64 / 2 = 32 := by norm_num
  have len : (Int32.ofNat 32).toInt = 32 := by decide
  rw [splitKey, size, half, len]
  simp only [first, Option.bind_eq_bind, Option.bind_some]
  rw [if_neg (by norm_num), second]
  rfl

/-- `verify` on an exported key and a signature of two 32-byte numbers. -/
theorem verify_exported_key (key : EccSm2 group) (made : Made key) (id msg : Bytes) (r s : Nat)
    (r_small : r < 256 ^ 32) (s_small : s < 256 ^ 32) :
    verify group sm3 key.getPublicKey id msg (bn2FixedString r 32 ++ bn2FixedString s 32) =
      if r = 0 ∨ group.order ≤ r ∨ s = 0 ∨ group.order ≤ s then some 0
      else if (r + s) % group.order = 0 then some 0
      else
        match group.affine
          (s • group.generator + ((r + s) % group.order) • key.pkey_) with
        | none => some (-1)
        | some (x1, _) =>
            if (x1 % group.order + messageDigest group sm3 id msg key.pkey_) % group.order = r then
              some 1
            else some 0 := by
  obtain ⟨x, y, exported, x_length, y_length, point⟩ := publicKey_read key made
  have r_length := BigEndian.padded_length 32 r r_small
  have s_length := BigEndian.padded_length 32 s s_small
  rw [bn2FixedString_padded r 32 r_small, bn2FixedString_padded s 32 s_small, exported]
  have half : (BigEndian.padded 32 r ++ BigEndian.padded 32 s).length / 2 = 32 := by
    simp [r_length, s_length]
  have coordinates := splitKey_coordinates 4 _ _ x_length y_length
  have r_half : (BigEndian.padded 32 r ++ BigEndian.padded 32 s).take 32 = BigEndian.padded 32 r :=
    List.take_left' r_length
  have s_half : (BigEndian.padded 32 r ++ BigEndian.padded 32 s).drop 32 = BigEndian.padded 32 s :=
    List.drop_left' r_length
  rw [verify, coordinates]
  simp only [half, r_half, s_half, List.take_of_length_le s_length.le, BigEndian.decode_padded,
    point, Option.getD_some]

/-- The point `verify` computes is the nonce's. -/
theorem recovered_point (dA_ e r s k x : Nat)
    (signed : SignedWith group dA_ e r s k x) (invertible : (dA_ + 1) % group.order ≠ 0) :
    s • group.generator + ((r + s) % group.order) • (dA_ • group.generator) =
      k • group.generator := by
  have killed := generator_killed group
  obtain ⟨_, _, equation⟩ := signed.equation invertible
  apply Scalars.combined killed
  rw [ZMod.natCast_mod, Nat.cast_add]
  calc (s : ZMod group.order) + (r + s) * dA_ = s * (dA_ + 1) + r * dA_ := by ring
    _ = k := by rw [equation]; ring

/-- `r + s` is `(r + k) / (1 + d)`, which the loop has kept from being zero. -/
theorem sum_not_zero (prime : group.order.Prime) (dA_ e r s k x : Nat)
    (signed : SignedWith group dA_ e r s k x) (invertible : (dA_ + 1) % group.order ≠ 0) :
    (r + s) % group.order ≠ 0 := by
  have := Fact.mk prime
  obtain ⟨_, _, equation⟩ := signed.equation invertible
  intro zero
  have cancelled : (r : ZMod group.order) + s = 0 := by
    rw [← Nat.cast_add, ZMod.natCast_eq_zero_iff]
    exact Nat.dvd_of_mod_eq_zero zero
  have product : ((r : ZMod group.order) + s) * (dA_ + 1) = r + k := by
    calc ((r : ZMod group.order) + s) * (dA_ + 1) = r * dA_ + r + s * (dA_ + 1) := by ring
      _ = r + k := by rw [equation]; ring
  apply signed.sum_nonzero
  apply Nat.mod_eq_zero_of_dvd
  rw [← ZMod.natCast_eq_zero_iff, Nat.cast_add, ← product, cancelled, zero_mul]

/-- A key made by `From` or `NewRandom` verifies what it signs exactly when `1 + d`
has an inverse; the key `d = n - 1`, which neither refuses, never does. -/
theorem sm2_verifies_iff (prime : group.order.Prime) (key : EccSm2 group)
    (held : Holds group key) (id msg signature : Bytes) (nonces : List Nat)
    (range : ∀ k ∈ nonces, k < group.order)
    (returned : key.sign sm3 id msg nonces = some signature) :
    verify group sm3 key.getPublicKey id msg signature = some 1 ↔
      (key.dA_ + 1) % group.order ≠ 0 := by
  have made := made_of_holds key held
  simp only [EccSm2.sign, made.valid, Bool.not_true, Bool.false_eq_true, if_false,
    Option.map_eq_some_iff] at returned
  obtain ⟨⟨r, s⟩, exited, rfl⟩ := returned
  obtain ⟨k, x, y, found, signed⟩ := signLoop_exit prime _ _ 0 0 r s nonces range exited
  have r_small : r < group.order := by
    rw [signed.r_value]
    exact Nat.mod_lt _ prime.pos
  have order_small := group.order_small
  by_cases stuck : (key.dA_ + 1) % group.order = 0
  · obtain rfl := signed.no_inverse stuck
    rw [verify_exported_key sm3 key made id msg r 0 (by omega) (by decide), if_pos (by simp)]
    simp [stuck]
  · obtain ⟨s_nonzero, s_small, _⟩ := signed.equation stuck
    have in_range : ¬ (r = 0 ∨ group.order ≤ r ∨ s = 0 ∨ group.order ≤ s) := by
      have r_nonzero := signed.r_nonzero
      omega
    rw [verify_exported_key sm3 key made id msg r s (by omega) (by omega), if_neg in_range,
      if_neg (sum_not_zero prime _ _ r s k x signed stuck), made.multiple,
      recovered_point _ _ r s k x signed stuck, found]
    have same := signed.r_value
    rw [made.multiple] at same
    simp [← same, stuck]

/-- The seven multiples of a point, each its own coordinates. -/
def sevenPoints : EcGroup where
  Point := ZMod 7
  order := 7
  generator := 1
  curve_a := 0
  curve_b := 0
  affine := fun point => if point = 0 then none else some (point.val, point.val)
  ofAffine := fun x _ => some (x : ZMod 7)
  multiple_zero := by
    intro k
    rw [nsmul_one, ZMod.natCast_eq_zero_iff]
  affine_infinity := by simp
  affine_small := by
    intro point x y found
    have bound := ZMod.val_lt point
    split at found
    · cases found
    · simp only [Option.some.injEq, Prod.mk.injEq] at found
      omega
  ofAffine_affine := by
    intro point x y found
    split at found
    · cases found
    · simp only [Option.some.injEq, Prod.mk.injEq] at found
      rw [← found.1, ZMod.natCast_zmod_val]
  order_small := by decide

def zeroHash : Bytes → Digest := zeroLib.sha256

def twoKey : EccSm2 sevenPoints := ⟨2, (2 : ZMod 7), true⟩

theorem sm2_verifies_iff_applies :
    verify sevenPoints zeroHash twoKey.getPublicKey [] [] (bn2FixedString 3 32 ++ bn2FixedString 6 32) =
      some 1 := by
  have held : Holds sevenPoints twoKey := by
    refine Or.inl ⟨⟨0, (0 : ZMod 7), false⟩, [2], ?_, rfl⟩
    rfl
  apply (sm2_verifies_iff zeroHash (by decide : Nat.Prime 7) twoKey held [] [] _ [3] (by decide)
    ?_).mpr (by decide)
  decide +kernel

/-! The numbers of `GetCFCAGroup`. -/

def cfcaPrime : Nat := 0xFFFFFFFEFFFFFFFFFFFFFFFFFFFFFFFFFFFFFFFF00000000FFFFFFFFFFFFFFFF
def cfcaA : Nat := 0xFFFFFFFEFFFFFFFFFFFFFFFFFFFFFFFFFFFFFFFF00000000FFFFFFFFFFFFFFFC
def cfcaB : Nat := 0x28E9FA9E9D9F5E344D5A9E4BCF6509A7F39789F515AB8F92DDBCBD414D940E93
def cfcaXG : Nat := 0x32C4AE2C1F1981195F9904466A39C9948FE30BBFF2660BE1715A4589334C74C7
def cfcaYG : Nat := 0xBC3736A2F4F6779C59BDCEE36B692153D0A9877CC62A474002DF32E52139F0A0
def cfcaOrder : Nat := 0xFFFFFFFEFFFFFFFFFFFFFFFFFFFFFFFF7203DF6B21C6052B53BBF40939D54123

instance : NeZero cfcaOrder := ⟨by decide⟩

/-- The multiples of the generator by their factor, with the coordinates of the
generator and of its opposite. -/
def cfcaMultiples : EcGroup where
  Point := ZMod cfcaOrder
  order := cfcaOrder
  generator := 1
  curve_a := cfcaA
  curve_b := cfcaB
  affine := fun point =>
    if point = 0 then none
    else if point = 1 then some (cfcaXG, cfcaYG)
    else if point = -1 then some (cfcaXG, cfcaPrime - cfcaYG)
    else some (point.val, point.val)
  ofAffine := fun x y =>
    if x = cfcaXG ∧ y = cfcaYG then some 1
    else if x = cfcaXG ∧ y = cfcaPrime - cfcaYG then some (-1)
    else some (x : ZMod cfcaOrder)
  multiple_zero := by
    intro k
    rw [nsmul_one, ZMod.natCast_eq_zero_iff]
  affine_infinity := by
    intro point
    split_ifs <;> simp_all
  affine_small := by
    intro point x y found
    have bound := ZMod.val_lt point
    have order_small : cfcaOrder < 256 ^ 32 := by decide
    split_ifs at found <;> simp only [Option.some.injEq, Prod.mk.injEq] at found
    · rw [← found.1, ← found.2]
      decide
    · rw [← found.1, ← found.2]
      decide
    · omega
  ofAffine_affine := by
    intro point x y found
    split_ifs at found with _ one opposite <;>
      simp only [Option.some.injEq, Prod.mk.injEq] at found
    · simp [← found.1, ← found.2, one]
    · have apart : cfcaPrime - cfcaYG ≠ cfcaYG := by decide
      simp [← found.1, ← found.2, opposite, apart]
    · -- equal coordinates are neither of the two points above
      have first : cfcaXG ≠ cfcaYG := by decide
      have second : cfcaXG ≠ cfcaPrime - cfcaYG := by decide
      rw [if_neg (by omega), if_neg (by omega), ← found.1, ZMod.natCast_zmod_val]
  order_small := by decide

/-- `From` on the bytes of `n - 1`. -/
def lastKey : EccSm2 cfcaMultiples :=
  (⟨0, (0 : ZMod cfcaOrder), false⟩ : EccSm2 cfcaMultiples).ofBytes
    (BigEndian.shortest (cfcaOrder - 1))

theorem lastKey_made : Made lastKey ∧ lastKey.dA_ = cfcaOrder - 1 := by
  have opposite : (cfcaOrder - 1) • (1 : ZMod cfcaOrder) = -1 := by
    rw [nsmul_one, Nat.cast_sub (by decide), ZMod.natCast_self, Nat.cast_one, zero_sub]
  have distinct : (-1 : ZMod cfcaOrder) ≠ 0 ∧ (-1 : ZMod cfcaOrder) ≠ 1 := by
    decide +kernel
  have coordinates : cfcaMultiples.affine ((cfcaOrder - 1) • cfcaMultiples.generator) =
      some (cfcaXG, cfcaPrime - cfcaYG) := by
    change cfcaMultiples.affine ((cfcaOrder - 1) • (1 : ZMod cfcaOrder)) = _
    rw [opposite]
    simp [cfcaMultiples, distinct]
  have imported : lastKey = ⟨cfcaOrder - 1, (cfcaOrder - 1) • cfcaMultiples.generator, true⟩ := by
    rw [lastKey, EccSm2.ofBytes]
    simp only [BigEndian.decode_shortest]
    rw [if_neg (by decide : cfcaOrder - 1 ≠ cfcaMultiples.order), coordinates]
  rw [imported]
  exact ⟨⟨rfl, rfl, _, _, coordinates⟩, rfl⟩

theorem last_key_not_verified :
    Holds cfcaMultiples lastKey ∧
      lastKey.sign zeroHash [] [0x61] [1] = some (bn2FixedString cfcaXG 32 ++ bn2FixedString 0 32) ∧
      verify cfcaMultiples zeroHash lastKey.getPublicKey [] [0x61]
        (bn2FixedString cfcaXG 32 ++ bn2FixedString 0 32) = some 0 := by
  obtain ⟨made, last⟩ := lastKey_made
  refine ⟨Or.inl ⟨_, _, rfl, made.valid⟩, ?_, ?_⟩
  · have digest : messageDigest cfcaMultiples zeroHash [] [0x61] lastKey.pkey_ = 0 := by
      have zeros := BigEndian.decode_zeros 32 []
      rw [List.append_nil] at zeros
      exact zeros
    have stuck : signLoop cfcaMultiples (cfcaOrder - 1) 0 0 0 [1] = some (cfcaXG, 0) := by
      decide +kernel
    rw [EccSm2.sign, made.valid, digest, last, stuck]
    rfl
  · rw [verify_exported_key zeroHash lastKey made [] [0x61] cfcaXG 0 (by decide) (by decide),
      if_pos (by simp)]

end EChainLib.Keys
