import EChainLib.Keys.Sm2

/-! The texts of SM2: which strings `From` takes for a private key and what an object gives
back of it, and which strings `verify` takes for a public key and a signature. -/

namespace EChainLib.Keys

/-! Private keys. -/

section PrivateKeys

variable {group : EcGroup}

/-- `EccSm2::getSkeyBin`. -/
def EccSm2.getSkeyBin (key : EccSm2 group) : Bytes := bn2FixedString key.dA_ 32

/-- An object that has no key yet. -/
def EccSm2.fresh : EccSm2 group := ⟨0, 0, false⟩

variable (group) in
/-- 32 bytes with a number from 1 to `n - 2`. -/
structure PrivateText (b : Bytes) : Prop where
  length : b.length = 32
  lower : 1 ≤ BigEndian.decode b
  upper : BigEndian.decode b ≤ group.order - 2

/-- What the object gives out of the key `b`, and that a fresh object takes it back. -/
structure Exported (key : EccSm2 group) (b : Bytes) : Prop where
  again : (EccSm2.fresh.ofBytes key.getSkeyBin : EccSm2 group).valid_ = true
  same_number : (EccSm2.fresh.ofBytes key.getSkeyBin : EccSm2 group).dA_ = key.dA_
  same_public : (EccSm2.fresh.ofBytes key.getSkeyBin : EccSm2 group).getPublicKey =
    key.getPublicKey
  point : ∃ x y, group.affine (key.dA_ • group.generator) = some (x, y) ∧
    key.getPublicKey = 4 :: (BigEndian.padded 32 x ++ BigEndian.padded 32 y)
  length : key.getPublicKey.length = 65
  skey : key.getSkeyBin = b

structure ImportsFaithfully (old : EccSm2 group) (b : Bytes) : Prop where
  accepts : (old.ofBytes b).valid_ = true ↔ PrivateText group b
  exports : (old.ofBytes b).valid_ = true → Exported (old.ofBytes b) b

/-- Only a multiple of the order is refused. -/
theorem ofBytes_valid_iff (old : EccSm2 group) (b : Bytes) :
    (old.ofBytes b).valid_ = true ↔ ¬ group.order ∣ BigEndian.decode b := by
  rw [← group.multiple_zero, ← group.affine_infinity]
  unfold EccSm2.ofBytes
  by_cases same : BigEndian.decode b = group.order
  · have infinite := (group.affine_infinity _).mpr (generator_killed group)
    simp [same, infinite]
  · cases found : group.affine (BigEndian.decode b • group.generator) with
    | none => simp [same, found]
    | some coordinates => simp [same, found]

theorem ofBytes_number (old : EccSm2 group) (b : Bytes) :
    (old.ofBytes b).dA_ = BigEndian.decode b := by
  simp only [EccSm2.ofBytes]
  split_ifs
  · rfl
  · split <;> rfl

theorem not_dvd_of_private (b : Bytes) (text : PrivateText group b) :
    ¬ group.order ∣ BigEndian.decode b := by
  have lower := text.lower
  have upper := text.upper
  exact Nat.not_dvd_of_pos_of_lt lower (by omega)

/-- What is exported depends on the number alone. -/
theorem getPublicKey_of_made (key key' : EccSm2 group) (made : Made key) (made' : Made key')
    (same : key.dA_ = key'.dA_) : key.getPublicKey = key'.getPublicKey := by
  rw [EccSm2.getPublicKey, EccSm2.getPublicKey, made.valid, made'.valid, made.multiple,
    made'.multiple, same]

theorem exported_of_private (old : EccSm2 group) (b : Bytes) (text : PrivateText group b) :
    Exported (old.ofBytes b) b := by
  have accepted := (ofBytes_valid_iff old b).mpr (not_dvd_of_private b text)
  have made := ofBytes_made old b accepted
  have skey : (old.ofBytes b).getSkeyBin = b := by
    have fits := BigEndian.decode_lt b
    rw [text.length] at fits
    rw [EccSm2.getSkeyBin, ofBytes_number, bn2FixedString_padded _ 32 fits, ← text.length,
      BigEndian.padded_decode]
  have again : (EccSm2.fresh.ofBytes b : EccSm2 group).valid_ = true :=
    (ofBytes_valid_iff EccSm2.fresh b).mpr (not_dvd_of_private b text)
  have numbers : (EccSm2.fresh.ofBytes b : EccSm2 group).dA_ = (old.ofBytes b).dA_ := by
    rw [ofBytes_number, ofBytes_number]
  obtain ⟨x, y, found⟩ := made.finite
  obtain ⟨x_small, y_small⟩ := group.affine_small _ _ _ found
  have exported : (old.ofBytes b).getPublicKey =
      4 :: (BigEndian.padded 32 x ++ BigEndian.padded 32 y) := by
    simp [EccSm2.getPublicKey, made.valid, found, bn2FixedString_padded _ 32 x_small,
      bn2FixedString_padded _ 32 y_small]
  refine ⟨?_, ?_, ?_, ⟨x, y, ?_, exported⟩, ?_, skey⟩
  · rw [skey]
    exact again
  · rw [skey]
    exact numbers
  · rw [skey]
    exact getPublicKey_of_made _ _ (ofBytes_made _ b again) made numbers
  · rw [← made.multiple]
    exact found
  · rw [exported]
    simp [BigEndian.padded_length 32 x x_small, BigEndian.padded_length 32 y y_small]

/-- `From` follows the rule for private keys on the ones that meet it, and on the multiples of
the order, which it refuses; it takes every other string. -/
theorem imports_faithfully_iff (old : EccSm2 group) (b : Bytes) :
    ImportsFaithfully old b ↔ PrivateText group b ∨ group.order ∣ BigEndian.decode b := by
  constructor
  · intro faithful
    by_cases refused : group.order ∣ BigEndian.decode b
    · exact .inr refused
    · exact .inl (faithful.accepts.mp ((ofBytes_valid_iff old b).mpr refused))
  · rintro (text | refused)
    · have accepted := (ofBytes_valid_iff old b).mpr (not_dvd_of_private b text)
      exact ⟨iff_of_true accepted text, fun _ => exported_of_private old b text⟩
    · have not_valid := (ofBytes_valid_iff old b).not.mpr (not_not.mpr refused)
      exact ⟨iff_of_false not_valid fun text => not_dvd_of_private b text refused,
        fun accepted => absurd accepted not_valid⟩

/-- `From` takes `n - 1`, and takes the one byte 1. -/
theorem last_key_imported :
    (EccSm2.fresh.ofBytes (BigEndian.padded 32 (cfcaOrder - 1)) :
        EccSm2 cfcaMultiples).valid_ = true ∧
      (EccSm2.fresh.ofBytes [1] : EccSm2 cfcaMultiples).valid_ = true ∧
      ¬ ImportsFaithfully (EccSm2.fresh : EccSm2 cfcaMultiples)
        (BigEndian.padded 32 (cfcaOrder - 1)) := by
  have last : ¬ cfcaMultiples.order ∣ BigEndian.decode (BigEndian.padded 32 (cfcaOrder - 1)) := by
    rw [BigEndian.decode_padded]
    exact Nat.not_dvd_of_pos_of_lt (by decide) (by decide)
  have one : ¬ cfcaMultiples.order ∣ BigEndian.decode [1] :=
    Nat.not_dvd_of_pos_of_lt (by decide) (by decide)
  have accepted := (ofBytes_valid_iff (EccSm2.fresh : EccSm2 cfcaMultiples) _).mpr last
  refine ⟨accepted, (ofBytes_valid_iff _ _).mpr one, fun faithful => ?_⟩
  have upper := (faithful.accepts.mp accepted).upper
  rw [BigEndian.decode_padded] at upper
  exact absurd upper (by decide)

end PrivateKeys

/-! Public keys and signatures. -/

section Signatures

variable (group : EcGroup) (sm3 : Bytes → Digest)

/-- `04 || x || y` of a finite point. -/
def KeyText (pkey : Bytes) (point : group.Point) : Prop :=
  ∃ px py, px.length = 32 ∧ py.length = 32 ∧ pkey = 4 :: (px ++ py) ∧
    group.affine point = some (BigEndian.decode px, BigEndian.decode py)

/-- `r || s`. -/
def SignatureText (strsig : Bytes) (r s : Nat) : Prop :=
  ∃ sigr sigs, sigr.length = 32 ∧ sigs.length = 32 ∧ strsig = sigr ++ sigs ∧
    r = BigEndian.decode sigr ∧ s = BigEndian.decode sigs

/-- `(r, s)` answers the digest `e` under a public key. -/
structure Answers (point : group.Point) (e r s : Nat) : Prop where
  r_positive : 1 ≤ r
  r_small : r < group.order
  s_positive : 1 ≤ s
  s_small : s < group.order
  sum : (r + s) % group.order ≠ 0
  equation : ∃ x1 y1, group.affine (s • group.generator + (r + s) • point) = some (x1, y1) ∧
    r = (e + x1) % group.order

/-- `verify` returns, and with 1 on the proper texts of a key and of its signature alone. -/
structure AcceptsExactly (pkey id msg strsig : Bytes) : Prop where
  returns : verify group sm3 pkey id msg strsig ≠ none
  accepts : verify group sm3 pkey id msg strsig = some 1 ↔
    ∃ point r s, KeyText group pkey point ∧ SignatureText strsig r s ∧
      Answers group point (messageDigest group sm3 id msg point) r s

/-! What is read of any two texts. -/

/-- `pub_key` with the coordinates `xp` and `yp`: the point at infinity if they are refused. -/
def readPoint (px py : Bytes) : group.Point :=
  (group.ofAffine (BigEndian.decode px) (BigEndian.decode py)).getD 0

def readR (strsig : Bytes) : Nat := BigEndian.decode (strsig.take (strsig.length / 2))

def readS (strsig : Bytes) : Nat :=
  BigEndian.decode ((strsig.drop (strsig.length / 2)).take (strsig.length / 2))

/-- The key can be split, and the texts are proper ones or what is read of them is no answer. -/
def ReadExactly (pkey id msg strsig : Bytes) : Prop :=
  ∃ px py, splitKey pkey = some (px, py) ∧
    (((∃ point, KeyText group pkey point) ∧ strsig.length = 64) ∨
      ¬ Answers group (readPoint group px py)
        (messageDigest group sm3 id msg (readPoint group px py)) (readR strsig) (readS strsig))

variable {group}

theorem splitKey_of_text {pkey : Bytes} {point : group.Point} (text : KeyText group pkey point) :
    ∃ px py, splitKey pkey = some (px, py) ∧ readPoint group px py = point := by
  obtain ⟨px, py, px_length, py_length, rfl, found⟩ := text
  refine ⟨px, py, splitKey_coordinates 4 px py px_length py_length, ?_⟩
  rw [readPoint, group.ofAffine_affine _ _ _ found, Option.getD_some]

theorem signature_read {strsig : Bytes} {r s : Nat} (text : SignatureText strsig r s) :
    readR strsig = r ∧ readS strsig = s := by
  obtain ⟨sigr, sigs, r_length, s_length, rfl, rfl, rfl⟩ := text
  have half : (sigr ++ sigs).length / 2 = 32 := by
    rw [List.length_append, r_length, s_length]
  rw [readR, readS, half, List.take_left' r_length, List.drop_left' r_length,
    List.take_of_length_le s_length.le]
  exact ⟨rfl, rfl⟩

theorem signature_of_length {strsig : Bytes} (length : strsig.length = 64) :
    SignatureText strsig (readR strsig) (readS strsig) := by
  refine ⟨strsig.take 32, strsig.drop 32, by simp [length], by simp [length], by simp, ?_, ?_⟩
  · simp [readR, length]
  · rw [readS, length, List.take_of_length_le (by simp [length])]

section Killed

variable (killed : ∀ point : group.Point, group.order • point = 0)

include killed

/-- On a key that can be split `verify` gives 1 exactly on the answers. -/
theorem verify_eq_one_iff {pkey px py : Bytes} (split : splitKey pkey = some (px, py))
    (id msg strsig : Bytes) :
    verify group sm3 pkey id msg strsig = some 1 ↔
      Answers group (readPoint group px py)
        (messageDigest group sm3 id msg (readPoint group px py)) (readR strsig)
        (readS strsig) := by
  rw [verify, split, readPoint, readR, readS]
  dsimp only
  -- from here on the four things that are read are any values
  generalize (group.ofAffine (BigEndian.decode px) (BigEndian.decode py)).getD 0 = point
  generalize messageDigest group sm3 id msg point = e
  generalize BigEndian.decode (strsig.take (strsig.length / 2)) = r
  generalize BigEndian.decode ((strsig.drop (strsig.length / 2)).take (strsig.length / 2)) = s
  have multiple := Scalars.nsmul_mod (killed point) (r + s)
  by_cases outside : r = 0 ∨ group.order ≤ r ∨ s = 0 ∨ group.order ≤ s
  · rw [if_pos outside]
    refine iff_of_false (by decide) fun answers => ?_
    obtain ⟨r_positive, r_small, s_positive, s_small, -, -⟩ := answers
    omega
  · rw [if_neg outside]
    by_cases zero : (r + s) % group.order = 0
    · rw [if_pos zero]
      exact iff_of_false (by decide) fun answers => answers.sum zero
    · rw [if_neg zero, multiple]
      have answers_iff : Answers group point e r s ↔
          ∃ x1 y1, group.affine (s • group.generator + (r + s) • point) = some (x1, y1) ∧
            r = (e + x1) % group.order := by
        constructor
        · exact fun answers => answers.equation
        · intro equation
          exact ⟨by omega, by omega, by omega, by omega, zero, equation⟩
      -- only the equation is left, and the sum in it is taken the other way round
      rw [answers_iff]
      cases found : group.affine (s • group.generator + (r + s) • point) with
      | none => simp
      | some coordinates =>
          obtain ⟨x1, y1⟩ := coordinates
          have swapped : (x1 % group.order + e) % group.order = (e + x1) % group.order := by
            rw [Nat.mod_add_mod, Nat.add_comm]
          simp only [swapped]
          split_ifs with same
          · simp [same]
          · simp [Ne.symm same]

/-- `verify` accepts the well-formed valid signatures alone exactly where it does not read an
answer out of other texts, and its key is one that it can split. -/
theorem sm2_reads_exactly_iff (pkey id msg strsig : Bytes) :
    AcceptsExactly group sm3 pkey id msg strsig ↔ ReadExactly group sm3 pkey id msg strsig := by
  constructor
  · intro exactly
    cases split : splitKey pkey with
    | none =>
        have thrown : verify group sm3 pkey id msg strsig = none := by rw [verify, split]
        exact absurd thrown exactly.returns
    | some coordinates =>
        obtain ⟨px, py⟩ := coordinates
        refine ⟨px, py, split, ?_⟩
        by_cases answers : Answers group (readPoint group px py)
            (messageDigest group sm3 id msg (readPoint group px py)) (readR strsig)
            (readS strsig)
        -- an answer is accepted, so that says the texts are proper
        · have accepted := (verify_eq_one_iff sm3 killed split id msg strsig).mpr answers
          obtain ⟨point, r, s, key_text, ⟨sigr, sigs, r_length, s_length, rfl, -, -⟩, -⟩ :=
            exactly.accepts.mp accepted
          exact .inl ⟨⟨point, key_text⟩, by rw [List.length_append, r_length, s_length]⟩
        · exact .inr answers
  · rintro ⟨px, py, split, readable⟩
    have accepted_iff := verify_eq_one_iff sm3 killed split id msg strsig
    have returns : verify group sm3 pkey id msg strsig ≠ none := by
      rw [verify, split]
      dsimp only
      split_ifs
      · exact Option.some_ne_none _
      · exact Option.some_ne_none _
      · split
        · exact Option.some_ne_none _
        · split_ifs <;> exact Option.some_ne_none _
    refine ⟨returns, accepted_iff.trans ⟨fun answers => ?_, ?_⟩⟩
    · rcases readable with ⟨⟨point, key_text⟩, length⟩ | no_answer
      · obtain ⟨px', py', split', same⟩ := splitKey_of_text key_text
        rw [split, Option.some.injEq, Prod.mk.injEq] at split'
        obtain ⟨rfl, rfl⟩ := split'
        exact ⟨point, _, _, key_text, signature_of_length length, same ▸ answers⟩
      · exact absurd answers no_answer
    · rintro ⟨point, r, s, key_text, signature_text, answers⟩
      obtain ⟨px', py', split', same⟩ := splitKey_of_text key_text
      rw [split, Option.some.injEq, Prod.mk.injEq] at split'
      obtain ⟨rfl, rfl⟩ := split'
      obtain ⟨rfl, rfl⟩ := signature_read signature_text
      exact same ▸ answers

end Killed

end Signatures

/-! A key text of one byte, whose signature everybody can make. -/

theorem val_between (point : ZMod cfcaOrder) (finite : point ≠ 0) (not_one : point ≠ 1)
    (not_last : point ≠ -1) : 1 < point.val ∧ point.val < cfcaOrder - 1 := by
  have bound := ZMod.val_lt point
  have back := ZMod.natCast_zmod_val point
  have not_zero : point.val ≠ 0 := fun zero => finite ((ZMod.val_eq_zero point).mp zero)
  have above : point.val ≠ 1 := fun one => not_one (by rw [← back, one, Nat.cast_one])
  have below : point.val ≠ cfcaOrder - 1 := fun last => by
    apply not_last
    rw [← back, last, Nat.cast_sub (by decide), ZMod.natCast_self, Nat.cast_one, zero_sub]
  omega

/-- The multiples of the generator again, where coordinates of none of them are refused. -/
def cfcaPoints : EcGroup := { cfcaMultiples with
  ofAffine := fun x y =>
    if x = cfcaXG ∧ y = cfcaYG then some (1 : ZMod cfcaOrder)
    else if x = cfcaXG ∧ y = cfcaPrime - cfcaYG then some (-1 : ZMod cfcaOrder)
    else if x = y ∧ 1 < x ∧ x < cfcaOrder - 1 then some (x : ZMod cfcaOrder)
    else none
  ofAffine_affine := by
    intro (point : ZMod cfcaOrder) x y found
    have apart : cfcaPrime - cfcaYG ≠ cfcaYG := by decide
    have first : cfcaXG ≠ cfcaYG := by decide
    have second : cfcaXG ≠ cfcaPrime - cfcaYG := by decide
    have read : (if point = 0 then none
      else if point = 1 then some (cfcaXG, cfcaYG)
      else if point = -1 then some (cfcaXG, cfcaPrime - cfcaYG)
      else some (point.val, point.val)) = some (x, y) := found
    split_ifs at read with infinite one last <;>
      simp only [Option.some.injEq, Prod.mk.injEq] at read
    · simp [← read.1, ← read.2, one]
    · simp [← read.1, ← read.2, last, apart]
    · obtain ⟨above, below⟩ := val_between point infinite one last
      rw [if_neg (by omega), if_neg (by omega), if_pos (by omega), ← read.1,
        ZMod.natCast_zmod_val] }

theorem cfcaPoints_killed (point : cfcaPoints.Point) : cfcaPoints.order • point = 0 := by
  have zero : ∀ factor : ZMod cfcaOrder, cfcaOrder • factor = 0 := fun factor => by
    rw [nsmul_eq_mul, ZMod.natCast_self, zero_mul]
  exact zero point

theorem splitKey_empty : splitKey [] = none := by
  rw [splitKey]
  rfl

theorem splitKey_form (form : UInt8) : splitKey [form] = some ([], []) := by
  have half : (1 + (2 ^ 64 - 1)) % 2 ^ 64 / 2 = 0 := by norm_num
  have size : [form].length = 1 := rfl
  have len : (Int32.ofNat 0).toInt = 0 := by decide
  rw [splitKey, size, half, len]
  rfl

/-- Under the refused key `04` the text of the generator and 1 is a signature of every message
with this digest. -/
def openSignature : Bytes := BigEndian.padded 32 cfcaXG ++ BigEndian.padded 32 1

theorem openSignature_read : readR openSignature = cfcaXG ∧ readS openSignature = 1 := by
  have r_length := BigEndian.padded_length 32 cfcaXG (by decide)
  have s_length := BigEndian.padded_length 32 1 (by decide)
  exact signature_read ⟨_, _, r_length, s_length, rfl, (BigEndian.decode_padded _ _).symm,
    (BigEndian.decode_padded _ _).symm⟩

theorem openSignature_answers :
    Answers cfcaPoints 0 0 (readR openSignature) (readS openSignature) := by
  obtain ⟨r_read, s_read⟩ := openSignature_read
  rw [r_read, s_read]
  have finite : cfcaPoints.affine (1 • cfcaPoints.generator + (cfcaXG + 1) • 0) =
      some (cfcaXG, cfcaYG) := by
    rw [one_nsmul, nsmul_zero, add_zero]
    rfl
  exact ⟨by decide, by decide, by decide, by decide, by decide, cfcaXG, cfcaYG, finite, by decide⟩

theorem zeroHash_digest (group : EcGroup) (id msg : Bytes) (point : group.Point) :
    messageDigest group zeroHash id msg point = 0 := by
  have zeros := BigEndian.decode_zeros 32 []
  rw [List.append_nil] at zeros
  exact zeros

/-- An empty key makes `verify` throw, and `04` alone lets a signature pass that is made without
a private key. -/
theorem forged_signature_accepted :
    verify cfcaPoints zeroHash [] [] [0x61] openSignature = none ∧
      verify cfcaPoints zeroHash [4] [] [0x61] openSignature = some 1 ∧
      ¬ AcceptsExactly cfcaPoints zeroHash [] [] [0x61] openSignature ∧
      ¬ AcceptsExactly cfcaPoints zeroHash [4] [] [0x61] openSignature := by
  have thrown : verify cfcaPoints zeroHash [] [] [0x61] openSignature = none := by
    rw [verify, splitKey_empty]
  have refused : readPoint cfcaPoints [] [] = 0 := rfl
  have accepted : verify cfcaPoints zeroHash [4] [] [0x61] openSignature = some 1 := by
    rw [verify_eq_one_iff zeroHash cfcaPoints_killed (splitKey_form 4), refused, zeroHash_digest]
    exact openSignature_answers
  refine ⟨thrown, accepted, fun exactly => exactly.returns thrown, fun exactly => ?_⟩
  obtain ⟨point, r, s, ⟨px, py, px_length, py_length, shape, -⟩, -⟩ := exactly.accepts.mp accepted
  have size := congrArg List.length shape
  simp [px_length, py_length] at size

/-- A signature of no bytes is refused, as it should be. -/
theorem empty_signature_refused : AcceptsExactly cfcaPoints zeroHash [4] [] [0x61] [] :=
  (sm2_reads_exactly_iff zeroHash cfcaPoints_killed [4] [] [0x61] []).mpr
    ⟨[], [], splitKey_form 4, .inr fun answers => absurd answers.r_positive (by decide)⟩

end EChainLib.Keys
