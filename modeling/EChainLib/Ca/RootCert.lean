import Mathlib
import EChainLib.Support.Separator
import EChainLib.Ca.EntityCert

/-! `CA::mkRootCode` and `CA::CheckRootCert`. The hashed text has no mark between
the common name and the mail, and a field may hold the secret key itself. -/

namespace EChainLib.Ca

open Keys (Bytes cString binToHexString)
open Separator (Unbordered Shifts)

variable (sha256 : Bytes → Bytes) (lib : OpenSsl)

def getDataSecuretKey : Bytes := "HCPwz!H1Y3jaJ*|qw8K<eo7>Qih)rPq1".toUTF8.data.toList

/-- What `mkRootCode` hashes. -/
def rootCodeSource (rootInfo : StuSubject) (not_before not_after : Bytes) : Bytes :=
  let code_one := getDataSecuretKey
  let code_two := getDataSecuretKey
  code_one ++ rootInfo.CN.val ++ rootInfo.MAIL.val ++ code_two ++ rootInfo.OU.val ++ not_before ++
    not_after

def mkRootCode (rootInfo : StuSubject) (not_before not_after : Bytes) : Bytes :=
  binToHexString (sha256 (rootCodeSource rootInfo not_before not_after))

def getRootCode (x509 : X509 lib.toKeyTypes) (root_ext_len : Nat) : Except Failure Bytes :=
  getExtensionData x509 rootCodeOid root_ext_len

/-- The root code read, where the certificate passes. -/
def checkRootCert (x509 : X509 lib.toKeyTypes) (root_ext_len : Nat) (now : Int) (locals : Locals) :
    Except Failure Bytes :=
  let root_info := readSubject x509.subject .cleared
  match checkCertValidity lib x509 now locals.gmtime locals.tm_not_before locals.tm_not_after with
  | .error failure => .error failure
  | .ok (not_before, not_after) =>
      match getRootCode lib x509 root_ext_len with
      | .error failure => .error failure
      | .ok root_ext_code =>
          if mkRootCode sha256 root_info not_before not_after ≠ root_ext_code then
            .error (.refused ("this root certificate is not match with this version of echain, " ++
              "please contact the echain official!"))
          else .ok root_ext_code

/-- What the root code is meant to bind. -/
structure RootIdentity where
  CN : Bytes
  MAIL : Bytes
  OU : Bytes
  not_before : Bytes
  not_after : Bytes
  deriving DecidableEq

def RootIdentity.of (rootInfo : StuSubject) (not_before not_after : Bytes) : RootIdentity :=
  ⟨rootInfo.CN.val, rootInfo.MAIL.val, rootInfo.OU.val, not_before, not_after⟩

/-- The two texts around the second key. -/
def RootIdentity.around (identity : RootIdentity) : Bytes × Bytes :=
  (identity.CN ++ identity.MAIL, identity.OU)

/-- Same times, and either the common name and the mail trade characters, or the
organisation unit of one holds the key, with the characters behind which the other
starts its own. -/
def Trades (first second : RootIdentity) : Prop :=
  first.not_before = second.not_before ∧ first.not_after = second.not_after ∧
    (first.OU = second.OU ∧ first.CN ++ first.MAIL = second.CN ++ second.MAIL ∧
        first.CN ≠ second.CN ∨
      Shifts getDataSecuretKey first.around second.around ∨
      Shifts getDataSecuretKey second.around first.around)

variable {sha256 lib}

theorem key_unbordered : Unbordered getDataSecuretKey := by decide +kernel

theorem key_nonempty : 0 < getDataSecuretKey.length := by decide +kernel

theorem binToHexString_injective : Function.Injective binToHexString := by
  intro first second same
  rw [← Keys.hexStringToBin_binToHexString first, same, Keys.hexStringToBin_binToHexString]

/-- The parts of the hashed text around the second key. -/
def RootIdentity.hashed (identity : RootIdentity) : Bytes × Bytes :=
  (identity.CN ++ identity.MAIL, identity.OU ++ identity.not_before ++ identity.not_after)

structure RootIdentity.Timed (identity : RootIdentity) : Prop where
  before : identity.not_before.length = 14
  after : identity.not_after.length = 14

theorem times_split (first second : RootIdentity) (start : Bytes) (first_timed : first.Timed)
    (second_timed : second.Timed) :
    first.OU ++ first.not_before ++ first.not_after =
        start ++ (second.OU ++ second.not_before ++ second.not_after) ↔
      first.OU = start ++ second.OU ∧ first.not_before = second.not_before ∧
        first.not_after = second.not_after := by
  constructor
  · intro same
    simp only [← List.append_assoc] at same
    have ends := List.append_inj' same (first_timed.after.trans second_timed.after.symm)
    have begins := List.append_inj' ends.1 (first_timed.before.trans second_timed.before.symm)
    exact ⟨begins.1, begins.2, ends.2⟩
  · rintro ⟨unit, before, after⟩
    rw [unit, before, after]
    simp only [List.append_assoc]

theorem shifts_hashed_iff (first second : RootIdentity) (first_timed : first.Timed)
    (second_timed : second.Timed) :
    Shifts getDataSecuretKey first.hashed second.hashed ↔
      Shifts getDataSecuretKey first.around second.around ∧
        first.not_before = second.not_before ∧ first.not_after = second.not_after := by
  have split := times_split first second
  constructor
  · rintro ⟨middle, front, back⟩
    obtain ⟨unit, before, after⟩ := (split (middle ++ getDataSecuretKey) first_timed second_timed).mp back
    exact ⟨⟨middle, front, unit⟩, before, after⟩
  · rintro ⟨⟨middle, front, unit⟩, before, after⟩
    exact ⟨middle, front,
      (split (middle ++ getDataSecuretKey) first_timed second_timed).mpr ⟨unit, before, after⟩⟩

theorem hashed_eq_iff (first second : RootIdentity) (first_timed : first.Timed)
    (second_timed : second.Timed) :
    first.hashed = second.hashed ↔ first.CN ++ first.MAIL = second.CN ++ second.MAIL ∧
      first.OU = second.OU ∧ first.not_before = second.not_before ∧
        first.not_after = second.not_after := by
  have split := times_split first second [] first_timed second_timed
  rw [List.nil_append, List.nil_append] at split
  rw [RootIdentity.hashed, RootIdentity.hashed, Prod.mk.injEq, split]

theorem identity_eq_iff (first second : RootIdentity) :
    first = second ↔ first.CN = second.CN ∧ first.CN ++ first.MAIL = second.CN ++ second.MAIL ∧
      first.OU = second.OU ∧ first.not_before = second.not_before ∧
        first.not_after = second.not_after := by
  constructor
  · rintro rfl
    exact ⟨rfl, rfl, rfl, rfl, rfl⟩
  · rintro ⟨name, joined, unit, before, after⟩
    rw [name] at joined
    have mail := List.append_cancel_left joined
    cases first
    cases second
    simp_all

theorem rootCodeSource_eq_iff (one two : StuSubject) (begin_one end_one begin_two end_two : Bytes)
    (one_timed : (RootIdentity.of one begin_one end_one).Timed)
    (two_timed : (RootIdentity.of two begin_two end_two).Timed) :
    rootCodeSource one begin_one end_one = rootCodeSource two begin_two end_two ↔
      RootIdentity.of one begin_one end_one = .of two begin_two end_two ∨
        Trades (.of one begin_one end_one) (.of two begin_two end_two) := by
  have parts : ∀ (info : StuSubject) (begins ends : Bytes), rootCodeSource info begins ends =
      getDataSecuretKey ++ ((RootIdentity.of info begins ends).hashed.1 ++ getDataSecuretKey ++
        (RootIdentity.of info begins ends).hashed.2) := by
    intro info begins ends
    simp only [rootCodeSource, RootIdentity.hashed, RootIdentity.of, List.append_assoc]
  rw [parts, parts, List.append_cancel_left_eq,
    Separator.around_mark_iff getDataSecuretKey key_unbordered, shifts_hashed_iff _ _ one_timed two_timed,
    shifts_hashed_iff _ _ two_timed one_timed, hashed_eq_iff _ _ one_timed two_timed,
    identity_eq_iff, Trades]
  generalize RootIdentity.of one begin_one end_one = first
  generalize RootIdentity.of two begin_two end_two = second
  constructor
  · rintro (same | ⟨shifts, before, after⟩ | ⟨shifts, before, after⟩)
    · by_cases names : first.CN = second.CN
      · exact .inl ⟨names, same⟩
      · obtain ⟨joined, unit, before, after⟩ := same
        exact .inr ⟨before, after, .inl ⟨unit, joined, names⟩⟩
    · exact .inr ⟨before, after, .inr (.inl shifts)⟩
    · exact .inr ⟨before.symm, after.symm, .inr (.inr shifts)⟩
  · rintro (⟨_, same⟩ | ⟨before, after, ⟨unit, joined, _⟩ | shifts | shifts⟩)
    · exact .inl same
    · exact .inl ⟨joined, unit, before, after⟩
    · exact .inr (.inl ⟨shifts, before, after⟩)
    · exact .inr (.inr ⟨shifts, before.symm, after.symm⟩)

/-! What the checker reads of a certificate: names up to 127 bytes or a NUL, and times
with the daylight saving its locals hold. -/

def periodText (dst : Int) (t : Asn1Time) : Bytes :=
  ((asn1TimeToTm blankTm blankTm (some t)).map fun tm => validityText (tm.withDst dst)).getD []

def readIdentity (x509 : X509 lib.toKeyTypes) (locals : Locals) : RootIdentity :=
  .of (readSubject x509.subject .cleared) (periodText locals.tm_not_before.tm_isdst x509.not_before)
    (periodText locals.tm_not_after.tm_isdst x509.not_after)

def certIdentity (x509 : X509 lib.toKeyTypes) : RootIdentity where
  CN := (firstValue x509.subject .commonName).getD []
  MAIL := (firstValue x509.subject .pkcs9_emailAddress).getD []
  OU := (firstValue x509.subject .organizationalUnitName).getD []
  not_before := periodText 0 x509.not_before
  not_after := periodText 0 x509.not_after

/-- Nothing of the certificate is cut off or shifted in the reading. -/
structure ReadWhole (x509 : X509 lib.toKeyTypes) (locals : Locals) : Prop where
  names : ∀ nid ∈ [NameNid.commonName, .pkcs9_emailAddress, .organizationalUnitName],
    ∀ data, firstValue x509.subject nid = some data → 0 ∉ data ∧ data.length < 128
  begins : locals.tm_not_before.tm_isdst ≠ 1
  ends : locals.tm_not_after.tm_isdst ≠ 1

theorem checkRootCert_ok_iff (x509 : X509 lib.toKeyTypes) (root_ext_len : Nat) (now : Int)
    (locals : Locals) (code : Bytes) :
    checkRootCert sha256 lib x509 root_ext_len now locals = .ok code ↔
      TimesPass lib x509 now ∧ getRootCode lib x509 root_ext_len = .ok code ∧
        code = mkRootCode sha256 (readSubject x509.subject .cleared)
          (periodText locals.tm_not_before.tm_isdst x509.not_before)
          (periodText locals.tm_not_after.tm_isdst x509.not_after) := by
  have texts := checkCertValidity_ok_iff x509 now locals.gmtime locals.tm_not_before
    locals.tm_not_after
  unfold checkRootCert
  cases checked : checkCertValidity lib x509 now locals.gmtime locals.tm_not_before
    locals.tm_not_after with
  | error failure =>
      have failed : ¬ TimesPass lib x509 now := by
        intro passed
        obtain ⟨before, found_before⟩ := Option.isSome_iff_exists.mp passed.2.2.1
        obtain ⟨after, found_after⟩ := Option.isSome_iff_exists.mp passed.2.2.2
        have written := (texts _).mpr ⟨passed, before, after, found_before, found_after, rfl⟩
        rw [checked] at written
        cases written
      simp [failed]
  | ok written =>
      obtain ⟨passed, before, after, found_before, found_after, rfl⟩ := (texts written).mp checked
      cases read : getRootCode lib x509 root_ext_len with
      | error failure => simp
      | ok root_ext_code =>
          simp only [periodText, found_before, found_after, Option.map_some, Option.getD_some,
            passed, true_and]
          split
          · rename_i differ
            simp only [reduceCtorEq, Except.ok.injEq, false_iff, not_and]
            rintro rfl same
            exact differ same.symm
          · rename_i same
            simp only [ne_eq, not_not] at same
            simp only [Except.ok.injEq]
            constructor
            · rintro rfl
              exact ⟨rfl, same.symm⟩
            · exact fun both => both.1

theorem periodText_length (dst : Int) (t : Asn1Time)
    (parses : (asn1TimeToTm blankTm blankTm (some t)).isSome = true) :
    (periodText dst t).length = 14 := by
  obtain ⟨tm, parsed⟩ := Option.isSome_iff_exists.mp parses
  rw [periodText, parsed]
  exact validityText_length _ (Tm.InRange.withDst tm (parsed_range _ _ tm t parsed) dst)

theorem periodText_eq_iff (first second : Int) (t : Asn1Time)
    (parses : (asn1TimeToTm blankTm blankTm (some t)).isSome = true) :
    periodText first t = periodText second t ↔ (first = 1 ↔ second = 1) := by
  obtain ⟨tm, parsed⟩ := Option.isSome_iff_exists.mp parses
  simp only [periodText, parsed, Option.map_some, Option.getD_some]
  exact validityText_eq_iff tm first second

/-- What is read into a cleared field is the start of the name's value. -/
theorem read_text_begins (name : X509Name) (nid : NameNid) (size : Nat) (room : 0 < size) :
    (getTextByNid name nid (Field.empty size room)).val <+: (firstValue name nid).getD [] := by
  unfold getTextByNid
  cases firstValue name nid with
  | none => exact List.nil_prefix
  | some data => exact (List.takeWhile_prefix _).trans (List.take_prefix _ data)

theorem read_text_whole_iff (name : X509Name) (nid : NameNid) (size : Nat) (room : 0 < size) :
    (getTextByNid name nid (Field.empty size room)).val = (firstValue name nid).getD [] ↔
      ∀ data, firstValue name nid = some data → 0 ∉ data ∧ data.length < size := by
  unfold getTextByNid
  cases firstValue name nid with
  | none => simp [Field.empty]
  | some data =>
      simp only [Option.getD_some, Option.some.injEq, forall_eq']
      constructor
      · intro same
        refine ⟨?_, ?_⟩
        · rw [← same]
          exact Keys.cString_clean _
        · have short := cString_length (data.take (size - 1))
          rw [same, List.length_take] at short
          omega
      · rintro ⟨terminated, short⟩
        rw [List.take_of_length_le (by omega), Keys.cString_of_text data terminated]

theorem readIdentity_timed (x509 : X509 lib.toKeyTypes) (now : Int) (locals : Locals)
    (passes : TimesPass lib x509 now) : (readIdentity x509 locals).Timed :=
  ⟨periodText_length _ _ passes.2.2.1, periodText_length _ _ passes.2.2.2⟩

theorem readIdentity_whole_iff (x509 : X509 lib.toKeyTypes) (now : Int) (locals : Locals)
    (passes : TimesPass lib x509 now) :
    readIdentity x509 locals = certIdentity x509 ↔ ReadWhole x509 locals := by
  have name := fun nid => read_text_whole_iff x509.subject nid 128 (by decide)
  have begins := periodText_eq_iff locals.tm_not_before.tm_isdst 0 _ passes.2.2.1
  have ends := periodText_eq_iff locals.tm_not_after.tm_isdst 0 _ passes.2.2.2
  have fields : readIdentity x509 locals = certIdentity x509 ↔
      (getTextByNid x509.subject .commonName (Field.empty 128 (by decide))).val =
          (firstValue x509.subject .commonName).getD [] ∧
        (getTextByNid x509.subject .pkcs9_emailAddress (Field.empty 128 (by decide))).val =
          (firstValue x509.subject .pkcs9_emailAddress).getD [] ∧
        (getTextByNid x509.subject .organizationalUnitName (Field.empty 128 (by decide))).val =
          (firstValue x509.subject .organizationalUnitName).getD [] ∧
        periodText locals.tm_not_before.tm_isdst x509.not_before = periodText 0 x509.not_before ∧
        periodText locals.tm_not_after.tm_isdst x509.not_after = periodText 0 x509.not_after := by
    rw [readIdentity, certIdentity, RootIdentity.of, RootIdentity.mk.injEq]
    rfl
  rw [fields, name, name, name, begins, ends]
  constructor
  · rintro ⟨common, mail, unit, before, after⟩
    refine ⟨?_, by omega, by omega⟩
    intro nid member
    simp only [List.mem_cons, List.not_mem_nil, or_false] at member
    rcases member with rfl | rfl | rfl
    · exact common
    · exact mail
    · exact unit
  · rintro ⟨names, before, after⟩
    exact ⟨names _ (by simp), names _ (by simp), names _ (by simp), by omega, by omega⟩

/-- What is cut off cannot be made up for by a trade. -/
theorem trade_not_cut (whole cut : RootIdentity) (common : cut.CN <+: whole.CN)
    (mail : cut.MAIL <+: whole.MAIL) (unit : cut.OU <+: whole.OU) : ¬ Trades whole cut := by
  have key := key_nonempty
  have common_length := common.length_le
  have mail_length := mail.length_le
  have unit_length := unit.length_le
  rintro ⟨-, -, ⟨-, joined, differ⟩ | ⟨middle, front, -⟩ | ⟨middle, -, back⟩⟩
  · have total := congrArg List.length joined
    simp only [List.length_append] at total
    exact differ (common.eq_of_length (by omega)).symm
  · have total := congrArg List.length front
    simp only [RootIdentity.around, List.length_append] at total
    omega
  · have total := congrArg List.length back
    simp only [RootIdentity.around, List.length_append] at total
    omega

theorem trade_irrefl (identity : RootIdentity) : ¬ Trades identity identity :=
  trade_not_cut identity identity (List.prefix_refl _) (List.prefix_refl _) (List.prefix_refl _)

theorem reading_not_trade (x509 : X509 lib.toKeyTypes) (locals : Locals) :
    ¬ Trades (certIdentity x509) (readIdentity x509 locals) :=
  trade_not_cut _ _ (read_text_begins x509.subject _ 128 (by decide))
    (read_text_begins x509.subject _ 128 (by decide))
    (read_text_begins x509.subject _ 128 (by decide))

/-- Two root codes agree for different identities exactly where the identities trade
characters, and a copied root code passes in another certificate exactly where what is
read of that one does, or is the genuine identity with a part cut off or shifted. -/
theorem root_code_binds_iff (sha256 : Bytes → Bytes) (injective : Function.Injective sha256)
    (genuine : StuSubject) (not_before not_after : Bytes)
    (timed : (RootIdentity.of genuine not_before not_after).Timed) :
    (∀ (other : StuSubject) (begins ends : Bytes), (RootIdentity.of other begins ends).Timed →
      ((mkRootCode sha256 genuine not_before not_after = mkRootCode sha256 other begins ends →
          RootIdentity.of genuine not_before not_after = .of other begins ends) ↔
        ¬ Trades (.of genuine not_before not_after) (.of other begins ends))) ∧
    ∀ (lib : OpenSsl) (x509 : X509 lib.toKeyTypes) (root_ext_len : Nat) (now : Int)
      (locals : Locals),
      getRootCode lib x509 root_ext_len = .ok (mkRootCode sha256 genuine not_before not_after) →
      ((checkRootCert sha256 lib x509 root_ext_len now locals =
            .ok (mkRootCode sha256 genuine not_before not_after) →
          certIdentity x509 = .of genuine not_before not_after) ↔
        ¬ (TimesPass lib x509 now ∧
          (Trades (.of genuine not_before not_after) (readIdentity x509 locals) ∨
            readIdentity x509 locals = .of genuine not_before not_after ∧
              ¬ ReadWhole x509 locals))) := by
  have codes : ∀ (other : StuSubject) (begins ends : Bytes),
      (RootIdentity.of other begins ends).Timed →
      (mkRootCode sha256 genuine not_before not_after = mkRootCode sha256 other begins ends ↔
        RootIdentity.of genuine not_before not_after = .of other begins ends ∨
          Trades (.of genuine not_before not_after) (.of other begins ends)) := by
    intro other begins ends other_timed
    rw [mkRootCode, mkRootCode, binToHexString_injective.eq_iff, injective.eq_iff,
      rootCodeSource_eq_iff genuine other _ _ _ _ timed other_timed]
  refine ⟨?_, ?_⟩
  · intro other begins ends other_timed
    rw [codes other begins ends other_timed]
    constructor
    · intro binds trades
      rw [← binds (.inr trades)] at trades
      exact trade_irrefl _ trades
    · rintro apart (same | trades)
      · exact same
      · exact absurd trades apart
  · intro lib x509 root_ext_len now locals copied
    rw [checkRootCert_ok_iff]
    by_cases passes : TimesPass lib x509 now
    · have other_timed := readIdentity_timed x509 now locals passes
      have whole := readIdentity_whole_iff x509 now locals passes
      have same := codes _ _ _ other_timed
      have uncut := reading_not_trade x509 locals
      simp only [passes, copied, true_and]
      rw [same, ← whole]
      -- what the check reads is the identity itself, one that trades bytes with it, or
      -- the identity cut short
      change (_ = readIdentity x509 locals ∨ Trades _ (readIdentity x509 locals) → _) ↔ _
      constructor
      · rintro binds (trades | ⟨read, cut⟩)
        · rw [← binds (.inr trades)] at trades
          exact uncut trades
        · exact cut (read.trans (binds (.inl read.symm)).symm)
      · rintro apart (read | trades)
        · by_contra differ
          exact apart (.inr ⟨read.symm, fun same => differ (same.symm.trans read.symm)⟩)
        · exact absurd (.inl trades) apart
    · simp [passes]

def namedSubject (common mail : Field 128) : StuSubject :=
  { StuSubject.cleared with CN := common, MAIL := mail }

def genuineName : StuSubject := namedSubject ⟨[0x61], by decide, by decide⟩ StuSubject.cleared.MAIL

def tradedName : StuSubject := namedSubject StuSubject.cleared.CN ⟨[0x61], by decide, by decide⟩

def firstText : Bytes := "20180305181500".toUTF8.data.toList

def nextText : Bytes := "20180306181500".toUTF8.data.toList

theorem root_code_binds_iff_applies :
    ¬ (mkRootCode id genuineName firstText nextText = mkRootCode id tradedName firstText nextText →
      RootIdentity.of genuineName firstText nextText = .of tradedName firstText nextText) := by
  have timed : ∀ info, (RootIdentity.of info firstText nextText).Timed := fun _ =>
    ⟨(by decide +kernel : firstText.length = 14), (by decide +kernel : nextText.length = 14)⟩
  have trades : Trades (.of genuineName firstText nextText) (.of tradedName firstText nextText) :=
    ⟨rfl, rfl, .inl ⟨rfl, rfl, by decide +kernel⟩⟩
  have apart := (root_code_binds_iff id Function.injective_id genuineName firstText nextText
    (timed _)).1 tradedName firstText nextText (timed _)
  exact fun binds => apart.mp binds trades

/-- The mail's only character moved to the common name's place. -/
def copiedCert : X509 plainOpenSsl.toKeyTypes :=
  { forgedCert with
    subject := subjectName tradedName
    extensions := [⟨rootCodeOid, false,
      ia5String [] ++ mkRootCode id genuineName firstText nextText⟩] }

theorem copied_root_code_accepted :
    mkRootCode id genuineName firstText nextText = mkRootCode id tradedName firstText nextText ∧
      RootIdentity.of genuineName firstText nextText ≠ .of tradedName firstText nextText ∧
      checkRootCert id plainOpenSsl copiedCert 256 1520300000 ⟨blankTm, blankTm, blankTm⟩ =
        .ok (mkRootCode id genuineName firstText nextText) ∧
      certIdentity copiedCert ≠ .of genuineName firstText nextText := by
  refine ⟨by decide +kernel, by decide +kernel, ?_, by decide +kernel⟩
  rw [checkRootCert_ok_iff]
  exact ⟨forged_times_pass, by decide +kernel, by decide +kernel⟩

end EChainLib.Ca
