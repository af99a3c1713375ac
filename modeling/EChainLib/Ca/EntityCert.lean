import Mathlib
import EChainLib.Ca.Certificate

/-! `CA::CheckEntityCert`: a chain of library predicates, none of which looks at
the signature of the subject's certificate. -/

namespace EChainLib.Ca

open Keys (Bytes)

variable (lib : OpenSsl)

/-- What the locals of one `CheckCertValidity` hold, and `gmtime` of its moment. -/
structure Locals where
  gmtime : Tm
  tm_not_before : Tm
  tm_not_after : Tm

/-- The certificates and the key are what `LoadCert` and `LoadKey` make of the
files, or the text they leave in `out_msg`. -/
def checkEntityCert (issuer_cert_file subject_cert_file : String)
    (issuer_x509 subject_x509 : Except String (X509 lib.toKeyTypes))
    (prkey : Except String lib.PKey) (now : Int) (locals : Locals) : Except Failure Unit :=
  match issuer_x509 with
  | .error out_msg => .error (.refused out_msg)
  | .ok issuer_x509 =>
      match subject_x509 with
      | .error out_msg => .error (.refused out_msg)
      | .ok subject_x509 =>
          if !lib.checkIssued issuer_x509 subject_x509 then
            .error (.refused ("the root certificate(" ++ issuer_cert_file ++
              ") is not the issuer of entity certificate(" ++ subject_cert_file ++ ")"))
          else
            match prkey with
            | .error out_msg => .error (.refused out_msg)
            | .ok prkey =>
                if !lib.samePublicKey subject_x509.pubkey (lib.publicHalf prkey) then
                  .error (.refused "certificate and private key do not match")
                else
                  match checkCertValidity lib subject_x509 now locals.gmtime
                      locals.tm_not_before locals.tm_not_after with
                  | .error failure => .error failure
                  | .ok _ => .ok ()

/-- What a trusted entity certificate has to be. -/
structure Trusted (issuer subject : X509 lib.toKeyTypes) (prkey : lib.PKey) (now : Int) : Prop where
  signed : lib.signatureVerifies subject issuer.pubkey = true
  own_key : subject.pubkey = lib.publicHalf prkey
  in_period : ∃ begin_second end_second, lib.instant subject.not_before = some begin_second ∧
    lib.instant subject.not_after = some end_second ∧ begin_second ≤ now ∧ now ≤ end_second

/-- The times pass: neither is one OpenSSL reads on the wrong side of now, and the
parsers of this file read both. -/
def TimesPass (x509 : X509 lib.toKeyTypes) (now : Int) : Prop :=
  (∀ second, lib.instant x509.not_before = some second → second ≤ now) ∧
    (∀ second, lib.instant x509.not_after = some second → now < second) ∧
    (asn1TimeToTm blankTm blankTm (some x509.not_before)).isSome = true ∧
    (asn1TimeToTm blankTm blankTm (some x509.not_after)).isSome = true

variable {lib}

theorem cmp_not_later_iff (now : Int) (t : Asn1Time) :
    ¬ cmpCurrentTime lib now t > 0 ↔ ∀ second, lib.instant t = some second → second ≤ now := by
  unfold cmpCurrentTime
  cases lib.instant t with
  | none => simp
  | some second =>
      by_cases before : second ≤ now
      · simp [before]
      · simp [before]

theorem cmp_not_earlier_iff (now : Int) (t : Asn1Time) :
    ¬ cmpCurrentTime lib now t < 0 ↔ ∀ second, lib.instant t = some second → now < second := by
  unfold cmpCurrentTime
  cases lib.instant t with
  | none => simp
  | some second =>
      by_cases before : second ≤ now
      · simp [before]
      · simp [before, not_le.mp before]

theorem asn1TimeToTm_gmtime (gmtime other tm : Tm) (t : Asn1Time) :
    asn1TimeToTm gmtime tm (some t) = asn1TimeToTm other tm (some t) := by
  cases kind : t.type <;> simp [asn1TimeToTm, kind]

/-- The texts written for a time that passes, from the locals' daylight saving. -/
theorem checkCertValidity_ok_iff (x509 : X509 lib.toKeyTypes) (now : Int)
    (gmtime tm_not_before tm_not_after : Tm) (texts : Bytes × Bytes) :
    checkCertValidity lib x509 now gmtime tm_not_before tm_not_after = .ok texts ↔
      TimesPass lib x509 now ∧ ∃ before after,
        asn1TimeToTm blankTm blankTm (some x509.not_before) = some before ∧
        asn1TimeToTm blankTm blankTm (some x509.not_after) = some after ∧
        texts = (validityText (before.withDst tm_not_before.tm_isdst),
          validityText (after.withDst tm_not_after.tm_isdst)) := by
  unfold checkCertValidity TimesPass
  rw [← cmp_not_later_iff, ← cmp_not_earlier_iff, parsed_keeps_dst gmtime tm_not_before,
    parsed_keeps_dst gmtime tm_not_after, asn1TimeToTm_gmtime gmtime blankTm,
    asn1TimeToTm_gmtime gmtime blankTm blankTm x509.not_after]
  by_cases later : cmpCurrentTime lib now x509.not_before > 0
  · simp [later]
  · by_cases earlier : cmpCurrentTime lib now x509.not_after < 0
    · simp [later, earlier]
    · cases before : asn1TimeToTm blankTm blankTm (some x509.not_before) with
      | none => simp [later, earlier]
      | some before =>
          cases after : asn1TimeToTm blankTm blankTm (some x509.not_after) with
          | none => simp [later, earlier]
          | some after => simp [later, earlier, eq_comm]

theorem checkEntityCert_ok_iff (issuer_cert_file subject_cert_file : String)
    (issuer subject : X509 lib.toKeyTypes) (prkey : lib.PKey) (now : Int) (locals : Locals) :
    checkEntityCert lib issuer_cert_file subject_cert_file (.ok issuer) (.ok subject) (.ok prkey)
        now locals = .ok () ↔
      lib.checkIssued issuer subject = true ∧ subject.pubkey = lib.publicHalf prkey ∧
        TimesPass lib subject now := by
  rw [← lib.samePublicKey_iff]
  have texts := checkCertValidity_ok_iff subject now locals.gmtime locals.tm_not_before
    locals.tm_not_after
  unfold checkEntityCert
  by_cases issued : lib.checkIssued issuer subject = true
  · by_cases own : lib.samePublicKey subject.pubkey (lib.publicHalf prkey) = true
    · cases checked : checkCertValidity lib subject now locals.gmtime locals.tm_not_before
        locals.tm_not_after with
      | ok written =>
          have passed := ((texts written).mp checked).1
          simp [issued, own, checked, passed]
      | error failure =>
          have failed : ¬ TimesPass lib subject now := by
            intro passed
            obtain ⟨before, found_before⟩ := Option.isSome_iff_exists.mp passed.2.2.1
            obtain ⟨after, found_after⟩ := Option.isSome_iff_exists.mp passed.2.2.2
            have written := (texts _).mpr ⟨passed, before, after, found_before, found_after, rfl⟩
            rw [checked] at written
            cases written
          simp [issued, own, checked, failed]
    · simp [issued, own]
  · simp [issued]

/-- An accepted certificate can be trusted exactly where the comparisons fail, or
its signature verifies and OpenSSL reads both its times. -/
theorem entity_trust_iff (lib : OpenSsl) (issuer_cert_file subject_cert_file : String)
    (issuer subject : X509 lib.toKeyTypes) (prkey : lib.PKey) (now : Int) (locals : Locals) :
    (checkEntityCert lib issuer_cert_file subject_cert_file (.ok issuer) (.ok subject) (.ok prkey)
        now locals = .ok () → Trusted lib issuer subject prkey now) ↔
      (lib.checkIssued issuer subject = true → subject.pubkey = lib.publicHalf prkey →
        TimesPass lib subject now →
          lib.signatureVerifies subject issuer.pubkey = true ∧
            lib.instant subject.not_before ≠ none ∧ lib.instant subject.not_after ≠ none) := by
  rw [checkEntityCert_ok_iff]
  constructor
  · intro sound issued own passed
    obtain ⟨signed, _, begin_second, end_second, first, second, _⟩ := sound ⟨issued, own, passed⟩
    exact ⟨signed, by simp [first], by simp [second]⟩
  · rintro genuine ⟨issued, own, passed⟩
    obtain ⟨signed, first, second⟩ := genuine issued own passed
    obtain ⟨begin_second, begins⟩ := Option.ne_none_iff_exists'.mp first
    obtain ⟨end_second, ends⟩ := Option.ne_none_iff_exists'.mp second
    exact ⟨signed, own, begin_second, end_second, begins, ends, passed.1 _ begins,
      (passed.2.1 _ ends).le⟩

/-- A certificate in the issuer's name that someone else signed. -/
def forgedCert : X509 plainOpenSsl.toKeyTypes where
  subject := []
  issuer := []
  not_before := firstDay.asn1Time
  not_after := nextDay.asn1Time
  pubkey := (7 : Nat)
  extensions := []
  signature := some (7 : Nat)

def issuerCert : X509 plainOpenSsl.toKeyTypes :=
  { forgedCert with pubkey := (3 : Nat), signature := some (3 : Nat) }

theorem forged_times_pass : TimesPass plainOpenSsl forgedCert 1520300000 := by
  refine ⟨?_, ?_, by decide +kernel, by decide +kernel⟩
  · intro second found
    have known : plainOpenSsl.instant forgedCert.not_before = some 1520244900 := by decide +kernel
    rw [known] at found
    have same := Option.some.inj found
    omega
  · intro second found
    have known : plainOpenSsl.instant forgedCert.not_after = some 1520331300 := by decide +kernel
    rw [known] at found
    have same := Option.some.inj found
    omega

theorem forged_certificate_accepted :
    checkEntityCert plainOpenSsl "root.pem" "entity.pem" (.ok issuerCert) (.ok forgedCert)
        (.ok sevenKey) 1520300000 ⟨blankTm, blankTm, blankTm⟩ = .ok () ∧
      plainOpenSsl.signatureVerifies forgedCert issuerCert.pubkey = false := by
  refine ⟨?_, rfl⟩
  rw [checkEntityCert_ok_iff]
  exact ⟨rfl, rfl, forged_times_pass⟩

end EChainLib.Ca
