import Mathlib
import EChainLib.Ca.Time
import EChainLib.Ca.Subject

/-! Certificates and requests as `ca.cpp` handles them: a name, two times and an
ordered list of extensions. OpenSSL is the parameter `OpenSsl`; an extension is
known by its OID, which is what `OBJ_create` gives a NID for. -/

namespace EChainLib.Ca

open Keys (Bytes cString)

abbrev Oid := String

def basicConstraints : Oid := "2.5.29.19"
def subjectKeyIdentifier : Oid := "2.5.29.14"
def authorityKeyIdentifier : Oid := "2.5.29.35"
def keyUsage : Oid := "2.5.29.15"
def extKeyUsage : Oid := "2.5.29.37"
def domainComponent : Oid := "0.9.2342.19200300.100.1.25"
def domain : Oid := "0.9.2342.19200300.100.4.13"
def nodeId : Oid := "1.1.1.1"
def hardAddress : Oid := "1.1.1.2"
def useCa : Oid := "1.1.1.3"
def rootCodeOid : Oid := "1.12.30663.195.6325"

structure Extension where
  object : Oid
  critical : Bool
  data : Bytes
  deriving DecidableEq

/-- `EVP_PKEY`s and signatures. -/
structure KeyTypes where
  PKey : Type
  PubKey : Type
  Signature : Type
  publicHalf : PKey → PubKey

structure X509 (keys : KeyTypes) where
  subject : X509Name
  issuer : X509Name
  not_before : Asn1Time
  not_after : Asn1Time
  pubkey : keys.PubKey
  extensions : List Extension
  signature : Option keys.Signature

structure X509Req (keys : KeyTypes) where
  subject : X509Name
  pubkey : keys.PubKey
  extensions : List Extension
  signature : Option keys.Signature

/-- The DER length octets. -/
def derLength (length : Nat) : Bytes :=
  if length < 0x80 then [UInt8.ofNat length]
  else if length < 0x100 then [0x81, UInt8.ofNat length]
  else [0x82, UInt8.ofNat (length / 256), UInt8.ofNat (length % 256)]

/-- A DER IA5String of at most 65535 bytes. -/
def ia5String (text : Bytes) : Bytes := 0x16 :: (derLength text.length ++ text)

def printable (c : UInt8) : Bool := 0x20 ≤ c && c ≤ 0x7e

/-- The prefixes that `X509V3_EXT_conf_nid` does not take as text. -/
def valuePrefixes : List Bytes :=
  ["critical,", "DER:", "ASN1:"].map fun text => text.toUTF8.data.toList

/-- A text an extension aliased to the Netscape comment is made of. -/
structure CommentText (value : Bytes) : Prop where
  nonempty : value ≠ []
  ascii : ∀ c ∈ value, printable c = true
  unprefixed : ∀ start ∈ valuePrefixes, ¬ start <+: value
  short : value.length < 0x10000

/-- Six numbers written as an ASN.1 time with seconds and a `Z`. -/
def twoDigitText (n : Nat) : Bytes := [UInt8.ofNat (48 + n / 10), UInt8.ofNat (48 + n % 10)]

structure Civil where
  year : Nat
  month : Nat
  day : Nat
  hour : Nat
  minute : Nat
  second : Nat
  in_range : year ≤ 9999 ∧ (1 ≤ month ∧ month ≤ 12) ∧ (1 ≤ day ∧ day ≤ 31) ∧ hour ≤ 23 ∧
    minute ≤ 59 ∧ second ≤ 59

def Civil.clockText (civil : Civil) : Bytes :=
  twoDigitText civil.month ++ twoDigitText civil.day ++ twoDigitText civil.hour ++
    twoDigitText civil.minute ++ twoDigitText civil.second ++ ['Z'.toUInt8]

/-- `ASN1_TIME_adj` writes a UTCTime for the years 1950 to 2049. -/
def Civil.asn1Time (civil : Civil) : Asn1Time :=
  if 1950 ≤ civil.year ∧ civil.year < 2050 then
    ⟨.utctime, twoDigitText (civil.year % 100) ++ civil.clockText⟩
  else
    ⟨.generalizedtime,
      twoDigitText (civil.year / 100) ++ twoDigitText (civil.year % 100) ++ civil.clockText⟩

/-- The times of `X509_new`. -/
def unsetTime : Asn1Time := ⟨.other, []⟩

structure OpenSsl extends KeyTypes where
  /-- `X509_check_issued` says `X509_V_OK`. -/
  checkIssued : X509 toKeyTypes → X509 toKeyTypes → Bool
  /-- `X509_verify` against a public key. -/
  signatureVerifies : X509 toKeyTypes → PubKey → Bool
  samePublicKey : PubKey → PubKey → Bool
  samePublicKey_iff : ∀ first second, samePublicKey first second = true ↔ first = second
  /-- `X509_REQ_verify`, whose negative answers are errors. -/
  reqVerify : X509Req toKeyTypes → PubKey → Int
  /-- `X509_sign` and `X509_REQ_sign`; `none` is a failure. -/
  sign : X509 toKeyTypes → PKey → Option Signature
  reqSign : X509Req toKeyTypes → PKey → Option Signature
  reqSign_verifies : ∀ req key signature, req.pubkey = publicHalf key →
    reqSign req key = some signature → 0 < reqVerify { req with signature := some signature } req.pubkey
  /-- The second an ASN.1 time names, where OpenSSL can read it. -/
  instant : Asn1Time → Option Int
  instant_unset : instant unsetTime = none
  /-- `X509_gmtime_adj` at a second; `none` is a year it cannot write. -/
  gmtimeAdj : Int → Option Asn1Time
  gmtimeAdj_written : ∀ second t, gmtimeAdj second = some t →
    instant t = some second ∧ ∃ civil : Civil, t = civil.asn1Time
  /-- `ASN1_UTCTIME_set_string`; `none` leaves the time as it was. -/
  utctimeSetString : Bytes → Option Asn1Time
  /-- `X509V3_EXT_conf_nid` with the issuer and the subject of its context; the
  four OIDs of the library are aliased to `NID_netscape_comment`. -/
  extConf : X509 toKeyTypes → X509 toKeyTypes → Oid → Bytes → Option Extension
  extConf_object : ∀ root cert nid value ext, extConf root cert nid value = some ext → ext.object = nid
  extConf_comment : ∀ root cert nid value, nid ∈ [nodeId, hardAddress, useCa, rootCodeOid] →
    CommentText value → extConf root cert nid value = some ⟨nid, false, ia5String value⟩
  /-- `X509V3_EXT_conf_nid` without a context. -/
  reqExtConf : Oid → Bytes → Option Extension
  reqExtConf_comment : ∀ nid value, nid ∈ [nodeId, hardAddress, useCa, rootCodeOid] →
    CommentText value → reqExtConf nid value = some ⟨nid, false, ia5String value⟩
  /-- The `cA` of a basicConstraints value; `none` is malformed. -/
  caFlag : Bytes → Option Bool
  extConf_ca_false : ∀ root cert ext,
    extConf root cert basicConstraints "critical,CA:FALSE".toUTF8.data.toList = some ext →
      caFlag ext.data = some false

/-- A call that is refused leaves its text in `out_msg`; an undefined one reads or
writes outside a buffer. -/
inductive Failure where
  | refused (out_msg : String)
  | undefined
  deriving DecidableEq

variable {lib : OpenSsl}

/-- `X509_cmp_current_time`, which is `-1` for the current second too and 0 for a
time OpenSSL cannot read. -/
def cmpCurrentTime (lib : OpenSsl) (now : Int) (t : Asn1Time) : Int :=
  match lib.instant t with
  | none => 0
  | some second => if second ≤ now then -1 else 1

/-- `CA::Add_ExtCert`. -/
def addExtCert (cert root : X509 lib.toKeyTypes) (nid : Oid) (value : Bytes) : X509 lib.toKeyTypes :=
  match lib.extConf root cert nid value with
  | none => cert
  | some ex => { cert with extensions := cert.extensions ++ [ex] }

/-- Calls of `Add_ExtCert` one after the other, in the certificate's own context. -/
def addExtCerts (cert : X509 lib.toKeyTypes) : List (Oid × Bytes) → X509 lib.toKeyTypes
  | [] => cert
  | (nid, value) :: rest => addExtCerts (addExtCert cert cert nid value) rest

theorem addExtCert_eq (cert root : X509 lib.toKeyTypes) (nid : Oid) (value : Bytes) :
    addExtCert cert root nid value =
      { cert with extensions := cert.extensions ++ (lib.extConf root cert nid value).toList } := by
  unfold addExtCert
  cases lib.extConf root cert nid value <;> simp

/-- What the first extension under an OID is after one has been added. -/
theorem addExtCert_find (cert root : X509 lib.toKeyTypes) (nid oid : Oid) (value : Bytes) :
    (addExtCert cert root nid value).extensions.find? (fun ext => ext.object = oid) =
      (cert.extensions.find? fun ext => ext.object = oid).or
        (if nid = oid then lib.extConf root cert nid value else none) := by
  rw [addExtCert_eq, List.find?_append]
  cases made : lib.extConf root cert nid value with
  | none => simp
  | some ext =>
      have object := lib.extConf_object root cert nid value ext made
      by_cases same : nid = oid <;> simp [object, same]

/-- Only extensions made by these calls have been appended. -/
def Added (calls : List (Oid × Bytes)) (before after : X509 lib.toKeyTypes) : Prop :=
  ∃ added, after = { before with extensions := before.extensions ++ added } ∧
    ∀ ext ∈ added, ∃ call ∈ calls, ∃ root cert, lib.extConf root cert call.1 call.2 = some ext

theorem addExtCert_added (cert root : X509 lib.toKeyTypes) (nid : Oid) (value : Bytes) :
    Added [(nid, value)] cert (addExtCert cert root nid value) := by
  refine ⟨(lib.extConf root cert nid value).toList, addExtCert_eq cert root nid value, ?_⟩
  intro ext member
  exact ⟨(nid, value), List.mem_singleton_self _, root, cert, Option.mem_toList.mp member⟩

theorem added_trans (first second : List (Oid × Bytes)) (x y z : X509 lib.toKeyTypes)
    (before : Added first x y) (after : Added second y z) : Added (first ++ second) x z := by
  obtain ⟨front, rfl, made_front⟩ := before
  obtain ⟨back, rfl, made_back⟩ := after
  refine ⟨front ++ back, by rw [List.append_assoc], ?_⟩
  intro ext member
  rcases List.mem_append.mp member with early | late
  · obtain ⟨call, found, made⟩ := made_front ext early
    exact ⟨call, List.mem_append_left _ found, made⟩
  · obtain ⟨call, found, made⟩ := made_back ext late
    exact ⟨call, List.mem_append_right _ found, made⟩

theorem addExtCerts_added (cert : X509 lib.toKeyTypes) (calls : List (Oid × Bytes)) :
    Added calls cert (addExtCerts cert calls) := by
  induction calls generalizing cert with
  | nil => exact ⟨[], by rw [List.append_nil, addExtCerts], by simp⟩
  | cons call rest ih =>
      obtain ⟨nid, value⟩ := call
      exact added_trans [(nid, value)] rest _ _ _ (addExtCert_added cert cert nid value) (ih _)

theorem added_object (calls : List (Oid × Bytes)) (ext : Extension)
    (made : ∃ call ∈ calls, ∃ root cert : X509 lib.toKeyTypes,
      lib.extConf root cert call.1 call.2 = some ext) : ext.object ∈ calls.map Prod.fst := by
  obtain ⟨call, member, root, cert, built⟩ := made
  rw [lib.extConf_object root cert call.1 call.2 ext built]
  exact List.mem_map_of_mem member

/-- The first extension under another OID stays the first. -/
theorem added_find (calls : List (Oid × Bytes)) (before after : X509 lib.toKeyTypes) (oid : Oid)
    (added : Added calls before after) (other : oid ∉ calls.map Prod.fst) :
    (after.extensions.find? fun ext => ext.object = oid) =
      before.extensions.find? fun ext => ext.object = oid := by
  obtain ⟨appended, rfl, made⟩ := added
  have foreign : (appended.find? fun ext => ext.object = oid) = none := by
    rw [List.find?_eq_none]
    intro ext member own
    exact other (of_decide_eq_true own ▸ added_object calls ext (made ext member))
  rw [List.find?_append, foreign, Option.or_none]

/-- What stands at `&octet_str->data[2]`, behind whose last octet there is a NUL. -/
def commentValue (data : Bytes) : Option Bytes :=
  if data.length < 2 then none else some (cString (data.drop 2))

/-- `CA::GetExtensionData` into a `char[len]`. -/
def getExtensionData (x509 : X509 lib.toKeyTypes) (oid : Oid) (len : Nat) : Except Failure Bytes :=
  match x509.extensions.find? fun ext => ext.object = oid with
  | none => .error (.refused ("not contain this extension (" ++ oid ++ ")"))
  | some ext =>
      match commentValue ext.data with
      | none => .error .undefined
      | some text =>
          if len < text.length then .error (.refused "the length of buffer is too small")
          -- strcpy writes the NUL as well
          else if text.length = len then .error .undefined
          else .ok text

/-- `CA::CheckCertValidity`, with what its two locals hold: the two texts it
writes where they are asked for. -/
def checkCertValidity (lib : OpenSsl) (x509 : X509 lib.toKeyTypes) (now : Int)
    (gmtime tm_not_before tm_not_after : Tm) : Except Failure (Bytes × Bytes) :=
  if cmpCurrentTime lib now x509.not_before > 0 then
    .error (.refused "the begin time of the certificate can not later than the current time")
  else if cmpCurrentTime lib now x509.not_after < 0 then
    .error (.refused "the end time of the certificate can not earlier than the current time")
  else
    match asn1TimeToTm gmtime tm_not_before (some x509.not_before) with
    | none => .error (.refused "parse begin time failed, maybe the certificate is broken")
    | some tm_not_before =>
        match asn1TimeToTm gmtime tm_not_after (some x509.not_after) with
        | none => .error (.refused "parse end time failed, maybe the certificate is broken")
        | some tm_not_after => .ok (validityText tm_not_before, validityText tm_not_after)

/-! A library with natural numbers for keys, whose clock knows two days in 2018. -/

def firstDay : Civil := ⟨2018, 3, 5, 10, 15, 0, by decide⟩

def nextDay : Civil := ⟨2018, 3, 6, 10, 15, 0, by decide⟩

def plainKeys : KeyTypes where
  PKey := Nat
  PubKey := Nat
  Signature := Nat
  publicHalf := id

def plainSigned (signature : Option Nat) (key : Nat) : Bool := signature == some key

def plainExtConf (nid : Oid) (value : Bytes) : Option Extension :=
  if nid ∈ [nodeId, hardAddress, useCa, rootCodeOid] then some ⟨nid, false, ia5String value⟩
  else if nid = basicConstraints then
    if value = "critical,CA:TRUE".toUTF8.data.toList then
      some ⟨nid, true, [0x30, 0x03, 0x01, 0x01, 0xff]⟩
    else some ⟨nid, true, [0x30, 0x00]⟩
  else if nid = domainComponent ∨ nid = domain then none
  else some ⟨nid, false, [0x04, 0x00]⟩

def plainOpenSsl : OpenSsl where
  toKeyTypes := plainKeys
  checkIssued := fun issuer subject => issuer.subject == subject.issuer
  signatureVerifies := fun cert key => plainSigned cert.signature key
  samePublicKey := fun first second : Nat => first == second
  samePublicKey_iff := fun _ _ => beq_iff_eq
  reqVerify := fun req key => if plainSigned req.signature key then 1 else 0
  sign := fun _ key => some key
  reqSign := fun _ key => some key
  reqSign_verifies := by
    intro req key signature own signed
    have same : key = signature := Option.some.inj signed
    have verified : plainSigned (some signature) req.pubkey = true := by
      rw [own, ← same]
      exact @beq_self_eq_true (Option Nat) _ _ (some key)
    exact lt_of_lt_of_eq (by decide : (0 : Int) < 1) (if_pos verified).symm
  -- two times are enough: the start of a certificate and a day after it
  instant := fun t =>
    if t = firstDay.asn1Time then some 1520244900
    else if t = nextDay.asn1Time then some 1520331300
    else none
  instant_unset := by decide +kernel
  gmtimeAdj := fun second =>
    if second = 1520244900 then some firstDay.asn1Time
    else if second = 1520331300 then some nextDay.asn1Time
    else none
  gmtimeAdj_written := by
    intro second t written
    have apart : nextDay.asn1Time ≠ firstDay.asn1Time := by decide
    split_ifs at written with first next
    · obtain rfl := Option.some.inj written
      exact ⟨by simp [first], firstDay, rfl⟩
    · obtain rfl := Option.some.inj written
      exact ⟨by simp [apart, next], nextDay, rfl⟩
  utctimeSetString := fun text => some ⟨.utctime, text⟩
  extConf := fun _ _ nid value => plainExtConf nid value
  extConf_object := by
    intro root cert nid value ext made
    simp only [plainExtConf] at made
    split_ifs at made <;> exact (Option.some.inj made) ▸ rfl
  extConf_comment := by
    intro root cert nid value aliased text
    rw [plainExtConf, if_pos aliased]
  reqExtConf := plainExtConf
  reqExtConf_comment := by
    intro nid value aliased text
    rw [plainExtConf, if_pos aliased]
  caFlag := fun data =>
    if data = [0x30, 0x00] then some false
    else if data = [0x30, 0x03, 0x01, 0x01, 0xff] then some true
    else none
  extConf_ca_false := by
    intro root cert ext made
    have plain : plainExtConf basicConstraints "critical,CA:FALSE".toUTF8.data.toList =
        some ⟨basicConstraints, true, [0x30, 0x00]⟩ := by decide +kernel
    rw [plain] at made
    rw [← Option.some.inj made]
    rfl

def sevenKey : plainOpenSsl.PKey := (7 : Nat)

end EChainLib.Ca
