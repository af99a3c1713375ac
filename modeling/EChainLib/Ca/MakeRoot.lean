import Mathlib
import EChainLib.Ca.RootCert

/-! `CA::mkRoot`, and when the certificate it makes passes `CheckRootCert`. Issuer
and checker each take the times through a `struct tm` of their own. -/

namespace EChainLib.Ca

open Keys (Bytes cString binToHexString)

/-! A time OpenSSL has written is one the parsers read. -/

theorem digit_octet (before after : Bytes) (n : Nat) (small : n ≤ 9) :
    digit (octet (before ++ UInt8.ofNat (48 + n) :: after) before.length) = some n := by
  have found : octet (before ++ UInt8.ofNat (48 + n) :: after) before.length =
      UInt8.ofNat (48 + n) := by
    simp [octet]
  rw [found]
  interval_cases n <;> decide

theorem twoDigits_written (before after : Bytes) (n min max : Nat) (small : n ≤ 99)
    (low : min ≤ n) (high : n ≤ max) :
    twoDigits (before ++ twoDigitText n ++ after) before.length min max =
      some (n, before.length + 2) := by
  have first := digit_octet before (UInt8.ofNat (48 + n % 10) :: after) (n / 10) (by omega)
  have second := digit_octet (before ++ [UInt8.ofNat (48 + n / 10)]) after (n % 10) (by omega)
  have length : (before ++ twoDigitText n ++ after).length = before.length + 2 + after.length := by
    simp only [twoDigitText, List.length_append, List.length_cons, List.length_nil]
  rw [List.length_append, List.length_singleton, List.append_assoc, List.singleton_append] at second
  have text : before ++ twoDigitText n ++ after =
      before ++ UInt8.ofNat (48 + n / 10) :: UInt8.ofNat (48 + n % 10) :: after := by
    simp [twoDigitText]
  have value : n / 10 * 10 + n % 10 = n := by omega
  rw [twoDigits, length, text, first]
  simp only
  rw [if_neg (by omega), second]
  simp only
  rw [if_neg (by omega), value, if_neg (by omega)]

theorem digit_not_zone (before after : Bytes) (n : Nat) (small : n ≤ 99) :
    isZone (octet (before ++ twoDigitText n ++ after) before.length) = false := by
  have found : octet (before ++ twoDigitText n ++ after) before.length =
      UInt8.ofNat (48 + n / 10) := by
    simp [octet, twoDigitText]
  have tens : n / 10 ≤ 9 := by omega
  rw [found]
  generalize n / 10 = high at tens
  interval_cases high <;> decide

def Fits (field : TimeField) (n : Nat) : Prop := field.min ≤ n ∧ n ≤ field.max ∧ n ≤ 99

def setFields : List TimeField → List Nat → Tm → Tm
  | field :: fields, n :: numbers, tm => setFields fields numbers (field.set n tm)
  | _, _, tm => tm

/-- The fields written are read, and the others from where they end. -/
theorem readFields_written_append (fields others : List TimeField) (numbers : List Nat)
    (before after : Bytes) (tm : Tm) (fits : List.Forall₂ Fits fields numbers) :
    readFields (before ++ numbers.flatMap twoDigitText ++ after) (fields ++ others) before.length tm =
      readFields (before ++ numbers.flatMap twoDigitText ++ after) others
        (before.length + 2 * numbers.length) (setFields fields numbers tm) := by
  induction fits generalizing before tm with
  | nil => rfl
  | @cons field n fields numbers fit rest ih =>
      obtain ⟨low, high, small⟩ := fit
      have text : before ++ (n :: numbers).flatMap twoDigitText ++ after =
          before ++ twoDigitText n ++ (numbers.flatMap twoDigitText ++ after) := by
        simp [List.append_assoc]
      have next : (before ++ twoDigitText n).length = before.length + 2 := by simp [twoDigitText]
      have done := ih (before ++ twoDigitText n) (field.set n tm)
      rw [next, List.append_assoc] at done
      rw [text, List.cons_append, readFields, digit_not_zone before _ n small, Bool.and_false,
        if_neg (by decide), twoDigits_written before _ n _ _ small low high]
      simp only
      rw [done, List.length_cons, setFields]
      congr 1
      ring

theorem readFields_written (fields : List TimeField) (numbers : List Nat) (before after : Bytes)
    (tm : Tm) (fits : List.Forall₂ Fits fields numbers) :
    readFields (before ++ numbers.flatMap twoDigitText ++ after) fields before.length tm =
      some (before.length + 2 * numbers.length, setFields fields numbers tm) := by
  simpa [readFields] using readFields_written_append fields [] numbers before after tm fits

theorem zulu_complete (missing : UInt8 → Bool) (numbers : Bytes) (tm : Tm) :
    complete (numbers ++ ['Z'.toUInt8])
        (readZone missing (numbers ++ ['Z'.toUInt8]) numbers.length tm) = some tm := by
  have zulu : octet (numbers ++ ['Z'.toUInt8]) numbers.length = 'Z'.toUInt8 := by simp [octet]
  simp [readZone, zulu, complete]

theorem written_length (numbers : List Nat) :
    (numbers.flatMap twoDigitText).length = 2 * numbers.length := by
  induction numbers with
  | nil => rfl
  | cons n rest ih =>
      simp only [List.flatMap_cons, List.length_append, ih, twoDigitText, List.length_cons,
        List.length_nil]
      ring

theorem utc_written (numbers : List Nat) (count : numbers.length = 6)
    (fits : List.Forall₂ Fits utcFields numbers) :
    (asn1TimeToTm blankTm blankTm
      (some ⟨.utctime, numbers.flatMap twoDigitText ++ ['Z'.toUInt8]⟩)).isSome = true := by
  have done := readFields_written utcFields numbers [] ['Z'.toUInt8] blankTm fits
  have size := written_length numbers
  simp only [List.nil_append, List.length_nil, zero_add] at done
  rw [← size] at done
  simp only [asn1TimeToTm, asn1UtctimeToTm, ne_eq, not_true_eq_false, if_false, List.length_append,
    List.length_singleton]
  rw [if_neg (by omega), done, Option.bind_some, zulu_complete]
  rfl

theorem generalized_written (numbers : List Nat) (count : numbers.length = 7)
    (fits : List.Forall₂ Fits generalizedFields numbers) :
    (asn1TimeToTm blankTm blankTm
      (some ⟨.generalizedtime, numbers.flatMap twoDigitText ++ ['Z'.toUInt8]⟩)).isSome = true := by
  have done := readFields_written generalizedFields numbers [] ['Z'.toUInt8] blankTm fits
  have size := written_length numbers
  simp only [List.nil_append, List.length_nil, zero_add] at done
  rw [← size] at done
  have no_fraction : skipFraction (numbers.flatMap twoDigitText ++ ['Z'.toUInt8])
      (numbers.flatMap twoDigitText).length = some (numbers.flatMap twoDigitText).length := by
    have zulu : octet (numbers.flatMap twoDigitText ++ ['Z'.toUInt8])
        (numbers.flatMap twoDigitText).length ≠ '.'.toUInt8 := by
      simp only [octet, List.getD_append_right _ _ _ _ (le_refl _), Nat.sub_self]
      decide
    rw [skipFraction, if_pos zulu]
  simp only [asn1TimeToTm, asn1GeneralizedtimeToTm, ne_eq, not_true_eq_false, if_false,
    List.length_append, List.length_singleton]
  rw [if_neg (by omega), done, Option.bind_some, no_fraction, Option.bind_some, zulu_complete]
  rfl

def Civil.clockNumbers (civil : Civil) : List Nat :=
  [civil.month, civil.day, civil.hour, civil.minute, civil.second]

theorem clock_fits (civil : Civil) : List.Forall₂ Fits clockFields civil.clockNumbers := by
  have range := civil.in_range
  simp only [clockFields, Civil.clockNumbers, List.forall₂_cons, List.Forall₂.nil, Fits, and_true]
  omega

theorem clockText_numbers (civil : Civil) :
    civil.clockText = civil.clockNumbers.flatMap twoDigitText ++ ['Z'.toUInt8] := by
  simp [Civil.clockText, Civil.clockNumbers]

theorem civil_parses (civil : Civil) :
    (asn1TimeToTm blankTm blankTm (some civil.asn1Time)).isSome = true := by
  have range := civil.in_range
  have clock := clock_fits civil
  unfold Civil.asn1Time
  split
  · have fits : List.Forall₂ Fits utcFields (civil.year % 100 :: civil.clockNumbers) :=
      .cons ⟨Nat.zero_le _, by dsimp only; omega, by omega⟩ clock
    have parses := utc_written _ rfl fits
    rwa [List.flatMap_cons, List.append_assoc, ← clockText_numbers] at parses
  · have fits : List.Forall₂ Fits generalizedFields
        (civil.year / 100 :: civil.year % 100 :: civil.clockNumbers) :=
      .cons ⟨Nat.zero_le _, by dsimp only; omega, by omega⟩
        (.cons ⟨Nat.zero_le _, by dsimp only; omega, by omega⟩ clock)
    have parses := generalized_written _ rfl fits
    rw [List.flatMap_cons, List.flatMap_cons, List.append_assoc, List.append_assoc,
      ← clockText_numbers] at parses
    rwa [List.append_assoc]

variable (sha256 : Bytes → Bytes) (lib : OpenSsl)

/-- The text printed of a time that was set, into a cleared buffer. -/
def timeText (gmtime tm : Tm) (t : Option Asn1Time) : Bytes :=
  match asn1TimeToTm gmtime tm t with
  | none => []
  | some tm => validityText tm

def rootExtensions : List (Oid × Bytes) :=
  [(basicConstraints, "critical,CA:TRUE".toUTF8.data.toList),
    (subjectKeyIdentifier, "hash".toUTF8.data.toList),
    (authorityKeyIdentifier, "keyid:always".toUTF8.data.toList),
    (domainComponent, "no".toUTF8.data.toList), (domain, "no".toUTF8.data.toList)]

/-- `X509_new`; the key is only set in it later. -/
def x509New (pubkey : lib.PubKey) : X509 lib.toKeyTypes where
  subject := []
  issuer := []
  not_before := unsetTime
  not_after := unsetTime
  pubkey := pubkey
  extensions := []
  signature := none

/-- The certificate up to its extensions. -/
def namedRoot (x : X509 lib.toKeyTypes) (rootInfo : StuSubject) (pk : lib.PKey)
    (not_before_time not_after_time : Option Asn1Time) : X509 lib.toKeyTypes :=
  let name := addSubject x.subject rootInfo
  { x with
    subject := name
    issuer := name
    -- X509_gmtime_adj that fails leaves the time as it was
    not_before := not_before_time.getD x.not_before
    not_after := not_after_time.getD x.not_after
    pubkey := lib.publicHalf pk }

/-- `x509p` is the certificate handed in, which is used again; `pk` is the key
generated and assigned; the two clocks are read for the start and for the end. -/
def mkRoot (rootInfo : StuSubject) (x509p : Option (X509 lib.toKeyTypes)) (pk : Option lib.PKey)
    (days first_now second_now : Int) (locals : Locals) : Option (X509 lib.toKeyTypes) :=
  match pk with
  | none => none
  | some pk =>
      let x := x509p.getD (x509New lib (lib.publicHalf pk))
      let not_before_time := lib.gmtimeAdj (first_now + 0)
      let not_before := timeText locals.gmtime locals.tm_not_before not_before_time
      let not_after_time := lib.gmtimeAdj (second_now + SECS_PER_DAY * days)
      let not_after := timeText locals.gmtime locals.tm_not_after not_after_time
      let x := addExtCerts (namedRoot lib x rootInfo pk not_before_time not_after_time) rootExtensions
      let root_code := mkRootCode sha256 rootInfo not_before not_after
      let x := addExtCert x x rootCodeOid root_code
      match lib.sign x pk with
      | none => none
      | some signature => some { x with signature := some signature }

variable {sha256 lib}

/-! The root code is a text the extension can be made of. -/

def lowerHex (c : UInt8) : Bool :=
  ('0'.toUInt8 ≤ c && c ≤ '9'.toUInt8) || ('a'.toUInt8 ≤ c && c ≤ 'f'.toUInt8)

theorem hexPair_lower (item : UInt8) :
    lowerHex (Keys.hexPair item).1 = true ∧ lowerHex (Keys.hexPair item).2 = true := by
  refine Keys.byte_cases (fun item => lowerHex (Keys.hexPair item).1 = true ∧
    lowerHex (Keys.hexPair item).2 = true) ?_ item
  decide +kernel

theorem binToHexString_lower (value : Bytes) : ∀ c ∈ binToHexString value, lowerHex c = true := by
  intro c member
  rw [binToHexString, DigitPairs.encode] at member
  obtain ⟨item, _, digit⟩ := List.mem_flatMap.mp member
  simp only [List.mem_cons, List.not_mem_nil, or_false] at digit
  rcases digit with rfl | rfl
  · exact (hexPair_lower item).1
  · exact (hexPair_lower item).2

theorem lowerHex_printable (c : UInt8) :
    lowerHex c = true → printable c = true ∧ c ≠ 0 := by
  refine Keys.byte_cases (fun c => lowerHex c = true → printable c = true ∧ c ≠ 0) ?_ c
  decide +kernel

theorem rootCode_length (rootInfo : StuSubject) (not_before not_after : Bytes)
    (digest : ∀ text, (sha256 text).length = 32) :
    (mkRootCode sha256 rootInfo not_before not_after).length = 64 := by
  rw [mkRootCode, binToHexString, DigitPairs.encode_length, digest]

theorem rootCode_terminated (rootInfo : StuSubject) (not_before not_after : Bytes) :
    0 ∉ mkRootCode sha256 rootInfo not_before not_after := by
  intro member
  exact (lowerHex_printable 0 (binToHexString_lower _ 0 member)).2 rfl

theorem rootCode_comment (rootInfo : StuSubject) (not_before not_after : Bytes)
    (digest : ∀ text, (sha256 text).length = 32) :
    CommentText (mkRootCode sha256 rootInfo not_before not_after) where
  nonempty := by
    rw [← List.length_pos_iff, rootCode_length rootInfo not_before not_after digest]
    decide
  ascii := fun c member => (lowerHex_printable c (binToHexString_lower _ c member)).1
  unprefixed := by
    intro start member starts
    have foreign : ∀ text ∈ valuePrefixes, text.all lowerHex = false := by decide +kernel
    have lower : start.all lowerHex = true :=
      List.all_eq_true.mpr fun c found => binToHexString_lower _ c (starts.subset found)
    rw [foreign start member] at lower
    cases lower
  short := by
    rw [rootCode_length rootInfo not_before not_after digest]
    decide

theorem rootCode_read (rootInfo : StuSubject) (not_before not_after : Bytes)
    (digest : ∀ text, (sha256 text).length = 32) :
    commentValue (ia5String (mkRootCode sha256 rootInfo not_before not_after)) =
      some (mkRootCode sha256 rootInfo not_before not_after) := by
  have size := rootCode_length rootInfo not_before not_after digest
  rw [ia5String, size, derLength, if_pos (by decide), List.singleton_append, commentValue,
    if_neg (by simp), List.drop_succ_cons, List.drop_succ_cons, List.drop_zero,
    Keys.cString_of_text _ (rootCode_terminated rootInfo not_before not_after)]

/-! What was issued, as the checker finds it. -/

theorem timeText_periodText (gmtime tm : Tm) (t : Asn1Time) :
    timeText gmtime tm (some t) = periodText tm.tm_isdst t := by
  rw [timeText, periodText, parsed_keeps_dst gmtime tm, asn1TimeToTm_gmtime gmtime blankTm]
  cases asn1TimeToTm blankTm blankTm (some t) <;> rfl

/-- The root code a certificate handed in already carries. -/
def carriedCode (x509p : Option (X509 lib.toKeyTypes)) : Option Extension :=
  x509p.bind fun x => x.extensions.find? fun ext => ext.object = rootCodeOid

/-- The names a certificate handed in already holds. -/
def heldSubject (x509p : Option (X509 lib.toKeyTypes)) : X509Name := x509p.elim [] X509.subject

structure Issued (rootInfo : StuSubject) (x509p : Option (X509 lib.toKeyTypes))
    (not_before_time not_after_time : Option Asn1Time) (root_code : Bytes)
    (cert : X509 lib.toKeyTypes) : Prop where
  subject : cert.subject = heldSubject x509p ++ subjectName rootInfo
  begins : cert.not_before = not_before_time.getD (x509p.elim unsetTime X509.not_before)
  ends : cert.not_after = not_after_time.getD (x509p.elim unsetTime X509.not_after)
  stored : ∃ root x, (cert.extensions.find? fun ext => ext.object = rootCodeOid) =
    (carriedCode x509p).or (lib.extConf root x rootCodeOid root_code)

theorem namedRoot_issued (rootInfo : StuSubject) (x509p : Option (X509 lib.toKeyTypes))
    (pk : lib.PKey) (not_before_time not_after_time : Option Asn1Time) (root_code : Bytes) :
    let x := addExtCerts (namedRoot lib (x509p.getD (x509New lib (lib.publicHalf pk))) rootInfo pk
      not_before_time not_after_time) rootExtensions
    Issued rootInfo x509p not_before_time not_after_time root_code
      (addExtCert x x rootCodeOid root_code) := by
  intro x
  obtain ⟨_, same, _⟩ := addExtCerts_added (namedRoot lib
    (x509p.getD (x509New lib (lib.publicHalf pk))) rootInfo pk not_before_time not_after_time)
    rootExtensions
  have before : (x.extensions.find? fun ext => ext.object = rootCodeOid) = carriedCode x509p := by
    rw [added_find rootExtensions _ _ rootCodeOid (addExtCerts_added _ rootExtensions) (by decide)]
    cases x509p <;> rfl
  refine ⟨?_, ?_, ?_, x, x, ?_⟩
  · rw [addExtCert_eq]
    change x.subject = _
    rw [show x = _ from same]
    change addSubject _ rootInfo = _
    rw [addSubject_append]
    cases x509p <;> rfl
  · rw [addExtCert_eq]
    change x.not_before = _
    rw [show x = _ from same]
    cases x509p <;> rfl
  · rw [addExtCert_eq]
    change x.not_after = _
    rw [show x = _ from same]
    cases x509p <;> rfl
  · rw [addExtCert_find, before, if_pos rfl]

theorem mkRoot_issued (rootInfo : StuSubject) (x509p : Option (X509 lib.toKeyTypes))
    (pk : Option lib.PKey) (days first_now second_now : Int) (locals : Locals)
    (cert : X509 lib.toKeyTypes)
    (made : mkRoot sha256 lib rootInfo x509p pk days first_now second_now locals = some cert) :
    Issued rootInfo x509p (lib.gmtimeAdj (first_now + 0))
      (lib.gmtimeAdj (second_now + SECS_PER_DAY * days))
      (mkRootCode sha256 rootInfo
        (timeText locals.gmtime locals.tm_not_before (lib.gmtimeAdj (first_now + 0)))
        (timeText locals.gmtime locals.tm_not_after
          (lib.gmtimeAdj (second_now + SECS_PER_DAY * days)))) cert := by
  unfold mkRoot at made
  cases pk with
  | none => cases made
  | some pk =>
      simp only at made
      split at made
      · cases made
      · obtain rfl := Option.some.inj made
        obtain ⟨subject, begins, ends, stored⟩ := namedRoot_issued rootInfo x509p pk
          (lib.gmtimeAdj (first_now + 0)) (lib.gmtimeAdj (second_now + SECS_PER_DAY * days))
          (mkRootCode sha256 rootInfo
            (timeText locals.gmtime locals.tm_not_before (lib.gmtimeAdj (first_now + 0)))
            (timeText locals.gmtime locals.tm_not_after
              (lib.gmtimeAdj (second_now + SECS_PER_DAY * days))))
        exact ⟨subject, begins, ends, stored⟩

/-- The names the root code is made of. -/
def codeNids : List NameNid := [.commonName, .pkcs9_emailAddress, .organizationalUnitName]

/-- The fields put in a name read back as they were, where the name held none of
their kinds. -/
theorem issued_source (rootInfo : StuSubject) (held : X509Name) (not_before not_after : Bytes)
    (printed : ∀ field ∈ [rootInfo.CN, rootInfo.MAIL, rootInfo.OU], ∀ c ∈ field.val,
      printable c = true)
    (unnamed : ∀ entry ∈ held, entry.nid ∉ codeNids) :
    rootCodeSource (readSubject (held ++ subjectName rootInfo) .cleared) not_before not_after =
      rootCodeSource rootInfo not_before not_after := by
  have ascii : ∀ field ∈ [rootInfo.CN, rootInfo.MAIL, rootInfo.OU], ∀ c ∈ field.val, c < 0x80 := by
    intro field member c found
    have range := printed field member c found
    simp only [printable, Bool.and_eq_true, decide_eq_true_eq, UInt8.le_iff_toNat_le,
      UInt8.reduceToNat] at range
    simp only [UInt8.lt_iff_toNat_lt, UInt8.reduceToNat]
    omega
  have stored : ∀ nid ∈ codeNids,
      firstValue (held ++ subjectName rootInfo) nid = firstValue (subjectName rootInfo) nid := by
    intro nid member
    have absent : (held.find? fun entry => entry.nid = nid) = none := by
      rw [List.find?_eq_none]
      intro entry found own
      exact unnamed entry found (of_decide_eq_true own ▸ member)
    rw [firstValue, List.find?_append, absent, Option.none_or, firstValue]
  have own := firstValue_subject rootInfo
  have common : (readSubject (held ++ subjectName rootInfo) .cleared).CN = rootInfo.CN :=
    read_back_ascii _ _ _ (by decide) (ascii _ (by simp))
      ((stored .commonName (by decide)).trans (own .commonName))
  have mail : (readSubject (held ++ subjectName rootInfo) .cleared).MAIL = rootInfo.MAIL :=
    read_back_ascii _ _ _ (by decide) (ascii _ (by simp))
      ((stored .pkcs9_emailAddress (by decide)).trans (own .pkcs9_emailAddress))
  have unit : (readSubject (held ++ subjectName rootInfo) .cleared).OU = rootInfo.OU :=
    read_back_ascii _ _ _ (by decide) (ascii _ (by simp))
      ((stored .organizationalUnitName (by decide)).trans (own .organizationalUnitName))
  rw [rootCodeSource, rootCodeSource, common, mail, unit]

/-- What `mkRoot` hashes. -/
def issuedSource (lib : OpenSsl) (rootInfo : StuSubject) (days first_now second_now : Int)
    (locals : Locals) : Bytes :=
  rootCodeSource rootInfo
    (timeText locals.gmtime locals.tm_not_before (lib.gmtimeAdj (first_now + 0)))
    (timeText locals.gmtime locals.tm_not_after (lib.gmtimeAdj (second_now + SECS_PER_DAY * days)))

/-- What `CheckRootCert` hashes of a certificate with this name and these times. -/
def checkedSource (name : X509Name) (not_before not_after : Asn1Time) (locals : Locals) : Bytes :=
  rootCodeSource (readSubject name .cleared) (periodText locals.tm_not_before.tm_isdst not_before)
    (periodText locals.tm_not_after.tm_isdst not_after)

/-- The certificate handed in, if any, held no name of the kinds hashed, both times
were written anew, and both runs find the daylight saving of their locals alike. -/
structure ReadAlike (lib : OpenSsl) (x509p : Option (X509 lib.toKeyTypes))
    (days first_now second_now : Int) (issue check : Locals) : Prop where
  names : ∀ entry ∈ heldSubject x509p, entry.nid ∉ codeNids
  begins_written : (lib.gmtimeAdj (first_now + 0)).isSome = true
  ends_written : (lib.gmtimeAdj (second_now + SECS_PER_DAY * days)).isSome = true
  begins : issue.tm_not_before.tm_isdst = 1 ↔ check.tm_not_before.tm_isdst = 1
  ends : issue.tm_not_after.tm_isdst = 1 ↔ check.tm_not_after.tm_isdst = 1

theorem written_text (second : Int) (kept : Asn1Time) (gmtime issue check : Tm)
    (written : (lib.gmtimeAdj second).isSome = true)
    (alike : issue.tm_isdst = 1 ↔ check.tm_isdst = 1) :
    timeText gmtime issue (lib.gmtimeAdj second) =
      periodText check.tm_isdst ((lib.gmtimeAdj second).getD kept) := by
  obtain ⟨t, found⟩ := Option.isSome_iff_exists.mp written
  obtain ⟨_, civil, rfl⟩ := lib.gmtimeAdj_written second t found
  rw [found, Option.getD_some, timeText_periodText]
  exact (periodText_eq_iff _ _ _ (civil_parses civil)).mpr alike

theorem alike_sources (rootInfo : StuSubject) (x509p : Option (X509 lib.toKeyTypes))
    (days first_now second_now : Int) (issue check : Locals) (root_code : Bytes)
    (cert : X509 lib.toKeyTypes)
    (printed : ∀ field ∈ [rootInfo.CN, rootInfo.MAIL, rootInfo.OU], ∀ c ∈ field.val,
      printable c = true)
    (issued : Issued rootInfo x509p (lib.gmtimeAdj (first_now + 0))
      (lib.gmtimeAdj (second_now + SECS_PER_DAY * days)) root_code cert)
    (alike : ReadAlike lib x509p days first_now second_now issue check) :
    issuedSource lib rootInfo days first_now second_now issue =
      checkedSource cert.subject cert.not_before cert.not_after check := by
  have texts := issued_source rootInfo (heldSubject x509p)
    (periodText check.tm_not_before.tm_isdst cert.not_before)
    (periodText check.tm_not_after.tm_isdst cert.not_after) printed alike.names
  rw [checkedSource, issued.subject, texts, issuedSource, issued.begins, issued.ends,
    written_text _ _ _ _ _ alike.begins_written alike.begins,
    written_text _ _ _ _ _ alike.ends_written alike.ends]

/-- A certificate made reads back as the first root code it carries: one it was
handed in with, or else the one just added. -/
theorem stored_code_read (cert root x : X509 lib.toKeyTypes) (rootInfo : StuSubject)
    (not_before not_after : Bytes) (digest : ∀ text, (sha256 text).length = 32)
    (stored : (cert.extensions.find? fun ext => ext.object = rootCodeOid) =
      lib.extConf root x rootCodeOid (mkRootCode sha256 rootInfo not_before not_after))
    (root_ext_len : Nat) (room : 65 ≤ root_ext_len) :
    getRootCode lib cert root_ext_len = .ok (mkRootCode sha256 rootInfo not_before not_after) := by
  have size := rootCode_length rootInfo not_before not_after digest
  have made := lib.extConf_comment root x rootCodeOid _ (by decide)
    (rootCode_comment rootInfo not_before not_after digest)
  rw [getRootCode, getExtensionData, stored, made]
  simp only [rootCode_read rootInfo not_before not_after digest, size]
  rw [if_neg (by omega), if_neg (by omega)]

theorem carried_code_read_iff (cert : X509 lib.toKeyTypes) (ext : Extension)
    (carried : (cert.extensions.find? fun ext => ext.object = rootCodeOid) = some ext)
    (root_ext_len : Nat) (code : Bytes) :
    getRootCode lib cert root_ext_len = .ok code ↔
      commentValue ext.data = some code ∧ code.length < root_ext_len := by
  rw [getRootCode, getExtensionData, carried]
  simp only
  cases commentValue ext.data with
  | none => simp
  | some text =>
      simp only [Option.some.injEq]
      constructor
      · intro read
        split_ifs at read with longer full
        obtain rfl := Except.ok.inj read
        exact ⟨rfl, by omega⟩
      · rintro ⟨rfl, room⟩
        rw [if_neg (by omega), if_neg (by omega)]

theorem issued_passes_iff (cert : X509 lib.toKeyTypes) (begin_second end_second later : Int)
    (begins : lib.instant cert.not_before = some begin_second)
    (ends : lib.instant cert.not_after = some end_second) (started : begin_second ≤ later) :
    TimesPass lib cert later ↔ later < end_second ∧
      (asn1TimeToTm blankTm blankTm (some cert.not_before)).isSome = true ∧
        (asn1TimeToTm blankTm blankTm (some cert.not_after)).isSome = true := by
  simp [TimesPass, begins, ends, started]

theorem checks_iff_code (cert : X509 lib.toKeyTypes) (root_ext_len : Nat) (later : Int)
    (check : Locals) :
    (∃ code, getRootCode lib cert root_ext_len = .ok code ∧
        checkRootCert sha256 lib cert root_ext_len later check = .ok code) ↔
      TimesPass lib cert later ∧ getRootCode lib cert root_ext_len = .ok (binToHexString
        (sha256 (checkedSource cert.subject cert.not_before cert.not_after check))) := by
  constructor
  · rintro ⟨code, read, accepted⟩
    obtain ⟨passed, _, rfl⟩ := (checkRootCert_ok_iff ..).mp accepted
    exact ⟨passed, read⟩
  · rintro ⟨passed, read⟩
    exact ⟨_, read, (checkRootCert_ok_iff ..).mpr ⟨passed, read, rfl⟩⟩

/-- A certificate `mkRoot` made passes from its start on exactly where the time is
before its last second and its times can be parsed, and, where it was made anew or of
one without a root code, both runs read the same or the two texts they hashed have one
digest, and otherwise the root code it was handed in with is the one looked for. -/
theorem root_cert_checks_iff (lib : OpenSsl) (sha256 : Bytes → Bytes)
    (digest : ∀ text, (sha256 text).length = 32) (rootInfo : StuSubject)
    (printed : ∀ field ∈ [rootInfo.CN, rootInfo.MAIL, rootInfo.OU], ∀ c ∈ field.val,
      printable c = true)
    (x509p : Option (X509 lib.toKeyTypes)) (pk : Option lib.PKey)
    (days first_now second_now : Int) (issue : Locals) (cert : X509 lib.toKeyTypes)
    (made : mkRoot sha256 lib rootInfo x509p pk days first_now second_now issue = some cert)
    (begin_second end_second later : Int) (begins : lib.instant cert.not_before = some begin_second)
    (ends : lib.instant cert.not_after = some end_second) (started : begin_second ≤ later)
    (root_ext_len : Nat) (room : 65 ≤ root_ext_len) (check : Locals) :
    (∃ code, getRootCode lib cert root_ext_len = .ok code ∧
        checkRootCert sha256 lib cert root_ext_len later check = .ok code) ↔
      (later < end_second ∧
        (asn1TimeToTm blankTm blankTm (some cert.not_before)).isSome = true ∧
          (asn1TimeToTm blankTm blankTm (some cert.not_after)).isSome = true) ∧
        match carriedCode x509p with
        | none => ReadAlike lib x509p days first_now second_now issue check ∨
            sha256 (issuedSource lib rootInfo days first_now second_now issue) =
              sha256 (checkedSource (heldSubject x509p ++ subjectName rootInfo) cert.not_before
                cert.not_after check)
        | some ext => commentValue ext.data = some (binToHexString
            (sha256 (checkedSource (heldSubject x509p ++ subjectName rootInfo) cert.not_before
              cert.not_after check))) := by
  have issued := mkRoot_issued rootInfo x509p pk days first_now second_now issue cert made
  have names := issued.subject
  obtain ⟨root, x, stored⟩ := issued.stored
  rw [checks_iff_code, issued_passes_iff cert begin_second end_second later begins ends started,
    names]
  apply and_congr_right
  intro _
  -- the first root code of the certificate is the one handed in, or else the new one
  cases carried : carriedCode x509p with
  | none =>
      rw [carried, Option.none_or] at stored
      rw [stored_code_read cert root x rootInfo _ _ digest stored root_ext_len room,
        Except.ok.injEq, mkRootCode, binToHexString_injective.eq_iff]
      constructor
      · exact .inr
      · rintro (alike | same)
        · have sources := alike_sources rootInfo x509p days first_now second_now issue check _ cert
            printed issued alike
          rw [names] at sources
          exact congrArg sha256 sources
        · exact same
  | some ext =>
      rw [carried, Option.some_or] at stored
      rw [carried_code_read_iff cert ext stored, and_iff_left_iff_imp]
      intro _
      rw [binToHexString, DigitPairs.encode_length, digest]
      omega

def blankLocals : Locals := ⟨blankTm, blankTm, blankTm⟩

/-- The last thirty-two bytes of a text, for a digest. -/
def tailDigest (text : Bytes) : Bytes := (text.reverse ++ List.replicate 32 0).take 32

def plainRoot : X509 plainOpenSsl.toKeyTypes :=
  (mkRoot tailDigest plainOpenSsl genuineName none (some sevenKey) 1 1520244900 1520244900
    blankLocals).getD forgedCert

theorem plainRoot_made :
    mkRoot tailDigest plainOpenSsl genuineName none (some sevenKey) 1 1520244900 1520244900 blankLocals =
      some plainRoot := rfl

theorem root_cert_checks_iff_applies :
    ∃ code, getRootCode plainOpenSsl plainRoot 65 = .ok code ∧
      checkRootCert tailDigest plainOpenSsl plainRoot 65 1520300000 blankLocals = .ok code := by
  have begins : plainOpenSsl.instant plainRoot.not_before = some 1520244900 := by decide +kernel
  have ends : plainOpenSsl.instant plainRoot.not_after = some 1520331300 := by decide +kernel
  exact (root_cert_checks_iff plainOpenSsl tailDigest (by simp [tailDigest]) genuineName
    (by decide +kernel) none (some sevenKey) 1 1520244900 1520244900 blankLocals plainRoot
    plainRoot_made 1520244900 1520331300 1520300000 begins ends (by decide) 65 (by decide)
    blankLocals).mpr ⟨by decide +kernel, .inl
      ⟨nofun, by decide +kernel, by decide +kernel, Iff.rfl, Iff.rfl⟩⟩

/-- One for no day, and the same handed in again for a day. -/
def endedRoot : X509 plainOpenSsl.toKeyTypes :=
  (mkRoot tailDigest plainOpenSsl genuineName none (some sevenKey) 0 1520244900 1520244900
    blankLocals).getD forgedCert

def renewedRoot : X509 plainOpenSsl.toKeyTypes :=
  (mkRoot tailDigest plainOpenSsl genuineName (some endedRoot) (some sevenKey) 1 1520244900
    1520244900 blankLocals).getD forgedCert

theorem renewedRoot_made :
    mkRoot tailDigest plainOpenSsl genuineName (some endedRoot) (some sevenKey) 1 1520244900
      1520244900 blankLocals = some renewedRoot := rfl

/-- The checker's local for the start holds a one; and a certificate handed in again is
refused, with locals that are alike, for the root code of its first period. -/
theorem made_root_refused :
    mkRoot tailDigest plainOpenSsl genuineName none (some sevenKey) 1 1520244900 1520244900
        blankLocals = some plainRoot ∧
      checkRootCert tailDigest plainOpenSsl plainRoot 65 1520300000
          ⟨blankTm, blankTm.withDst 1, blankTm⟩ =
        .error (.refused ("this root certificate is not match with this version of echain, " ++
          "please contact the echain official!")) ∧
      mkRoot tailDigest plainOpenSsl genuineName (some endedRoot) (some sevenKey) 1 1520244900
        1520244900 blankLocals = some renewedRoot ∧
      checkRootCert tailDigest plainOpenSsl renewedRoot 65 1520300000 blankLocals =
        .error (.refused ("this root certificate is not match with this version of echain, " ++
          "please contact the echain official!")) := by
  exact ⟨plainRoot_made, by decide +kernel, renewedRoot_made, by decide +kernel⟩

end EChainLib.Ca
