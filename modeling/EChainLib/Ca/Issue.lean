import Mathlib
import EChainLib.Ca.Certificate

/-! `CA::MakeCert` and `CA::GetCAEnabled`. The request's extensions are copied before
the issuer's own are appended, and a reader takes the first of an OID. -/

namespace EChainLib.Ca

open Keys (Bytes)

variable (lib : OpenSsl)

structure StuKeyUsage where
  DS : Bool
  NR : Bool
  KE : Bool
  DE : Bool
  KA : Bool
  KC : Bool
  CS : Bool
  EO : Bool
  DO : Bool

structure StuEKeyUsage where
  SA : Bool
  CA : Bool
  CS : Bool
  EP : Bool
  TS : Bool
  msCC : Bool
  msCTLS : Bool
  msSGC : Bool
  msEFS : Bool
  msSC : Bool
  IP : Bool

/-- The names of the flags that are set, with commas between them. -/
def usageText (flags : List (Bool × String)) : String :=
  ",".intercalate ((flags.filter Prod.fst).map Prod.snd)

def kusage (KUSAGE : StuKeyUsage) : String :=
  usageText [(KUSAGE.DS, "digitalSignature"), (KUSAGE.NR, "nonRepudiation"),
    (KUSAGE.KE, "keyEncipherment"), (KUSAGE.DE, "dataEncipherment"), (KUSAGE.KA, "keyAgreement"),
    (KUSAGE.KC, "keyCertSign"), (KUSAGE.CS, "cRLSign"), (KUSAGE.EO, "encipherOnly"),
    (KUSAGE.DO, "decipherOnly")]

def ekusage (EKUSAGE : StuEKeyUsage) : String :=
  usageText [(EKUSAGE.SA, "serverAuth"), (EKUSAGE.CA, "clientAuth"), (EKUSAGE.CS, "codeSigning"),
    (EKUSAGE.EP, "emailProtection"), (EKUSAGE.TS, "timeStamping"), (EKUSAGE.msCC, "msCodeCom"),
    (EKUSAGE.msCTLS, "msCTLSign"), (EKUSAGE.msSGC, "msSGC"), (EKUSAGE.msEFS, "msEFS"),
    (EKUSAGE.msSC, "msSmartcardLogin"), (EKUSAGE.IP, "ipsecEndSystem,ipsecTunnel,ipsecUser")]

def bytesOf (text : String) : Bytes := text.toUTF8.data.toList

inductive ExtCopy where
  | none
  | add
  | all
  deriving DecidableEq

/-- One round of the loop of `copy_extensions`, on the certificate's extensions. -/
def copyExtension (copy_type : ExtCopy) (exts : List Extension) (ext : Extension) :
    List Extension :=
  if exts.any fun tmpext => tmpext.object = ext.object then
    if copy_type = .add then exts
    else (exts.filter fun tmpext => tmpext.object ≠ ext.object) ++ [ext]
  else exts ++ [ext]

def copyExtensions (x : X509 lib.toKeyTypes) (req : X509Req lib.toKeyTypes) (copy_type : ExtCopy) :
    X509 lib.toKeyTypes :=
  if copy_type = .none then x
  else { x with extensions := req.extensions.foldl (copyExtension copy_type) x.extensions }

/-- Which of the calls from the digest to the last field set succeed. -/
structure BodyCalls where
  get_digestbyname : Bool
  req_get_pubkey : Bool
  x509_new : Bool
  set_version : Bool
  rand_serial : Bool
  set_issuer_name : Bool
  set_subject_name : Bool
  set_pubkey : Bool

/-- The issuer's own extensions up to the key usages. -/
def defaultExtensions : List (Oid × Bytes) :=
  [(basicConstraints, bytesOf "critical,CA:FALSE"), (subjectKeyIdentifier, bytesOf "hash")]

def usageExtensions (KUSAGE : StuKeyUsage) (EKUSAGE : StuEKeyUsage) : List (Oid × Bytes) :=
  (if kusage KUSAGE = "" then [] else [(keyUsage, bytesOf (kusage KUSAGE))]) ++
    if ekusage EKUSAGE = "" then [] else [(extKeyUsage, bytesOf (ekusage EKUSAGE))]

/-- The text of the extension that says whether the certificate is a CA's. -/
def useCaText (ca_enable : Bool) : Bytes := bytesOf (if ca_enable then "true" else "false")

/-- What is read of the subject for the caller, into buffers of these lengths. -/
structure Applicant (o_len cn_len mail_len : Nat) where
  organization : Field o_len
  common_name : Field cn_len
  email : Field mail_len

variable {o_len cn_len mail_len : Nat}

/-- The times of the certificate; the clock is read for each. -/
def bodyPeriod (startdate : String) (enddate : Option Bytes) (days first_now second_now : Int) :
    Asn1Time × Asn1Time :=
  let not_before :=
    if startdate = "today" then lib.gmtimeAdj (first_now + 0)
    else lib.utctimeSetString (bytesOf startdate)
  let not_after :=
    match enddate with
    | none => lib.gmtimeAdj (second_now + 60 * 60 * 24 * days)
    | some enddate => lib.utctimeSetString enddate
  (not_before.getD unsetTime, not_after.getD unsetTime)

/-- `CA::do_body`. -/
def doBody (pkey : lib.PKey) (x509 : X509 lib.toKeyTypes) (calls : BodyCalls) (startdate : String)
    (enddate : Option Bytes) (days first_now second_now : Int) (req : X509Req lib.toKeyTypes)
    (KUSAGE : StuKeyUsage) (EKUSAGE : StuEKeyUsage) (ca_enable : Bool)
    (applicant : Applicant o_len cn_len mail_len) :
    Except Failure (X509 lib.toKeyTypes × Applicant o_len cn_len mail_len) :=
  let name := req.subject
  if !calls.x509_new then .error (.refused "X509_new failed")
  else if !calls.set_version then .error (.refused "X509_set_version failed")
  else if !calls.rand_serial then .error (.refused "rand_serial failed")
  else if !calls.set_issuer_name then .error (.refused "X509_set_issuer_name failed")
  else if !calls.set_subject_name then .error (.refused "X509_set_subject_name failed")
  else if !calls.set_pubkey then .error (.refused "X509_set_pubkey failed")
  else
    let period := bodyPeriod lib startdate enddate days first_now second_now
    let ret : X509 lib.toKeyTypes :=
      { subject := name, issuer := x509.subject, not_before := period.1, not_after := period.2
        pubkey := req.pubkey, extensions := [], signature := none }
    let ret := copyExtensions lib ret req .all
    let ret := addExtCerts ret defaultExtensions
    let ret := addExtCert ret x509 authorityKeyIdentifier (bytesOf "keyid,issuer:always")
    let ret := addExtCerts ret (usageExtensions KUSAGE EKUSAGE)
    let ret := addExtCert ret ret useCa (useCaText ca_enable)
    match lib.sign ret pkey with
    | none => .error (.refused "X509_sign failex")
    | some signature =>
        .ok ({ ret with signature := some signature },
          { organization := getTextByNid name .organizationName applicant.organization
            common_name := getTextByNid name .commonName applicant.common_name
            email := getTextByNid name .pkcs9_emailAddress applicant.email })

/-- `CA::certify`. -/
def certify (pkey : lib.PKey) (x509 : X509 lib.toKeyTypes) (calls : BodyCalls) (startdate : String)
    (enddate : Option Bytes) (days first_now second_now : Int) (req : X509Req lib.toKeyTypes)
    (KUSAGE : StuKeyUsage) (EKUSAGE : StuEKeyUsage) (ca_enable : Bool)
    (applicant : Applicant o_len cn_len mail_len) :
    Except Failure (X509 lib.toKeyTypes × Applicant o_len cn_len mail_len) :=
  let i := lib.reqVerify req req.pubkey
  if !calls.req_get_pubkey then .error (.refused "error unpacking public key")
  else if i < 0 then .error (.refused "Signature verification problems.")
  else if i = 0 then .error (.refused "Signature did not match the certificate request")
  else
    doBody lib pkey x509 calls startdate enddate days first_now second_now req KUSAGE EKUSAGE
      ca_enable applicant

inductive FileType where
  | der
  | pem
  | other
  deriving DecidableEq

/-- The files as they are found: whether the two open, and what is read of them. -/
structure MakeFiles where
  reqfile : String
  outfile : String
  keyfile : String
  certfile : String
  reqfile_opens : Bool
  outfile_opens : Bool
  req : Option (X509Req lib.toKeyTypes)
  prkey : Option lib.PKey
  x509 : Option (X509 lib.toKeyTypes)

/-- `CA::MakeCert`: the certificate it writes. -/
def makeCert (files : MakeFiles lib) (calls : BodyCalls) (enddate : Option Bytes)
    (days first_now second_now : Int) (KUSAGE : StuKeyUsage) (EKUSAGE : StuEKeyUsage)
    (ca_enable : Bool) (applicant : Applicant o_len cn_len mail_len) (type : FileType) :
    Except Failure (X509 lib.toKeyTypes × Applicant o_len cn_len mail_len) :=
  if !files.reqfile_opens || !files.outfile_opens then
    .error (.refused ("open file(" ++
      (if files.reqfile_opens then files.outfile else files.reqfile) ++ ") failed"))
  else
    match files.req with
    | none => .error (.refused "error get certificate request")
    | some req =>
        match files.prkey with
        | none => .error (.refused ("loadKey(" ++ files.keyfile ++ ") failed"))
        | some prkey =>
            match files.x509 with
            | none => .error (.refused ("loadCert(" ++ files.certfile ++ ") failed"))
            | some x509 =>
                if !lib.samePublicKey x509.pubkey (lib.publicHalf prkey) then
                  .error (.refused "ca certificate and ca private key do not match")
                else if !calls.get_digestbyname then
                  .error (.refused "sha256 is an unsupported message digest type")
                else
                  match certify lib prkey x509 calls "today" enddate days first_now second_now req
                      KUSAGE EKUSAGE ca_enable applicant with
                  | .error failure => .error failure
                  | .ok made =>
                      if type = .other then .error (.refused "generate Cert File Error") else .ok made

/-- `CA::GetCAEnabled`. -/
def getCAEnabled (cert_file : String) (x509 : Option (X509 lib.toKeyTypes)) : Except Failure Bool :=
  match x509 with
  | none => .error (.refused ("load ca " ++ cert_file ++ " failed"))
  | some x509 =>
      match getExtensionData x509 useCa 10 with
      | .error failure => .error failure
      | .ok ca_status => .ok (ca_status = bytesOf "true")

variable {lib}

/-! The last extension of an OID in the request is the only one that is left. -/

def lastExtension (exts : List Extension) (oid : Oid) : Option Extension :=
  (exts.filter fun ext => ext.object = oid).getLast?

theorem copyExtension_filter (exts : List Extension) (ext : Extension) (oid : Oid) :
    (copyExtension .all exts ext).filter (fun other => other.object = oid) =
      if ext.object = oid then [ext] else exts.filter fun other => other.object = oid := by
  unfold copyExtension
  by_cases own : ext.object = oid
  · subst own
    by_cases present : exts.any (fun tmpext => tmpext.object = ext.object) = true
    · simp [present, List.filter_append, List.filter_filter]
    · have absent : exts.filter (fun other => other.object = ext.object) = [] := by
        simpa using present
      simp [present, List.filter_append, absent]
  · have kept : (exts.filter fun tmpext => tmpext.object ≠ ext.object).filter
        (fun other => other.object = oid) = exts.filter fun other => other.object = oid := by
      rw [List.filter_filter]
      apply List.filter_congr
      intro other _
      by_cases same : other.object = oid
      · simp [same, Ne.symm own]
      · simp [same]
    by_cases present : exts.any (fun tmpext => tmpext.object = ext.object) = true
    · rw [if_pos present, if_neg (by decide), List.filter_append, kept]
      simp [own]
    · simp [present, List.filter_append, own]

theorem copied_filter (exts before : List Extension) (oid : Oid) :
    (exts.foldl (copyExtension .all) before).filter (fun ext => ext.object = oid) =
      match lastExtension exts oid with
      | some ext => [ext]
      | none => before.filter fun ext => ext.object = oid := by
  induction exts generalizing before with
  | nil => rfl
  | cons ext rest ih =>
      rw [List.foldl_cons, ih, copyExtension_filter]
      by_cases own : ext.object = oid
      · have found : lastExtension (ext :: rest) oid = (lastExtension rest oid).or (some ext) := by
          rw [lastExtension, List.filter_cons_of_pos (by simpa using own), List.getLast?_cons]
          cases last : (rest.filter fun ext => ext.object = oid).getLast? <;>
            simp [lastExtension, last]
        rw [found, if_pos own]
        cases lastExtension rest oid <;> rfl
      · have found : lastExtension (ext :: rest) oid = lastExtension rest oid := by
          simp [lastExtension, own]
        rw [found, if_neg own]

/-- What is issued: the copied extensions, the issuer's own, and last the one that says
whether it is a CA's. -/
structure IssuedExtensions (lib : OpenSsl) (req_extensions : List Extension) (KUSAGE : StuKeyUsage)
    (EKUSAGE : StuEKeyUsage) (ca_enable : Bool) (cert_extensions : List Extension) : Prop where
  parts : ∃ copied ret : X509 lib.toKeyTypes,
    copied.extensions = req_extensions.foldl (copyExtension .all) [] ∧
      Added (defaultExtensions ++ [(authorityKeyIdentifier, bytesOf "keyid,issuer:always")] ++
        usageExtensions KUSAGE EKUSAGE) copied ret ∧
      cert_extensions = (addExtCert ret ret useCa (useCaText ca_enable)).extensions

theorem doBody_issued (pkey : lib.PKey) (x509 : X509 lib.toKeyTypes) (calls : BodyCalls)
    (startdate : String) (enddate : Option Bytes) (days first_now second_now : Int)
    (req : X509Req lib.toKeyTypes) (KUSAGE : StuKeyUsage) (EKUSAGE : StuEKeyUsage)
    (ca_enable : Bool) (applicant : Applicant o_len cn_len mail_len)
    (issued : X509 lib.toKeyTypes × Applicant o_len cn_len mail_len)
    (made : doBody lib pkey x509 calls startdate enddate days first_now second_now req KUSAGE EKUSAGE
      ca_enable applicant = .ok issued) :
    IssuedExtensions lib req.extensions KUSAGE EKUSAGE ca_enable issued.1.extensions := by
  unfold doBody at made
  simp only at made
  split_ifs at made
  split at made
  · cases made
  · obtain rfl := Except.ok.inj made
    refine ⟨_, _, ?_, added_trans _ _ _ _ _ (added_trans _ _ _ _ _ (addExtCerts_added _ _)
      (addExtCert_added _ _ _ _)) (addExtCerts_added _ _), rfl⟩
    rfl

theorem certify_issued (pkey : lib.PKey) (x509 : X509 lib.toKeyTypes) (calls : BodyCalls)
    (startdate : String) (enddate : Option Bytes) (days first_now second_now : Int)
    (req : X509Req lib.toKeyTypes) (KUSAGE : StuKeyUsage) (EKUSAGE : StuEKeyUsage)
    (ca_enable : Bool) (applicant : Applicant o_len cn_len mail_len)
    (issued : X509 lib.toKeyTypes × Applicant o_len cn_len mail_len)
    (made : certify lib pkey x509 calls startdate enddate days first_now second_now req KUSAGE EKUSAGE
      ca_enable applicant = .ok issued) :
    IssuedExtensions lib req.extensions KUSAGE EKUSAGE ca_enable issued.1.extensions := by
  unfold certify at made
  simp only at made
  split_ifs at made
  exact doBody_issued _ _ _ _ _ _ _ _ _ _ _ _ _ _ made

theorem makeCert_issued (files : MakeFiles lib) (calls : BodyCalls) (enddate : Option Bytes)
    (days first_now second_now : Int) (KUSAGE : StuKeyUsage) (EKUSAGE : StuEKeyUsage)
    (ca_enable : Bool) (applicant : Applicant o_len cn_len mail_len) (type : FileType)
    (issued : X509 lib.toKeyTypes × Applicant o_len cn_len mail_len)
    (made : makeCert lib files calls enddate days first_now second_now KUSAGE EKUSAGE ca_enable
      applicant type = .ok issued) :
    ∃ req, files.req = some req ∧
      IssuedExtensions lib req.extensions KUSAGE EKUSAGE ca_enable issued.1.extensions := by
  unfold makeCert at made
  split at made
  · cases made
  · cases read : files.req with
    | none => simp [read] at made
    | some req =>
        cases key : files.prkey with
        | none => simp [read, key] at made
        | some prkey =>
            cases cert : files.x509 with
            | none => simp [read, key, cert] at made
            | some x509 =>
                simp only [read, key, cert] at made
                split at made
                · cases made
                · split at made
                  · cases made
                  · cases body : certify lib prkey x509 calls "today" enddate days first_now second_now
                      req KUSAGE EKUSAGE ca_enable applicant with
                    | error failure => simp [body] at made
                    | ok written =>
                        simp only [body] at made
                        split at made
                        · cases made
                        · obtain rfl := Except.ok.inj made
                          exact ⟨req, rfl, certify_issued _ _ _ _ _ _ _ _ _ _ _ _ _ _ body⟩

/-- The OIDs of the issuer's own extensions but the last. -/
def issuerOids : List Oid :=
  [basicConstraints, subjectKeyIdentifier, authorityKeyIdentifier, keyUsage, extKeyUsage]

theorem issuer_calls (KUSAGE : StuKeyUsage) (EKUSAGE : StuEKeyUsage) (call : Oid × Bytes)
    (member : call ∈ defaultExtensions ++
      [(authorityKeyIdentifier, bytesOf "keyid,issuer:always")] ++ usageExtensions KUSAGE EKUSAGE) :
    call.1 ∈ issuerOids ∧
      (call.1 = basicConstraints → call.2 = "critical,CA:FALSE".toUTF8.data.toList) := by
  have usages : ∀ usage ∈ usageExtensions KUSAGE EKUSAGE, usage.1 = keyUsage ∨ usage.1 = extKeyUsage := by
    intro usage found
    unfold usageExtensions at found
    rcases List.mem_append.mp found with found | found
    · split at found
      · cases found
      · exact .inl (congrArg Prod.fst (List.mem_singleton.mp found))
    · split at found
      · cases found
      · exact .inr (congrArg Prod.fst (List.mem_singleton.mp found))
  rcases List.mem_append.mp member with fixed | usage
  · simp only [defaultExtensions, List.cons_append, List.nil_append, List.mem_cons,
      List.not_mem_nil, or_false] at fixed
    rcases fixed with rfl | rfl | rfl
    · exact ⟨by decide, fun _ => rfl⟩
    · exact ⟨by decide, fun same => absurd same (by decide)⟩
    · exact ⟨by decide, fun same => absurd same (by decide)⟩
  · rcases usages call usage with same | same
    · rw [same]
      exact ⟨by decide, fun same => absurd same (by decide)⟩
    · rw [same]
      exact ⟨by decide, fun same => absurd same (by decide)⟩

theorem useCaText_comment (ca_enable : Bool) : CommentText (useCaText ca_enable) := by
  cases ca_enable with
  | false =>
      exact ⟨by decide +kernel, by decide +kernel, by decide +kernel, by decide +kernel⟩
  | true =>
      exact ⟨by decide +kernel, by decide +kernel, by decide +kernel, by decide +kernel⟩

theorem copied_find (exts : List Extension) (oid : Oid) :
    ((exts.foldl (copyExtension .all) []).find? fun ext => ext.object = oid) =
      lastExtension exts oid := by
  rw [← List.head?_filter, copied_filter]
  cases lastExtension exts oid <;> rfl

/-- The request's extension of an OID comes first, then the issuer's own. -/
theorem issued_find (req_extensions cert_extensions : List Extension) (KUSAGE : StuKeyUsage)
    (EKUSAGE : StuEKeyUsage) (ca_enable : Bool) (oid : Oid) (other : oid ∉ issuerOids)
    (issued : IssuedExtensions lib req_extensions KUSAGE EKUSAGE ca_enable cert_extensions) :
    (cert_extensions.find? fun ext => ext.object = oid) =
      (lastExtension req_extensions oid).or
        (if useCa = oid then some ⟨useCa, false, ia5String (useCaText ca_enable)⟩ else none) := by
  obtain ⟨copied, ret, same, added, rfl⟩ := issued.parts
  have made := lib.extConf_comment ret ret useCa (useCaText ca_enable) (by decide)
    (useCaText_comment ca_enable)
  have foreign : oid ∉ (defaultExtensions ++
      [(authorityKeyIdentifier, bytesOf "keyid,issuer:always")] ++
        usageExtensions KUSAGE EKUSAGE).map Prod.fst := by
    intro member
    obtain ⟨call, found, rfl⟩ := List.mem_map.mp member
    exact other (issuer_calls KUSAGE EKUSAGE call found).1
  rw [addExtCert_find, added_find _ copied ret oid added foreign, same, copied_find, made]

theorem issued_basicConstraints_iff (req_extensions cert_extensions : List Extension)
    (KUSAGE : StuKeyUsage) (EKUSAGE : StuEKeyUsage) (ca_enable : Bool)
    (issued : IssuedExtensions lib req_extensions KUSAGE EKUSAGE ca_enable cert_extensions) :
    (∀ ext ∈ cert_extensions, ext.object = basicConstraints → lib.caFlag ext.data = some false) ↔
      ∀ ext, lastExtension req_extensions basicConstraints = some ext →
        lib.caFlag ext.data = some false := by
  obtain ⟨copied, ret, same, ⟨appended, rfl, made⟩, rfl⟩ := issued.parts
  have filtered := copied_filter req_extensions [] basicConstraints
  rw [← same] at filtered
  constructor
  · intro plain ext last
    have found : ext ∈ copied.extensions.filter fun ext => ext.object = basicConstraints := by
      rw [filtered, last]
      exact List.mem_singleton_self _
    obtain ⟨member, object⟩ := List.mem_filter.mp found
    refine plain ext ?_ (of_decide_eq_true object)
    rw [addExtCert_eq]
    exact List.mem_append_left _ (List.mem_append_left _ member)
  · intro plain ext member object
    rw [addExtCert_eq] at member
    rcases List.mem_append.mp member with before | last
    · rcases List.mem_append.mp before with copy | own
      · have found : ext ∈ copied.extensions.filter fun ext => ext.object = basicConstraints :=
          List.mem_filter.mpr ⟨copy, decide_eq_true object⟩
        rw [filtered] at found
        cases kept : lastExtension req_extensions basicConstraints with
        | none => simp [kept] at found
        | some only =>
            rw [kept] at found
            rw [List.mem_singleton.mp found]
            exact plain only kept
      · obtain ⟨call, found, root, cert, built⟩ := made ext own
        have nid := (lib.extConf_object root cert call.1 call.2 ext built).symm.trans object
        rw [nid, (issuer_calls KUSAGE EKUSAGE call found).2 nid] at built
        exact lib.extConf_ca_false root cert ext built
    · have nid := lib.extConf_object _ _ _ _ ext (Option.mem_toList.mp last)
      exact absurd (nid.symm.trans object) (by decide)

/-- The reader finds what the request brought along, or else the issuer's word. -/
theorem issued_enabled_iff (req_extensions : List Extension) (cert : X509 lib.toKeyTypes)
    (KUSAGE : StuKeyUsage) (EKUSAGE : StuEKeyUsage) (ca_enable : Bool) (cert_file : String)
    (issued : IssuedExtensions lib req_extensions KUSAGE EKUSAGE ca_enable cert.extensions) :
    getCAEnabled lib cert_file (some cert) = .ok ca_enable ↔
      ∀ ext, lastExtension req_extensions useCa = some ext →
        ∃ text, commentValue ext.data = some text ∧ text.length < 10 ∧
          (text = bytesOf "true" ↔ ca_enable = true) := by
  have found := issued_find req_extensions cert.extensions KUSAGE EKUSAGE ca_enable useCa
    (by decide) issued
  rw [if_pos rfl] at found
  rw [getCAEnabled, getExtensionData, found]
  cases last : lastExtension req_extensions useCa with
  | none =>
      have own : commentValue (ia5String (useCaText ca_enable)) = some (useCaText ca_enable) ∧
          (useCaText ca_enable).length < 10 ∧
          decide (useCaText ca_enable = bytesOf "true") = ca_enable := by
        cases ca_enable <;> decide +kernel
      obtain ⟨read, short, same⟩ := own
      simp only [Option.none_or, read]
      rw [if_neg (by omega), if_neg (by omega)]
      simp [same]
  | some ext =>
      cases value : commentValue ext.data with
      | none => simp [value]
      | some text =>
          simp only [Option.some_or, value, Option.some.injEq, forall_eq', exists_eq_left']
          by_cases long : 10 < text.length
          · simp [long, show ¬ text.length < 10 by omega]
          · by_cases full : text.length = 10
            · simp [full]
            · have short : text.length < 10 := by omega
              simp only [long, full, short, if_false, true_and, Except.ok.injEq]
              cases ca_enable <;> simp

/-- The certificate issued says what the issuer meant exactly where the last extension of
each of the two OIDs in the request, if there is one, says the same. -/
theorem issued_rights_iff (lib : OpenSsl) (files : MakeFiles lib) (req : X509Req lib.toKeyTypes)
    (read : files.req = some req) (calls : BodyCalls) (enddate : Option Bytes)
    (days first_now second_now : Int) (KUSAGE : StuKeyUsage) (EKUSAGE : StuEKeyUsage)
    (ca_enable : Bool) (o_len cn_len mail_len : Nat) (applicant : Applicant o_len cn_len mail_len)
    (type : FileType) (issued : X509 lib.toKeyTypes × Applicant o_len cn_len mail_len)
    (made : makeCert lib files calls enddate days first_now second_now KUSAGE EKUSAGE ca_enable
      applicant type = .ok issued) :
    (getCAEnabled lib files.outfile (some issued.1) = .ok ca_enable ∧
        ∀ ext ∈ issued.1.extensions, ext.object = basicConstraints →
          lib.caFlag ext.data = some false) ↔
      (∀ ext, lastExtension req.extensions useCa = some ext →
          ∃ text, commentValue ext.data = some text ∧ text.length < 10 ∧
            (text = bytesOf "true" ↔ ca_enable = true)) ∧
        ∀ ext, lastExtension req.extensions basicConstraints = some ext →
          lib.caFlag ext.data = some false := by
  obtain ⟨own, found, extensions⟩ := makeCert_issued files calls enddate days first_now second_now
    KUSAGE EKUSAGE ca_enable applicant type issued made
  obtain rfl := Option.some.inj (read.symm.trans found)
  exact and_congr (issued_enabled_iff req.extensions issued.1 KUSAGE EKUSAGE ca_enable _ extensions)
    (issued_basicConstraints_iff req.extensions issued.1.extensions KUSAGE EKUSAGE ca_enable
      extensions)

def noKeyUsage : StuKeyUsage := ⟨false, false, false, false, false, false, false, false, false⟩

def noEKeyUsage : StuEKeyUsage :=
  ⟨false, false, false, false, false, false, false, false, false, false, false⟩

def allCalls : BodyCalls := ⟨true, true, true, true, true, true, true, true⟩

def plainRequest (extensions : List Extension) : X509Req plainOpenSsl.toKeyTypes where
  subject := []
  pubkey := (7 : Nat)
  extensions := extensions
  signature := some (7 : Nat)

/-- A root of the plain library, whose key is three. -/
def plainIssuer : X509 plainOpenSsl.toKeyTypes where
  subject := []
  issuer := []
  not_before := firstDay.asn1Time
  not_after := nextDay.asn1Time
  pubkey := (3 : Nat)
  extensions := []
  signature := some (3 : Nat)

def threeKey : plainOpenSsl.PKey := (3 : Nat)

def plainFiles (extensions : List Extension) : MakeFiles plainOpenSsl where
  reqfile := "req.pem"
  outfile := "cert.pem"
  keyfile := "root.key"
  certfile := "root.pem"
  reqfile_opens := true
  outfile_opens := true
  req := some (plainRequest extensions)
  prkey := some threeKey
  x509 := some plainIssuer

def plainApplicant : Applicant 1 1 1 :=
  ⟨.empty 1 (by decide), .empty 1 (by decide), .empty 1 (by decide)⟩

/-- The certificate the plain library issues for a request with these extensions. -/
def plainIssued (extensions : List Extension) : X509 plainOpenSsl.toKeyTypes :=
  match makeCert plainOpenSsl (plainFiles extensions) allCalls none 1 1520244900 1520244900 noKeyUsage
      noEKeyUsage false plainApplicant .pem with
  | .ok issued => issued.1
  | .error _ => plainIssuer

theorem plainIssued_made (extensions : List Extension) :
    makeCert plainOpenSsl (plainFiles extensions) allCalls none 1 1520244900 1520244900 noKeyUsage
      noEKeyUsage false plainApplicant .pem = .ok (plainIssued extensions, plainApplicant) := rfl

theorem issued_rights_iff_applies :
    getCAEnabled plainOpenSsl "cert.pem" (some (plainIssued [])) = .ok false ∧
      ∀ ext ∈ (plainIssued []).extensions, ext.object = basicConstraints →
        plainOpenSsl.caFlag ext.data = some false :=
  (issued_rights_iff plainOpenSsl (plainFiles []) (plainRequest []) rfl allCalls none 1 1520244900
    1520244900 noKeyUsage noEKeyUsage false 1 1 1 plainApplicant .pem (plainIssued [], plainApplicant)
    (plainIssued_made [])).mpr
      ⟨by simp [lastExtension, plainRequest], by simp [lastExtension, plainRequest]⟩

/-- The extensions of an applicant who wants to be a CA. -/
def ambitious : List Extension :=
  [⟨useCa, false, ia5String (bytesOf "true")⟩,
    ⟨basicConstraints, true, [0x30, 0x03, 0x01, 0x01, 0xff]⟩]

theorem requester_becomes_ca :
    makeCert plainOpenSsl (plainFiles ambitious) allCalls none 1 1520244900 1520244900 noKeyUsage
        noEKeyUsage false plainApplicant .pem = .ok (plainIssued ambitious, plainApplicant) ∧
      getCAEnabled plainOpenSsl "cert.pem" (some (plainIssued ambitious)) = .ok true ∧
      ∃ ext ∈ (plainIssued ambitious).extensions, ext.object = basicConstraints ∧
        plainOpenSsl.caFlag ext.data = some true := by
  refine ⟨plainIssued_made ambitious, by decide +kernel, ?_⟩
  exact ⟨⟨basicConstraints, true, [0x30, 0x03, 0x01, 0x01, 0xff]⟩, by decide +kernel, by decide +kernel,
    by decide +kernel⟩

end EChainLib.Ca
