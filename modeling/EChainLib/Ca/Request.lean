import Mathlib
import EChainLib.Ca.Issue

/-! `CA::mkReq`, and `GetHDAndDA` and `GetReqContent` on what it makes. The readers skip
two bytes of an extension's DER, whatever its length octets are. -/

namespace EChainLib.Ca

open Keys (Bytes cString)

variable (lib : OpenSsl)

/-- `CA::Add_ExtReq`. -/
def addExtReq (sk : List Extension) (nid : Oid) (value : Bytes) : List Extension :=
  match lib.reqExtConf nid value with
  | none => sk
  | some ex => sk ++ [ex]

/-- `pk_new` and `req_new` say whether there was room; `pk` is the key generated and
assigned. -/
def mkReq (reqInfo : StuSubject) (pk_new req_new : Bool) (pk : Option lib.PKey) :
    Except Failure (X509Req lib.toKeyTypes × lib.PKey) :=
  if !pk_new then .error (.refused "new EVP_PKEY failed")
  else if !req_new then .error (.refused "new X509_REQ failed")
  else
    match pk with
    | none => .error (.refused "EVP_PKEY_assign_RSA failed")
    | some pk =>
        let exts := addExtReq lib [] nodeId reqInfo.NI.val
        let exts := addExtReq lib exts hardAddress reqInfo.HD.val
        let x : X509Req lib.toKeyTypes :=
          { subject := subjectName reqInfo, pubkey := lib.publicHalf pk, extensions := exts
            signature := none }
        match lib.reqSign x pk with
        | none => .error (.refused "X509_REQ_sign failed")
        | some signature => .ok ({ x with signature := some signature }, pk)

/-- The `strcpy` of a request's extension into a `char[len]`. -/
def storeText (len : Nat) (data : Bytes) (out : String) : Except Failure (Field len) :=
  if data.length < 2 then .error .undefined
  else if len < (cString (data.drop 2)).length then .error (.refused out)
  else if room : (cString (data.drop 2)).length < len then
    .ok ⟨cString (data.drop 2), Keys.cString_clean _, room⟩
  -- strcpy writes the NUL as well
  else .error .undefined

def requestLoop {hard_len id_len : Nat} : List Extension → Field hard_len → Field id_len →
    Except Failure (Field hard_len × Field id_len)
  | [], hardware_address, node_id => .ok (hardware_address, node_id)
  | ext :: rest, hardware_address, node_id =>
      if ext.object = nodeId then
        match storeText id_len ext.data "node id is invalid" with
        | .error failure => .error failure
        | .ok node_id => requestLoop rest hardware_address node_id
      else if ext.object = hardAddress then
        match storeText hard_len ext.data "hardware address is invalid" with
        | .error failure => .error failure
        | .ok hardware_address => requestLoop rest hardware_address node_id
      else requestLoop rest hardware_address node_id

/-- `CA::GetHDAndDA` on a request; the buffers hold what they held before, and
`req_get_pubkey` says whether the public key could be unpacked. -/
def getReqHDAndDA {hard_len id_len : Nat} (req_get_pubkey : Bool) (req : X509Req lib.toKeyTypes)
    (hardware_address : Field hard_len) (node_id : Field id_len) :
    Except Failure (Field hard_len × Field id_len) :=
  let i := lib.reqVerify req req.pubkey
  if !req_get_pubkey then .error (.refused "unpack public key failed")
  else if i < 0 then .error (.refused "signature verification problems")
  else if i = 0 then .error (.refused "signature did not match the certificate request")
  else requestLoop req.extensions hardware_address node_id

/-- `CA::GetHDAndDA` on a certificate: the hardware address and the node id. -/
def getCertHDAndDA (x509 : X509 lib.toKeyTypes) (hard_len id_len : Nat) :
    Except Failure (Bytes × Bytes) :=
  match getExtensionData x509 nodeId id_len with
  | .error failure => .error failure
  | .ok node_id =>
      match getExtensionData x509 hardAddress hard_len with
      | .error failure => .error failure
      | .ok hardware_address => .ok (hardware_address, node_id)

/-- `CA::GetReqContent`; `req` is what is read of the file, where it opens. -/
def getReqContent (reqfile : String) (reqfile_opens req_get_pubkey : Bool)
    (req : Option (X509Req lib.toKeyTypes)) (reqInfo : StuSubject) : Except Failure StuSubject :=
  if !reqfile_opens then .error (.refused ("open request file(" ++ reqfile ++ ") failed"))
  else
    match req with
    | none => .error (.refused "read request file failed")
    | some req =>
        let reqInfo := readSubject req.subject reqInfo
        match getReqHDAndDA lib req_get_pubkey req reqInfo.HD reqInfo.NI with
        | .error failure => .error failure
        | .ok (hardware_address, node_id) => .ok { reqInfo with HD := hardware_address, NI := node_id }

variable {lib}

/-! A reader that skips two bytes reads the text of a short DER string only. -/

theorem cString_cons (c : UInt8) (s : Bytes) :
    cString (c :: s) = if c = 0 then [] else c :: cString s := by
  by_cases zero : c = 0 <;> simp [cString, zero]

theorem long_text_differs (value : Bytes) (long : 128 ≤ value.length) :
    cString ((ia5String value).drop 2) ≠ value := by
  intro same
  have terminated : 0 ∉ value := by
    rw [← same]
    exact Keys.cString_clean _
  have length := congrArg List.length same
  rw [ia5String, derLength, if_neg (by omega)] at length
  split at length
  · simp only [List.cons_append, List.nil_append, List.drop_succ_cons, List.drop_zero,
      cString_cons, Keys.cString_of_text value terminated] at length
    split at length
    · simp only [List.length_nil] at length
      omega
    · simp only [List.length_cons] at length
      omega
  · simp only [List.cons_append, List.nil_append, List.drop_succ_cons, List.drop_zero,
      cString_cons, Keys.cString_of_text value terminated] at length
    split_ifs at length <;> simp only [List.length_nil, List.length_cons] at length <;> omega

theorem short_text_read (value : Bytes) (short : value.length < 128) (terminated : 0 ∉ value) :
    cString ((ia5String value).drop 2) = value := by
  rw [ia5String, derLength, if_pos short, List.singleton_append, List.drop_succ_cons,
    List.drop_succ_cons, List.drop_zero, Keys.cString_of_text value terminated]

theorem ia5String_length (value : Bytes) : 2 ≤ (ia5String value).length := by
  have lengths : 1 ≤ (derLength value.length).length := by
    unfold derLength
    split_ifs <;> simp
  simp only [ia5String, List.length_cons, List.length_append]
  omega

theorem comment_read_iff (value : Bytes) (terminated : 0 ∉ value) :
    cString ((ia5String value).drop 2) = value ↔ value.length < 128 := by
  constructor
  · intro same
    by_contra long
    exact long_text_differs value (by omega) same
  · exact fun short => short_text_read value short terminated

/-- A text goes through the extension and a reader with a buffer of this length. -/
def Survives (value : Bytes) (len : Nat) : Prop := value.length < 128 ∧ value.length < len

theorem storeText_iff (value : Bytes) (terminated : 0 ∉ value) (len : Nat) (out : String) :
    (∃ text, storeText len (ia5String value) out = .ok text ∧ text.val = value) ↔
      Survives value len := by
  have whole := comment_read_iff value terminated
  have size := ia5String_length value
  unfold storeText Survives
  rw [if_neg (by omega)]
  constructor
  · rintro ⟨text, stored, same⟩
    split_ifs at stored with long room
    obtain rfl := Except.ok.inj stored
    dsimp only at same
    rw [same] at room
    exact ⟨whole.mp same, room⟩
  · rintro ⟨short, room⟩
    have same := whole.mpr short
    have fits : (cString ((ia5String value).drop 2)).length < len := by rwa [same]
    rw [if_neg (by omega), dif_pos fits]
    exact ⟨_, rfl, same⟩

theorem getExtensionData_iff (x509 : X509 lib.toKeyTypes) (oid : Oid) (value : Bytes)
    (terminated : 0 ∉ value) (len : Nat) (critical : Bool)
    (stored : (x509.extensions.find? fun ext => ext.object = oid) =
      some ⟨oid, critical, ia5String value⟩) :
    getExtensionData x509 oid len = .ok value ↔ Survives value len := by
  have whole := comment_read_iff value terminated
  have size := ia5String_length value
  rw [getExtensionData, stored]
  simp only [commentValue]
  rw [if_neg (by omega)]
  simp only
  unfold Survives
  constructor
  · intro read
    split_ifs at read with long full
    have same := Except.ok.inj read
    rw [same] at long full
    exact ⟨whole.mp same, by omega⟩
  · rintro ⟨short, room⟩
    have same := whole.mpr short
    rw [same, if_neg (by omega), if_neg (by omega)]

/-! The request made, and what each reader finds in it. -/

structure Requested (reqInfo : StuSubject) (req : X509Req lib.toKeyTypes) : Prop where
  subject : req.subject = subjectName reqInfo
  extensions : req.extensions =
    [⟨nodeId, false, ia5String reqInfo.NI.val⟩, ⟨hardAddress, false, ia5String reqInfo.HD.val⟩]
  verifies : 0 < lib.reqVerify req req.pubkey

theorem mkReq_requested (reqInfo : StuSubject) (hard : CommentText reqInfo.HD.val)
    (node : CommentText reqInfo.NI.val) (pk_new req_new : Bool) (pk : Option lib.PKey)
    (made : X509Req lib.toKeyTypes × lib.PKey)
    (success : mkReq lib reqInfo pk_new req_new pk = .ok made) : Requested reqInfo made.1 := by
  unfold mkReq at success
  split_ifs at success
  cases pk with
  | none => cases success
  | some key =>
      simp only at success
      split at success
      · cases success
      · rename_i signature signed
        obtain rfl := Except.ok.inj success
        refine ⟨rfl, ?_, ?_⟩
        · simp only [addExtReq, lib.reqExtConf_comment nodeId _ (by decide) node,
            lib.reqExtConf_comment hardAddress _ (by decide) hard, List.nil_append,
            List.singleton_append]
        · exact lib.reqSign_verifies _ key signature rfl signed

theorem getReqHDAndDA_iff (reqInfo : StuSubject) (req : X509Req lib.toKeyTypes)
    (requested : Requested reqInfo req) {hard_len id_len : Nat} (hardware_address : Field hard_len)
    (node_id : Field id_len) :
    (∃ hard node, getReqHDAndDA lib true req hardware_address node_id = .ok (hard, node) ∧
        hard.val = reqInfo.HD.val ∧ node.val = reqInfo.NI.val) ↔
      Survives reqInfo.HD.val hard_len ∧ Survives reqInfo.NI.val id_len := by
  have verified := requested.verifies
  have apart : hardAddress ≠ nodeId := by decide
  have node_read := storeText_iff reqInfo.NI.val reqInfo.NI.property.1 id_len "node id is invalid"
  have hard_read := storeText_iff reqInfo.HD.val reqInfo.HD.property.1 hard_len
    "hardware address is invalid"
  rw [← node_read, ← hard_read]
  simp only [getReqHDAndDA, Bool.not_true, Bool.false_eq_true, if_false]
  rw [if_neg (by omega), if_neg (by omega), requested.extensions]
  simp only [requestLoop, if_true, apart, if_false]
  cases storeText id_len (ia5String reqInfo.NI.val) "node id is invalid" with
  | error failure => simp
  | ok node =>
      cases storeText hard_len (ia5String reqInfo.HD.val) "hardware address is invalid" with
      | error failure => simp
      | ok hard => simp [and_comm]

/-- The fields a reader of a request gets. -/
structure SameContent (first second : StuSubject) : Prop where
  O : first.O = second.O
  CN : first.CN = second.CN
  MAIL : first.MAIL = second.MAIL
  C : first.C = second.C
  ST : first.ST = second.ST
  L : first.L = second.L
  OU : first.OU = second.OU
  T : first.T = second.T
  HD : first.HD = second.HD
  NI : first.NI = second.NI

/-- Written to a name and read into `buf`, the field comes back: it has no four-byte
character, and where it is empty so was the buffer. -/
structure ReadsBack {size : Nat} (field buf : Field size) : Prop where
  cleared : field.val = [] → buf.val = []
  bmp : ∀ c ∈ field.val, c < 0xf0

theorem readsBack_iff {size : Nat} (reqInfo : StuSubject) (nid : NameNid) (field buf : Field size)
    (spelled : ∃ chars, field.val = utf8 chars)
    (stored : firstValue (subjectName reqInfo) nid = entryText field.val) :
    getTextByNid (subjectName reqInfo) nid buf = field ↔ ReadsBack field buf := by
  obtain ⟨chars, encoded⟩ := spelled
  rw [read_back_iff _ nid field buf chars encoded stored, inBmp_iff, ← encoded]
  constructor
  · rintro ⟨empty, low⟩
    exact ⟨fun none => (congrArg Subtype.val (empty none)).trans none, low⟩
  · rintro ⟨cleared, low⟩
    exact ⟨fun none => Subtype.ext ((cleared none).trans none.symm), low⟩

structure AllReadBack (reqInfo buf : StuSubject) : Prop where
  O : ReadsBack reqInfo.O buf.O
  CN : ReadsBack reqInfo.CN buf.CN
  MAIL : ReadsBack reqInfo.MAIL buf.MAIL
  C : ReadsBack reqInfo.C buf.C
  ST : ReadsBack reqInfo.ST buf.ST
  L : ReadsBack reqInfo.L buf.L
  OU : ReadsBack reqInfo.OU buf.OU
  T : ReadsBack reqInfo.T buf.T

/-- The texts a reader of a request gets from the name. -/
def readTexts (reqInfo : StuSubject) : List Bytes :=
  [reqInfo.O.val, reqInfo.CN.val, reqInfo.MAIL.val, reqInfo.C.val, reqInfo.ST.val, reqInfo.L.val,
    reqInfo.OU.val, reqInfo.T.val]

/-- What the reader gets from the name is the subject's own exactly field by field. -/
theorem readSubject_iff (reqInfo buf : StuSubject)
    (spelled : ∀ text ∈ readTexts reqInfo, ∃ chars, text = utf8 chars) (hard : Field 33)
    (node : Field 4096) :
    SameContent { readSubject (subjectName reqInfo) buf with HD := hard, NI := node } reqInfo ↔
      AllReadBack reqInfo buf ∧ hard = reqInfo.HD ∧ node = reqInfo.NI := by
  have stored := firstValue_subject reqInfo
  have o := readsBack_iff reqInfo .organizationName reqInfo.O buf.O
    (spelled _ (by simp [readTexts])) (stored _)
  have cn := readsBack_iff reqInfo .commonName reqInfo.CN buf.CN
    (spelled _ (by simp [readTexts])) (stored _)
  have mail := readsBack_iff reqInfo .pkcs9_emailAddress reqInfo.MAIL buf.MAIL
    (spelled _ (by simp [readTexts])) (stored _)
  have c := readsBack_iff reqInfo .countryName reqInfo.C buf.C
    (spelled _ (by simp [readTexts])) (stored _)
  have st := readsBack_iff reqInfo .stateOrProvinceName reqInfo.ST buf.ST
    (spelled _ (by simp [readTexts])) (stored _)
  have l := readsBack_iff reqInfo .localityName reqInfo.L buf.L
    (spelled _ (by simp [readTexts])) (stored _)
  have ou := readsBack_iff reqInfo .organizationalUnitName reqInfo.OU buf.OU
    (spelled _ (by simp [readTexts])) (stored _)
  have t := readsBack_iff reqInfo .title reqInfo.T buf.T
    (spelled _ (by simp [readTexts])) (stored _)
  constructor
  · intro same
    exact ⟨⟨o.mp same.O, cn.mp same.CN, mail.mp same.MAIL, c.mp same.C, st.mp same.ST, l.mp same.L,
      ou.mp same.OU, t.mp same.T⟩, same.HD, same.NI⟩
  · rintro ⟨back, same_hard, same_node⟩
    exact ⟨o.mpr back.O, cn.mpr back.CN, mail.mpr back.MAIL, c.mpr back.C, st.mpr back.ST,
      l.mpr back.L, ou.mpr back.OU, t.mpr back.T, same_hard, same_node⟩

theorem getReqContent_iff (reqInfo : StuSubject) (req : X509Req lib.toKeyTypes)
    (requested : Requested reqInfo req)
    (spelled : ∀ text ∈ readTexts reqInfo, ∃ chars, text = utf8 chars) (reqfile : String)
    (buf : StuSubject) :
    (∃ read, getReqContent lib reqfile true true (some req) buf = .ok read ∧ SameContent read reqInfo) ↔
      Survives reqInfo.HD.val 33 ∧ Survives reqInfo.NI.val 4096 ∧ AllReadBack reqInfo buf := by
  have texts := getReqHDAndDA_iff reqInfo req requested (readSubject req.subject buf).HD
    (readSubject req.subject buf).NI
  have names := readSubject_iff reqInfo buf spelled
  rw [← and_assoc, ← texts]
  simp only [getReqContent, Bool.not_true, Bool.false_eq_true, if_false]
  constructor
  · rintro ⟨read, success, same⟩
    split at success
    · cases success
    · rename_i hard node found
      obtain rfl := Except.ok.inj success
      rw [requested.subject] at same
      obtain ⟨back, same_hard, same_node⟩ := (names hard node).mp same
      exact ⟨⟨hard, node, found, congrArg Subtype.val same_hard, congrArg Subtype.val same_node⟩, back⟩
  · rintro ⟨⟨hard, node, found, same_hard, same_node⟩, back⟩
    refine ⟨{ readSubject (subjectName reqInfo) buf with HD := hard, NI := node }, ?_,
      (names hard node).mpr ⟨back, Subtype.ext same_hard, Subtype.ext same_node⟩⟩
    rw [found, requested.subject]

theorem getCertHDAndDA_iff (reqInfo : StuSubject) (req_extensions : List Extension)
    (same : req_extensions =
      [⟨nodeId, false, ia5String reqInfo.NI.val⟩, ⟨hardAddress, false, ia5String reqInfo.HD.val⟩])
    (KUSAGE : StuKeyUsage) (EKUSAGE : StuEKeyUsage) (ca_enable : Bool) (cert : X509 lib.toKeyTypes)
    (issued : IssuedExtensions lib req_extensions KUSAGE EKUSAGE ca_enable cert.extensions)
    (hard_len id_len : Nat) :
    getCertHDAndDA lib cert hard_len id_len = .ok (reqInfo.HD.val, reqInfo.NI.val) ↔
      Survives reqInfo.HD.val hard_len ∧ Survives reqInfo.NI.val id_len := by
  have apart : useCa ≠ nodeId ∧ useCa ≠ hardAddress ∧ hardAddress ≠ nodeId := by decide
  have found := fun oid other => issued_find req_extensions cert.extensions KUSAGE EKUSAGE ca_enable
    oid other issued
  have node := found nodeId (by decide)
  have hard := found hardAddress (by decide)
  subst same
  have node_last : lastExtension [⟨nodeId, false, ia5String reqInfo.NI.val⟩,
      ⟨hardAddress, false, ia5String reqInfo.HD.val⟩] nodeId =
        some ⟨nodeId, false, ia5String reqInfo.NI.val⟩ := by
    simp [lastExtension, apart.2.2]
  have hard_last : lastExtension [⟨nodeId, false, ia5String reqInfo.NI.val⟩,
      ⟨hardAddress, false, ia5String reqInfo.HD.val⟩] hardAddress =
        some ⟨hardAddress, false, ia5String reqInfo.HD.val⟩ := by
    simp [lastExtension, apart.2.2.symm]
  rw [node_last, Option.some_or] at node
  rw [hard_last, Option.some_or] at hard
  rw [← getExtensionData_iff cert nodeId _ reqInfo.NI.property.1 id_len false node,
    ← getExtensionData_iff cert hardAddress _ reqInfo.HD.property.1 hard_len false hard]
  unfold getCertHDAndDA
  cases getExtensionData cert nodeId id_len with
  | error failure => simp
  | ok node_id =>
      cases getExtensionData cert hardAddress hard_len with
      | error failure => simp
      | ok hardware_address => simp

/-- The identity data comes back from the request, from its file and from the certificate
exactly where the node id is short, the buffers are larger than the texts, the name's
fields have no four-byte character and the structure read into is empty where they are. -/
theorem identity_survives_iff (lib : OpenSsl) (reqInfo : StuSubject)
    (spelled : ∀ text ∈ readTexts reqInfo, ∃ chars, text = utf8 chars)
    (hard : CommentText reqInfo.HD.val) (node : CommentText reqInfo.NI.val) (pk_new req_new : Bool)
    (pk : Option lib.PKey) (made : X509Req lib.toKeyTypes × lib.PKey)
    (requested : mkReq lib reqInfo pk_new req_new pk = .ok made) (pkey : lib.PKey)
    (x509 : X509 lib.toKeyTypes) (calls : BodyCalls) (startdate : String) (enddate : Option Bytes)
    (days first_now second_now : Int) (KUSAGE : StuKeyUsage) (EKUSAGE : StuEKeyUsage)
    (ca_enable : Bool) (o_len cn_len mail_len : Nat) (applicant : Applicant o_len cn_len mail_len)
    (issued : X509 lib.toKeyTypes × Applicant o_len cn_len mail_len)
    (body : doBody lib pkey x509 calls startdate enddate days first_now second_now made.1 KUSAGE
      EKUSAGE ca_enable applicant = .ok issued)
    (hard_len id_len : Nat) (hardware_address : Field hard_len) (node_id : Field id_len)
    (reqfile : String) (buf : StuSubject) :
    ((∃ hard node, getReqHDAndDA lib true made.1 hardware_address node_id = .ok (hard, node) ∧
          hard.val = reqInfo.HD.val ∧ node.val = reqInfo.NI.val) ∧
        (∃ read, getReqContent lib reqfile true true (some made.1) buf = .ok read ∧
          SameContent read reqInfo) ∧
        getCertHDAndDA lib issued.1 hard_len id_len = .ok (reqInfo.HD.val, reqInfo.NI.val)) ↔
      reqInfo.NI.val.length < 128 ∧ reqInfo.HD.val.length < hard_len ∧
        reqInfo.NI.val.length < id_len ∧ AllReadBack reqInfo buf := by
  have request := mkReq_requested reqInfo hard node pk_new req_new pk made requested
  have extensions := doBody_issued _ _ _ _ _ _ _ _ _ _ _ _ _ _ body
  have hard_room := reqInfo.HD.property.2
  have node_room := reqInfo.NI.property.2
  rw [getReqHDAndDA_iff reqInfo made.1 request, getReqContent_iff reqInfo made.1 request spelled,
    getCertHDAndDA_iff reqInfo made.1.extensions request.extensions KUSAGE EKUSAGE ca_enable issued.1
      extensions]
  simp only [Survives]
  constructor
  · rintro ⟨⟨⟨_, hard_fits⟩, short, node_fits⟩, ⟨_, _, back⟩, _⟩
    exact ⟨short, hard_fits, node_fits, back⟩
  · rintro ⟨short, hard_fits, node_fits, back⟩
    have hard_short : reqInfo.HD.val.length < 128 := by omega
    exact ⟨⟨⟨hard_short, hard_fits⟩, short, node_fits⟩,
      ⟨⟨hard_short, hard_room⟩, ⟨short, node_room⟩, back⟩, ⟨hard_short, hard_fits⟩, short, node_fits⟩

def letters (count : Nat) (short : count < 4096) : Field 4096 :=
  ⟨List.replicate count 0x6e, by simp [List.mem_replicate], by rw [List.length_replicate]; exact short⟩

/-- A subject with a node id of that many letters and the hardware address `hard`. -/
def lettersSubject (count : Nat) (short : count < 4096) : StuSubject :=
  { StuSubject.cleared with
    HD := ⟨bytesOf "hard", by decide +kernel, by decide +kernel⟩
    NI := letters count short }

def lettersRequest (count : Nat) (short : count < 4096) :
    X509Req plainOpenSsl.toKeyTypes × plainOpenSsl.PKey :=
  match mkReq plainOpenSsl (lettersSubject count short) true true (some sevenKey) with
  | .ok made => made
  | .error _ => (plainRequest [], sevenKey)

theorem lettersRequest_made (count : Nat) (short : count < 4096) :
    mkReq plainOpenSsl (lettersSubject count short) true true (some sevenKey) =
      .ok (lettersRequest count short) := rfl

def lettersCert (count : Nat) (short : count < 4096) :
    X509 plainOpenSsl.toKeyTypes × Applicant 1 1 1 :=
  match doBody plainOpenSsl threeKey plainIssuer allCalls "today" none 1 1520244900 1520244900
      (lettersRequest count short).1 noKeyUsage noEKeyUsage false plainApplicant with
  | .ok issued => issued
  | .error _ => (plainIssuer, plainApplicant)

theorem lettersCert_made (count : Nat) (short : count < 4096) :
    doBody plainOpenSsl threeKey plainIssuer allCalls "today" none 1 1520244900 1520244900
      (lettersRequest count short).1 noKeyUsage noEKeyUsage false plainApplicant =
        .ok (lettersCert count short) := rfl

theorem hard_comment : CommentText (bytesOf "hard") :=
  ⟨by decide +kernel, by decide +kernel, by decide +kernel, by decide +kernel⟩

theorem identity_survives_iff_applies :
    getCertHDAndDA plainOpenSsl (lettersCert 4 (by decide)).1 33 4096 =
      .ok ((lettersSubject 4 (by decide)).HD.val, (lettersSubject 4 (by decide)).NI.val) := by
  have node : CommentText (lettersSubject 4 (by decide)).NI.val :=
    ⟨by decide +kernel, by decide +kernel, by decide +kernel, by decide +kernel⟩
  have blank : ∀ text ∈ readTexts (lettersSubject 4 (by decide)), text = [] := by decide +kernel
  have spelled : ∀ text ∈ readTexts (lettersSubject 4 (by decide)), ∃ chars, text = utf8 chars :=
    fun text member => ⟨[], blank text member⟩
  have empty : ∀ {size : Nat} (field : Field size), field.val = [] → ReadsBack field field :=
    fun field none => ⟨fun _ => none, by simp [none]⟩
  have back : AllReadBack (lettersSubject 4 (by decide)) .cleared :=
    ⟨empty _ rfl, empty _ rfl, empty _ rfl, empty _ rfl, empty _ rfl, empty _ rfl, empty _ rfl,
      empty _ rfl⟩
  exact ((identity_survives_iff plainOpenSsl (lettersSubject 4 (by decide)) spelled hard_comment node
    true true (some sevenKey) _ (lettersRequest_made 4 (by decide)) threeKey plainIssuer allCalls
    "today" none 1 1520244900 1520244900 noKeyUsage noEKeyUsage false 1 1 1 plainApplicant _
    (lettersCert_made 4 (by decide)) 33 4096 (.empty 33 (by decide)) (.empty 4096 (by decide))
    "req.pem" .cleared).mpr ⟨by decide, by decide +kernel, by decide +kernel, back⟩).2.2

/-- From 128 characters on the length octets come back with the node id. -/
theorem long_node_id_changed :
    CommentText (lettersSubject 128 (by decide)).NI.val ∧
      mkReq plainOpenSsl (lettersSubject 128 (by decide)) true true (some sevenKey) =
        .ok (lettersRequest 128 (by decide)) ∧
      (getReqHDAndDA plainOpenSsl true (lettersRequest 128 (by decide)).1 (.empty 33 (by decide))
        (.empty 4096 (by decide))).map (fun read => read.2.val) =
          .ok (0x80 :: (lettersSubject 128 (by decide)).NI.val) := by
  exact ⟨⟨by decide +kernel, by decide +kernel, by decide +kernel, by decide +kernel⟩,
    lettersRequest_made 128 (by decide), by decide +kernel⟩

end EChainLib.Ca
