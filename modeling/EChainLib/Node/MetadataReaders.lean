import EChainLib.Node.BusinessData

/-! The three calls that give back the metadata of a transaction: they ask for its history, look
for the first entry with metadata and decode it. -/

namespace EChainLib.Node

open EChainLib.Keys (Bytes text)

/-- The loop over `val_transactions`: the entry it stops at, and its metadata. -/
def firstTransaction : List Json → Except Stop (Option (Json × Bytes))
  | [] => return none
  | entry :: rest => do
      if ← entry.isMember "transaction" then
        let transaction ← entry.get "transaction"
        if ← transaction.isMember "metadata" then
          return some (entry, ← (← transaction.get "metadata").asString)
        else firstTransaction rest
      else firstTransaction rest

/-- What the three copies have in common. `missing` is what becomes of the outputs in a reply
without transactions, and `store` what is written for the entry found. A reply that is not JSON
is `none`. -/
def readTransactions {Out : Type} (missing : Out → Out) (store : Json → Bytes → Except Stop Out)
    (outputs : Out) (reply : Option Json) : Except Stop (Int × Out) :=
  match reply with
  | none => return (-1, outputs)
  | some rep => do
      let (present, code) ← rep.errorCode
      if present ∧ code = 0 then
        if ← rep.hasResult "transactions" then
          let val_transactions ← elements (← (← rep.get "result").get "transactions")
          match ← firstTransaction val_transactions with
          -- no entry with metadata is no failure
          | none => return (1, outputs)
          | some (entry, szHexString) =>
              match parseCreditInfoFromHexString szHexString with
              | none => return (-1, outputs)
              | some metaDataInfo => return (1, ← store entry metaDataInfo)
        else return (1, missing outputs)
      else return (-6, outputs)

/-- `ParseMetaInfoFromTransactionHash`. -/
def parseMetaInfo (transactionInfo : Bytes) (reply : Option Json) : Except Stop (Int × Bytes) :=
  readTransactions (fun _ => text " ") (fun _ metaDataInfo => return metaDataInfo) transactionInfo
    reply

/-- `EChain_QueryCertificationInfo`. -/
def queryCertificationInfo (certificationInfo : Bytes) (reply : Option Json) :
    Except Stop (Int × Bytes) :=
  readTransactions id (fun _ metaDataInfo => return metaDataInfo) certificationInfo reply

structure HashRecord where
  transactionInfo : Bytes
  ledgerSeq : Int
  timeInfo : Bytes

/-- `asDouble`, and `transTimeToString` on the number, which writes nothing where the time is not
known. -/
abbrev CloseTime := Json → Except Stop (Option Bytes)

def storeRecord (closeTime : CloseTime) (entry : Json) (metaDataInfo : Bytes) :
    Except Stop HashRecord := do
  let ledgerSeq ← (← entry.get "ledger_seq").asInt
  let szCloseTime ← closeTime (← entry.get "close_time")
  return ⟨metaDataInfo, ledgerSeq, szCloseTime.getD []⟩

/-- `EChain_QueryTransactionHashRecord`. -/
def queryTransactionHashRecord (closeTime : CloseTime) (outputs : HashRecord)
    (reply : Option Json) : Except Stop (Int × HashRecord) :=
  readTransactions id (storeRecord closeTime) outputs reply

/-- Both ways to search come to the same metadata. -/
theorem firstMetadata_eq (entries : List Json) :
    firstMetadata entries = (firstTransaction entries).map (Option.map Prod.snd) := by
  induction entries with
  | nil => rfl
  | cons entry rest ih =>
      rw [firstMetadata, firstTransaction, ih]
      cases entry.isMember "transaction" with
      | error stop => rfl
      | ok inside =>
          cases inside with
          | false => rfl
          | true =>
              cases entry.get "transaction" with
              | error stop => rfl
              | ok transaction =>
                  cases carried : transaction.isMember "metadata" with
                  | error stop => simp [bind, Except.bind, carried, Except.map]
                  | ok carries =>
                      cases carries with
                      | false => simp [bind, Except.bind, carried]
                      | true =>
                          simp only [bind, Except.bind, carried, if_true]
                          cases transaction.get "metadata" with
                          | error stop => rfl
                          | ok metadata =>
                              dsimp only
                              cases metadata.asString <;> rfl

/-- What the other calls read of a history is `ParseMetaInfoFromTransactionHash` on an empty
text. -/
theorem readMetaInfo_eq (rep : Json) : readMetaInfo rep = parseMetaInfo [] (some rep) := by
  simp only [readMetaInfo, parseMetaInfo, readTransactions, reportedMetadata, firstMetadata_eq]
  cases rep.errorCode with
  | error stop => rfl
  | ok answer =>
      simp only [bind, Except.bind]
      split_ifs
      · cases rep.hasResult "transactions" with
        | error stop => rfl
        | ok listed =>
            cases listed with
            | false => rfl
            | true =>
                simp only [if_true]
                cases rep.get "result" with
                | error stop => rfl
                | ok result =>
                    dsimp only
                    cases result.get "transactions" with
                    | error stop => rfl
                    | ok transactions =>
                        dsimp only
                        cases elements transactions with
                        | error stop => rfl
                        | ok entries =>
                            dsimp only
                            cases firstTransaction entries with
                            | error stop => rfl
                            | ok found =>
                                cases found with
                                | none => rfl
                                | some pair =>
                                    simp only [Except.map, Option.map_some]
                                    cases parseCreditInfoFromHexString pair.2 <;> rfl
      · rfl

/-! Members, without the exceptions. -/

namespace Json

def member? (key : String) : Json → Option Json
  | .obj members => members.lookup key
  | _ => none

/-- A value that may be asked for members. -/
def Open : Json → Prop
  | .null | .obj _ => True
  | _ => False

theorem isMember_of_open {value : Json} (opened : value.Open) (key : String) :
    value.isMember key = .ok (value.member? key).isSome := by
  cases value <;> first | rfl | exact opened.elim

theorem isMember_of_closed {value : Json} (closed : ¬ value.Open) (key : String) :
    value.isMember key = .error .thrown := by
  cases value <;> first | rfl | exact absurd trivial closed

theorem open_of_member {value found : Json} {key : String}
    (member : value.member? key = some found) : value.Open := by
  cases value with
  | obj members => trivial
  | _ => cases member

theorem get_of_open {value : Json} (opened : value.Open) (key : String) :
    value.get key = .ok ((value.member? key).getD .null) := by
  cases value <;> first | rfl | exact opened.elim

theorem get_of_member {value found : Json} {key : String}
    (member : value.member? key = some found) : value.get key = .ok found := by
  rw [get_of_open (open_of_member member), member, Option.getD_some]

theorem member_of_hasResult {rep : Json} {key : String} (has : rep.hasResult key = .ok true) :
    ∃ result value, rep.member? "result" = some result ∧ result.member? key = some value := by
  rw [hasResult] at has
  by_cases opened : rep.Open
  · rw [isMember_of_open opened] at has
    cases inside : rep.member? "result" with
    | none =>
        rw [inside] at has
        cases has
    | some result =>
        simp only [bind, Except.bind, inside, Option.isSome_some, if_true,
          get_of_member inside] at has
        by_cases result_open : result.Open
        · rw [isMember_of_open result_open, Except.ok.injEq, Option.isSome_iff_exists] at has
          obtain ⟨value, member⟩ := has
          exact ⟨result, value, rfl, member⟩
        · rw [isMember_of_closed result_open] at has
          cases has
  · rw [isMember_of_closed opened] at has
    cases has

end Json

/-! The entries. -/

/-- The metadata of an entry. -/
def metadata (entry : Json) : Option Json :=
  (entry.member? "transaction").bind (Json.member? "metadata")

/-- The loop goes on behind this entry: it may be asked, and has no metadata. -/
structure Passable (entry : Json) : Prop where
  opened : entry.Open
  bare : ∀ transaction, entry.member? "transaction" = some transaction →
    transaction.Open ∧ transaction.member? "metadata" = none

/-- An entry with metadata that can be read as a text. -/
def CarriesText (entry : Json) (szHexString : Bytes) : Prop :=
  ∃ value, metadata entry = some value ∧ value.asString = .ok szHexString

theorem metadata_eq_none {entry : Json} (passable : Passable entry) : metadata entry = none := by
  cases inside : entry.member? "transaction" with
  | none => rw [metadata, inside, Option.bind_none]
  | some transaction => rw [metadata, inside, Option.bind_some, (passable.bare _ inside).2]

theorem firstTransaction_pass {entry : Json} (rest : List Json) (passable : Passable entry) :
    firstTransaction (entry :: rest) = firstTransaction rest := by
  rw [firstTransaction, Json.isMember_of_open passable.opened]
  cases inside : entry.member? "transaction" with
  | none => rfl
  | some transaction =>
      obtain ⟨opened, bare⟩ := passable.bare transaction inside
      simp only [bind, Except.bind, Option.isSome_some, if_true, Json.get_of_member inside,
        Json.isMember_of_open opened, bare]
      rfl

theorem firstTransaction_found {entry : Json} {szHexString : Bytes} (rest : List Json)
    (carries : CarriesText entry szHexString) :
    firstTransaction (entry :: rest) = .ok (some (entry, szHexString)) := by
  obtain ⟨value, found, read⟩ := carries
  obtain ⟨transaction, inside, member⟩ := Option.bind_eq_some_iff.mp found
  rw [firstTransaction, Json.isMember_of_open (Json.open_of_member inside)]
  simp only [bind, Except.bind, inside, Option.isSome_some, if_true, Json.get_of_member inside,
    Json.isMember_of_open (Json.open_of_member member), member, Json.get_of_member member, read]
  rfl

/-- Any other entry raises. -/
theorem firstTransaction_stop {entry : Json} (rest : List Json) (blocked : ¬ Passable entry)
    (unread : ∀ szHexString, ¬ CarriesText entry szHexString) :
    ∃ stop, firstTransaction (entry :: rest) = .error stop := by
  rw [firstTransaction]
  by_cases opened : entry.Open
  · rw [Json.isMember_of_open opened]
    cases inside : entry.member? "transaction" with
    | none => exact absurd ⟨opened, fun _ other => by rw [inside] at other; cases other⟩ blocked
    | some transaction =>
        simp only [bind, Except.bind, Option.isSome_some, if_true, Json.get_of_member inside]
        by_cases transaction_open : transaction.Open
        · rw [Json.isMember_of_open transaction_open]
          cases member : transaction.member? "metadata" with
          | none =>
              refine absurd ⟨opened, fun other same => ?_⟩ blocked
              rw [inside, Option.some.injEq] at same
              subst same
              exact ⟨transaction_open, member⟩
          | some value =>
              simp only [Option.isSome_some, if_true, Json.get_of_member member]
              cases read : value.asString with
              | error stop => exact ⟨stop, rfl⟩
              | ok szHexString =>
                  refine absurd ⟨value, ?_, read⟩ (unread szHexString)
                  rw [metadata, inside, Option.bind_some, member]
        · rw [Json.isMember_of_closed transaction_open]
          exact ⟨_, rfl⟩
  · rw [Json.isMember_of_closed opened]
    exact ⟨_, rfl⟩

/-- What the loop over the entries comes to. -/
inductive Scanned : List Json → Except Stop (Option (Json × Bytes)) → Prop where
  | nothing {entries} : (∀ entry ∈ entries, Passable entry) → Scanned entries (.ok none)
  | found {before entry after szHexString} : (∀ earlier ∈ before, Passable earlier) →
      CarriesText entry szHexString →
      Scanned (before ++ entry :: after) (.ok (some (entry, szHexString)))
  | raised {entries stop} : Scanned entries (.error stop)

theorem firstTransaction_scanned (entries : List Json) :
    Scanned entries (firstTransaction entries) := by
  induction entries with
  | nil => exact .nothing (by simp)
  | cons entry rest ih =>
      by_cases passable : Passable entry
      · rw [firstTransaction_pass rest passable]
        generalize firstTransaction rest = outcome at ih ⊢
        cases ih with
        | nothing all => exact .nothing (List.forall_mem_cons.mpr ⟨passable, all⟩)
        | @found before entry' after szHexString earlier carries =>
            rw [← List.cons_append]
            exact .found (List.forall_mem_cons.mpr ⟨passable, earlier⟩) carries
        | raised => exact .raised
      -- the loop ends at this entry, with its text or by raising
      · by_cases readable : ∃ szHexString, CarriesText entry szHexString
        · obtain ⟨szHexString, carries⟩ := readable
          rw [firstTransaction_found rest carries]
          rw [← List.nil_append (entry :: rest)]
          exact .found (by simp) carries
        · obtain ⟨stop, raised⟩ := firstTransaction_stop rest passable (not_exists.mp readable)
          rw [raised]
          exact .raised

theorem firstTransaction_split {entry : Json} {szHexString : Bytes} (before after : List Json)
    (earlier : ∀ earlier ∈ before, Passable earlier) (carries : CarriesText entry szHexString) :
    firstTransaction (before ++ entry :: after) = .ok (some (entry, szHexString)) := by
  induction before with
  | nil => exact firstTransaction_found after carries
  | cons first rest ih =>
      obtain ⟨passable, later⟩ := List.forall_mem_cons.mp earlier
      rw [List.cons_append, firstTransaction_pass _ passable, ih later]

/-! What is asked of the three calls. -/

/-- The transactions in a reply. -/
def Transactions (rep : Json) (entries : List Json) : Prop :=
  ∃ result, rep.member? "result" = some result ∧
    result.member? "transactions" = some (.arr entries)

/-- The code is 0, and the first metadata among the transactions decodes to this text. -/
def Decodes (reply : Option Json) (metaDataInfo : Bytes) : Prop :=
  ∃ rep entries value szHexString, reply = some rep ∧ rep.errorCode = .ok (true, 0) ∧
    Transactions rep entries ∧ entries.findSome? metadata = some value ∧
    value.asString = .ok szHexString ∧ parseCreditInfoFromHexString szHexString = some metaDataInfo

/-- 1 with the decoded text, or a negative code with the outputs as they were. -/
structure Answered {Out : Type} (info : Out → Bytes) (outputs : Out) (reply : Option Json)
    (result : Except Stop (Int × Out)) : Prop where
  one_iff : (∃ out, result = .ok (1, out)) ↔ ∃ metaDataInfo, Decodes reply metaDataInfo
  yields : ∀ metaDataInfo, Decodes reply metaDataInfo →
    ∃ out, result = .ok (1, out) ∧ info out = metaDataInfo
  otherwise : (¬ ∃ metaDataInfo, Decodes reply metaDataInfo) →
    ∃ code < 0, result = .ok (code, outputs)

structure MetadataAgree (closeTime : CloseTime) (transactionInfo certificationInfo : Bytes)
    (outputs : HashRecord) (reply : Option Json) : Prop where
  metaInfo : Answered id transactionInfo reply (parseMetaInfo transactionInfo reply)
  hashRecord : Answered HashRecord.transactionInfo outputs reply
    (queryTransactionHashRecord closeTime outputs reply)
  certification : Answered id certificationInfo reply
    (queryCertificationInfo certificationInfo reply)

/-- The other two fields of a record can be read. -/
def RecordRead (closeTime : CloseTime) (entry : Json) : Prop :=
  ∃ ledgerSeq, ((entry.member? "ledger_seq").getD .null).asInt = .ok ledgerSeq ∧
    ∃ szCloseTime, closeTime ((entry.member? "close_time").getD .null) = .ok szCloseTime

/-- The replies in which the search ends at a metadata, or does not begin. -/
def Conclusive (closeTime : CloseTime) : Option Json → Prop
  | none => True
  | some rep =>
      (∃ present code, rep.errorCode = .ok (present, code) ∧ ¬ (present = true ∧ code = 0)) ∨
        rep.errorCode = .ok (true, 0) ∧ ∃ before entry after szHexString,
          Transactions rep (before ++ entry :: after) ∧
          (∀ earlier ∈ before, Passable earlier) ∧ CarriesText entry szHexString ∧
          (parseCreditInfoFromHexString szHexString = none ∨ RecordRead closeTime entry)

theorem transactions_unique {rep : Json} {entries entries' : List Json}
    (one : Transactions rep entries) (other : Transactions rep entries') : entries = entries' := by
  obtain ⟨result, inside, member⟩ := one
  obtain ⟨result', inside', member'⟩ := other
  rw [inside, Option.some.injEq] at inside'
  subst inside'
  rw [member, Option.some.injEq, Json.arr.injEq] at member'
  exact member'

theorem not_decodes_refused {rep : Json} {answer : Bool × Int} (code : rep.errorCode = .ok answer)
    (refused : answer ≠ (true, 0)) (metaDataInfo : Bytes) : ¬ Decodes (some rep) metaDataInfo := by
  rintro ⟨rep', -, -, -, same, code', -⟩
  cases same
  rw [code, Except.ok.injEq] at code'
  exact refused code'

theorem not_decodes_nothing {rep : Json} {entries : List Json}
    (transactions : Transactions rep entries) (all : ∀ entry ∈ entries, Passable entry)
    (metaDataInfo : Bytes) : ¬ Decodes (some rep) metaDataInfo := by
  rintro ⟨rep', entries', value, -, same, -, transactions', found, -⟩
  cases same
  obtain rfl := transactions_unique transactions transactions'
  obtain ⟨entry, member, carries⟩ := List.exists_of_findSome?_eq_some found
  rw [metadata_eq_none (all entry member)] at carries
  cases carries

theorem decodes_found_iff {rep entry : Json} {before after : List Json} {szHexString : Bytes}
    (code : rep.errorCode = .ok (true, 0)) (transactions : Transactions rep (before ++ entry :: after))
    (earlier : ∀ earlier ∈ before, Passable earlier) (carries : CarriesText entry szHexString)
    (metaDataInfo : Bytes) : Decodes (some rep) metaDataInfo ↔
      parseCreditInfoFromHexString szHexString = some metaDataInfo := by
  obtain ⟨value, member, read⟩ := carries
  have first : (before ++ entry :: after).findSome? metadata = some value :=
    List.findSome?_eq_some_iff.mpr
      ⟨before, entry, after, rfl, member, fun other inside => metadata_eq_none (earlier other inside)⟩
  constructor
  · rintro ⟨rep', entries', value', szHexString', same, -, transactions', found, read', decoded⟩
    cases same
    obtain rfl := transactions_unique transactions transactions'
    rw [first, Option.some.injEq] at found
    subst found
    rw [read, Except.ok.injEq] at read'
    exact read' ▸ decoded
  · exact fun decoded => ⟨rep, _, value, szHexString, rfl, code, transactions, first, read, decoded⟩

/-! What the common part returns. -/

section Reading

variable {Out : Type} (missing : Out → Out) (store : Json → Bytes → Except Stop Out)
  (outputs : Out) {rep : Json}

theorem readTransactions_refused {present : Bool} {code : Int}
    (read : rep.errorCode = .ok (present, code)) (refused : ¬ (present = true ∧ code = 0)) :
    readTransactions missing store outputs (some rep) = .ok (-6, outputs) := by
  simp only [readTransactions, read, bind, Except.bind, if_neg refused]
  rfl

/-- With transactions there, the answer is that of the loop. -/
theorem readTransactions_listed {entries : List Json} (code : rep.errorCode = .ok (true, 0))
    (transactions : Transactions rep entries) :
    readTransactions missing store outputs (some rep) = (do
      match ← firstTransaction entries with
      | none => return (1, outputs)
      | some (entry, szHexString) =>
          match parseCreditInfoFromHexString szHexString with
          | none => return (-1, outputs)
          | some metaDataInfo => return (1, ← store entry metaDataInfo)) := by
  obtain ⟨result, inside, member⟩ := transactions
  have has : rep.hasResult "transactions" = .ok true := by
    simp [Json.hasResult, bind, Except.bind, Json.isMember_of_open (Json.open_of_member inside),
      inside, Json.get_of_member inside, Json.isMember_of_open (Json.open_of_member member), member]
  simp only [readTransactions, code, bind, Except.bind, and_self, if_true, has,
    Json.get_of_member inside, Json.get_of_member member, elements]
  rfl

/-- Without a list of transactions the call raises or returns 1. -/
theorem readTransactions_unlisted (code : rep.errorCode = .ok (true, 0))
    (unlisted : ∀ entries, ¬ Transactions rep entries) :
    (∃ stop, readTransactions missing store outputs (some rep) = .error stop) ∨
      ∃ out, readTransactions missing store outputs (some rep) = .ok (1, out) := by
  simp only [readTransactions, code, bind, Except.bind, and_self, if_true]
  cases has : rep.hasResult "transactions" with
  | error stop => exact .inl ⟨stop, rfl⟩
  | ok listed =>
      cases listed with
      | false => exact .inr ⟨missing outputs, rfl⟩
      | true =>
          obtain ⟨result, transactions, inside, member⟩ := Json.member_of_hasResult has
          simp only [if_true, Json.get_of_member inside, Json.get_of_member member]
          -- only a list or an object with members has elements to look at
          cases transactions with
          | arr entries => exact absurd ⟨result, inside, member⟩ (unlisted entries)
          | obj members =>
              cases members with
              | nil => exact .inr ⟨outputs, rfl⟩
              | cons first rest => exact .inl ⟨_, rfl⟩
          | _ => exact .inr ⟨outputs, rfl⟩

end Reading

/-! The answers. -/

section Answers

variable {Out : Type} {outputs : Out} {info : Out → Bytes}

theorem not_answered_error {reply : Option Json} {result : Except Stop (Int × Out)} {stop : Stop}
    (raised : result = .error stop) : ¬ Answered info outputs reply result := by
  intro answered
  by_cases decodes : ∃ metaDataInfo, Decodes reply metaDataInfo
  · obtain ⟨out, returned⟩ := answered.one_iff.mpr decodes
    rw [raised] at returned
    cases returned
  · obtain ⟨code, -, returned⟩ := answered.otherwise decodes
    rw [raised] at returned
    cases returned

/-- A call that gives up leaves the outputs, which is right where nothing decodes. -/
theorem answered_failure {reply : Option Json} {result : Except Stop (Int × Out)} {code : Int}
    (nothing : ∀ metaDataInfo, ¬ Decodes reply metaDataInfo) (negative : code < 0)
    (returned : result = .ok (code, outputs)) : Answered info outputs reply result := by
  refine ⟨iff_of_false ?_ (not_exists.mpr nothing), fun metaDataInfo decodes =>
    absurd decodes (nothing metaDataInfo), fun _ => ⟨code, negative, returned⟩⟩
  rintro ⟨out, one⟩
  rw [returned, Except.ok.injEq, Prod.mk.injEq] at one
  omega

theorem not_answered_one {reply : Option Json} {result : Except Stop (Int × Out)} {out : Out}
    (nothing : ∀ metaDataInfo, ¬ Decodes reply metaDataInfo) (returned : result = .ok (1, out)) :
    ¬ Answered info outputs reply result := fun answered =>
  not_exists.mpr nothing (answered.one_iff.mp ⟨out, returned⟩)

/-- Where the search ends at a metadata that decodes, the answer is right if the outputs can be
stored. -/
theorem answered_found_iff {reply : Option Json} {result : Except Stop (Int × Out)}
    (stored : Except Stop Out) {metaDataInfo : Bytes}
    (only : ∀ other, Decodes reply other ↔ metaDataInfo = other)
    (returned : result = (do return (1, ← stored)))
    (same : ∀ out, stored = .ok out → info out = metaDataInfo) :
    Answered info outputs reply result ↔ ∃ out, stored = .ok out := by
  cases written : stored with
  | error stop =>
      rw [written] at returned
      exact iff_of_false (not_answered_error returned) (by rintro ⟨out, other⟩; cases other)
  | ok out =>
      rw [written] at returned
      refine iff_of_true ⟨iff_of_true ⟨out, returned⟩ ⟨metaDataInfo, (only _).mpr rfl⟩, ?_, ?_⟩
        ⟨out, rfl⟩
      · intro other decodes
        exact ⟨out, returned, (same out written).trans ((only other).mp decodes)⟩
      · exact fun nothing => absurd ⟨metaDataInfo, (only _).mpr rfl⟩ nothing

end Answers

section Reply

variable {closeTime : CloseTime} {transactionInfo certificationInfo : Bytes} {outputs : HashRecord}
  {rep : Json}

theorem storeRecord_iff {entry : Json} (opened : entry.Open) (metaDataInfo : Bytes) :
    (∃ record, storeRecord closeTime entry metaDataInfo = .ok record) ↔
      RecordRead closeTime entry := by
  simp only [storeRecord, bind, Except.bind, Json.get_of_open opened]
  constructor
  · rintro ⟨record, written⟩
    cases seq : ((entry.member? "ledger_seq").getD .null).asInt with
    | error stop =>
        rw [seq] at written
        cases written
    | ok ledgerSeq =>
        rw [seq] at written
        cases time : closeTime ((entry.member? "close_time").getD .null) with
        | error stop =>
            simp only [time] at written
            cases written
        | ok szCloseTime => exact ⟨ledgerSeq, seq, szCloseTime, time⟩
  · rintro ⟨ledgerSeq, seq, szCloseTime, time⟩
    rw [seq]
    simp only [time]
    exact ⟨_, rfl⟩

theorem storeRecord_info {entry : Json} {metaDataInfo : Bytes} {record : HashRecord}
    (written : storeRecord closeTime entry metaDataInfo = .ok record) :
    record.transactionInfo = metaDataInfo := by
  simp only [storeRecord, bind, Except.bind] at written
  split at written
  · cases written
  · split at written
    · cases written
    · split at written
      · cases written
      · split at written
        · cases written
        · cases written
          rfl

/-- All three calls give up, and nothing decodes. -/
theorem agree_of_failure {reply : Option Json} {code : Int} (negative : code < 0)
    (nothing : ∀ metaDataInfo, ¬ Decodes reply metaDataInfo)
    (returned : ∀ {Out : Type} (missing : Out → Out) (store : Json → Bytes → Except Stop Out)
      (outputs : Out), readTransactions missing store outputs reply = .ok (code, outputs)) :
    MetadataAgree closeTime transactionInfo certificationInfo outputs reply where
  metaInfo := answered_failure nothing negative (returned _ _ _)
  hashRecord := answered_failure nothing negative (returned _ _ _)
  certification := answered_failure nothing negative (returned _ _ _)

theorem conclusive_of_code (code : rep.errorCode = .ok (true, 0)) :
    Conclusive closeTime (some rep) ↔ ∃ before entry after szHexString,
      Transactions rep (before ++ entry :: after) ∧ (∀ earlier ∈ before, Passable earlier) ∧
      CarriesText entry szHexString ∧
      (parseCreditInfoFromHexString szHexString = none ∨ RecordRead closeTime entry) := by
  constructor
  · rintro (⟨present, number, read, refused⟩ | ⟨-, found⟩)
    · rw [code, Except.ok.injEq, Prod.mk.injEq] at read
      exact absurd ⟨read.1.symm, read.2.symm⟩ refused
    · exact found
  · exact fun found => .inr ⟨code, found⟩

/-- A search that comes to no metadata is not conclusive. -/
theorem not_conclusive {entries : List Json} (code : rep.errorCode = .ok (true, 0))
    (transactions : Transactions rep entries)
    (missed : ∀ entry szHexString, firstTransaction entries ≠ .ok (some (entry, szHexString))) :
    ¬ Conclusive closeTime (some rep) := by
  rw [conclusive_of_code code]
  rintro ⟨before, entry, after, szHexString, transactions', earlier, carries, -⟩
  obtain rfl := transactions_unique transactions transactions'
  exact missed entry szHexString (firstTransaction_split before after earlier carries)

theorem conclusive_found_iff {entry : Json} {before after : List Json} {szHexString : Bytes}
    (code : rep.errorCode = .ok (true, 0)) (transactions : Transactions rep (before ++ entry :: after))
    (earlier : ∀ earlier ∈ before, Passable earlier) (carries : CarriesText entry szHexString) :
    Conclusive closeTime (some rep) ↔
      parseCreditInfoFromHexString szHexString = none ∨ RecordRead closeTime entry := by
  rw [conclusive_of_code code]
  constructor
  · rintro ⟨before', entry', after', szHexString', transactions', earlier', carries', readable⟩
    have one := firstTransaction_split before after earlier carries
    rw [transactions_unique transactions transactions',
      firstTransaction_split before' after' earlier' carries', Except.ok.injEq, Option.some.injEq,
      Prod.mk.injEq] at one
    obtain ⟨rfl, rfl⟩ := one
    exact readable
  · exact fun readable => ⟨before, entry, after, szHexString, transactions, earlier, carries, readable⟩

theorem agree_found_iff {entry : Json} {before after : List Json} {szHexString : Bytes}
    (code : rep.errorCode = .ok (true, 0)) (transactions : Transactions rep (before ++ entry :: after))
    (earlier : ∀ earlier ∈ before, Passable earlier) (carries : CarriesText entry szHexString) :
    MetadataAgree closeTime transactionInfo certificationInfo outputs (some rep) ↔
      parseCreditInfoFromHexString szHexString = none ∨ RecordRead closeTime entry := by
  have decodes := decodes_found_iff code transactions earlier carries
  have first := firstTransaction_split before after earlier carries
  have opened : entry.Open := by
    obtain ⟨value, member, -⟩ := carries
    obtain ⟨transaction, inside, -⟩ := Option.bind_eq_some_iff.mp member
    exact Json.open_of_member inside
  cases decoded : parseCreditInfoFromHexString szHexString with
  | none =>
      refine iff_of_true (agree_of_failure (by decide : (-1 : Int) < 0) ?_ ?_) (.inl rfl)
      · intro metaDataInfo
        rw [decodes, decoded]
        exact nofun
      · intro Out missing store outputs
        rw [readTransactions_listed missing store outputs code transactions, first]
        simp only [bind, Except.bind, decoded]
        rfl
  | some metaDataInfo =>
      have only : ∀ other, Decodes (some rep) other ↔ metaDataInfo = other := fun other => by
        rw [decodes, decoded, Option.some.injEq]
      have returned : ∀ {Out : Type} (missing : Out → Out) (store : Json → Bytes → Except Stop Out)
          (outputs : Out), readTransactions missing store outputs (some rep) = (do
            return (1, ← store entry metaDataInfo)) := by
        intro Out missing store outputs
        rw [readTransactions_listed missing store outputs code transactions, first]
        simp only [bind, Except.bind, decoded]
      have plain : ∀ (missing : Bytes → Bytes) (outputs : Bytes), Answered id outputs (some rep)
          (readTransactions missing (fun _ metaDataInfo => return metaDataInfo) outputs
            (some rep)) := fun missing outputs =>
        (answered_found_iff (.ok metaDataInfo) only (returned missing _ outputs)
          fun out written => by cases written; rfl).mpr ⟨metaDataInfo, rfl⟩
      have record : Answered HashRecord.transactionInfo outputs (some rep)
          (queryTransactionHashRecord closeTime outputs (some rep)) ↔ RecordRead closeTime entry :=
        (answered_found_iff _ only (returned id (storeRecord closeTime) outputs)
          fun out written => storeRecord_info written).trans (storeRecord_iff opened metaDataInfo)
      constructor
      · exact fun agree => .inr (record.mp agree.hashRecord)
      · rintro (undecoded | recorded)
        · cases undecoded
        · exact ⟨plain _ _, record.mpr recorded, plain _ _⟩

end Reply

/-- The three readers keep to the one contract exactly on the replies in which the search ends at
a metadata, with the other fields of a record readable if it decodes, or does not begin. -/
theorem metadata_readers_agree_iff (closeTime : CloseTime) (transactionInfo certificationInfo : Bytes)
    (outputs : HashRecord) (reply : Option Json) :
    MetadataAgree closeTime transactionInfo certificationInfo outputs reply ↔
      Conclusive closeTime reply := by
  cases reply with
  | none =>
      refine iff_of_true (agree_of_failure (by decide : (-1 : Int) < 0) ?_ ?_) trivial
      · rintro metaDataInfo ⟨rep, -, -, -, nothing, -⟩
        cases nothing
      · intros
        rfl
  | some rep =>
      cases code : rep.errorCode with
      | error stop =>
          have raised : parseMetaInfo transactionInfo (some rep) = .error stop := by
            simp only [parseMetaInfo, readTransactions, code, bind, Except.bind]
          refine iff_of_false (fun agree => not_answered_error raised agree.metaInfo) ?_
          · rintro (⟨present, number, read, -⟩ | ⟨read, -⟩)
            · rw [code] at read
              cases read
            · rw [code] at read
              cases read
      | ok answer =>
          obtain ⟨present, number⟩ := answer
          by_cases zero : present = true ∧ number = 0
          · obtain ⟨rfl, rfl⟩ := zero
            by_cases listed : ∃ entries, Transactions rep entries
            · obtain ⟨entries, transactions⟩ := listed
              have scanned := firstTransaction_scanned entries
              generalize outcome : firstTransaction entries = loop at scanned
              have reading := readTransactions_listed (fun _ => text " ")
                (fun _ metaDataInfo => return metaDataInfo) transactionInfo code transactions
              rw [outcome] at reading
              -- `ParseMetaInfoFromTransactionHash` is wrong in each but the last
              cases scanned with
              | nothing all =>
                  exact iff_of_false
                    (fun agree => not_answered_one (not_decodes_nothing transactions all) reading
                      agree.metaInfo)
                    (not_conclusive code transactions fun _ _ found => by rw [outcome] at found; cases found)
              | raised =>
                  exact iff_of_false (fun agree => not_answered_error reading agree.metaInfo)
                    (not_conclusive code transactions fun _ _ found => by rw [outcome] at found; cases found)
              | found earlier carries =>
                  rw [agree_found_iff code transactions earlier carries,
                    conclusive_found_iff code transactions earlier carries]
            -- no list of transactions, and the call returns 1 all the same
            · have nothing : ∀ metaDataInfo, ¬ Decodes (some rep) metaDataInfo := by
                rintro metaDataInfo ⟨rep', entries, -, -, same, -, transactions, -⟩
                cases same
                exact listed ⟨entries, transactions⟩
              refine iff_of_false (fun agree => ?_) ?_
              · rcases readTransactions_unlisted (fun _ => text " ")
                    (fun _ metaDataInfo => return metaDataInfo) transactionInfo code
                    (not_exists.mp listed) with ⟨stop, raised⟩ | ⟨out, one⟩
                · exact not_answered_error raised agree.metaInfo
                · exact not_answered_one nothing one agree.metaInfo
              · rw [conclusive_of_code code]
                rintro ⟨before, entry, after, -, transactions, -⟩
                exact listed ⟨_, transactions⟩
          -- all three return -6
          · have refused : (present, number) ≠ (true, 0) := fun same =>
              zero (Prod.mk.inj same)
            exact iff_of_true
              (agree_of_failure (by decide : (-6 : Int) < 0) (not_decodes_refused code refused)
                fun missing store outputs => readTransactions_refused missing store outputs code zero)
              (.inl ⟨present, number, code, zero⟩)

/-- A reply with the code 0 and no transactions: all three return 1, and one writes a blank. -/
theorem bare_history_accepted (closeTime : CloseTime) (info : Bytes) (outputs : HashRecord) :
    parseMetaInfo info (some (.obj [("error_code", .int 0)])) = .ok (1, text " ") ∧
      queryCertificationInfo info (some (.obj [("error_code", .int 0)])) = .ok (1, info) ∧
      queryTransactionHashRecord closeTime outputs (some (.obj [("error_code", .int 0)])) =
        .ok (1, outputs) :=
  ⟨rfl, rfl, rfl⟩

theorem bare_history_not_refused :
    ¬ MetadataAgree (fun _ => .ok none) [] [] ⟨[], 0, []⟩
      (some (.obj [("error_code", .int 0)])) := by
  intro agree
  have nothing : ∀ metaDataInfo,
      ¬ Decodes (some (.obj [("error_code", .int 0)])) metaDataInfo := by
    rintro metaDataInfo ⟨rep, -, -, -, same, -, ⟨result, inside, -⟩, -⟩
    cases same
    cases inside
  exact not_answered_one nothing (bare_history_accepted (fun _ => .ok none) [] ⟨[], 0, []⟩).1
    agree.metaInfo

end EChainLib.Node
