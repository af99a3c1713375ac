import EChainLib.Support.Lineage
import EChainLib.Node.Integrity
import EChainLib.Node.Calls

/-! The versions of the business records on the ledger, over runs of the calls that
write metadata. -/

namespace EChainLib.Node

open EChainLib.Keys (Bytes PrivateKey cString cString_of_text text)
open EChainLib.Accounts (Database Sql)
open EChainLib.Effects

/-- The reply, where it arrives and lists transactions at all, lists this metadata. -/
def MayReport (reply : Option Json) (metadata : Option Bytes) : Prop :=
  ∀ rep, reply = some rep →
    Lists rep metadata ∨ rep.errorCode ≠ .ok (true, 0) ∨ rep.hasResult "transactions" ≠ .ok true

/-- A chain whose node may fail to answer, but lists nothing else than it keeps. -/
structure HonestChain {Server : Type} (env : Env Server) extends Chain env where
  history : ∀ hash server, MayReport (env.http (.getTransactionHistory hash) server).1
    (((ledger server).find? fun entry => entry.hash = hash).bind Entry.metadata)

variable {Server : Type} {env : Env Server} (json : JsonLib)

/-! Records. -/

/-- A business record as it is written on the ledger: what can be read of its version
and of its `preHash`, and the contract it was written for. -/
structure Record where
  contractAddress : Bytes
  transactionHash : Bytes
  version : Option Int
  preHash : Option Bytes
  deriving DecidableEq

/-- The document in a transaction's metadata. -/
def documentOf (entry : Entry) : Option Json := do
  json.parse (cString (← parseCreditInfoFromHexString (← entry.metadata)))

def versionOf (document : Json) : Except Stop Int := do (← document.get "version").asInt

def preHashOf (document : Json) : Except Stop Bytes := do (← document.get "preHash").asString

def recordOf (contractAddress : Bytes) (entry : Entry) : Record where
  contractAddress := contractAddress
  transactionHash := entry.hash
  version := (documentOf json entry).bind fun document => (versionOf document).toOption
  preHash := (documentOf json entry).bind fun document => (preHashOf document).toOption

/-- The records among the transactions that a call has added for a contract. -/
def recordsOf (contractAddress : Bytes) (added : List Entry) : List Record :=
  (added.filter fun entry => entry.metadata.isSome).map (recordOf json contractAddress)

theorem recordsOf_append (contractAddress : Bytes) (added more : List Entry) :
    recordsOf json contractAddress (added ++ more) =
      recordsOf json contractAddress added ++ recordsOf json contractAddress more := by
  rw [recordsOf, List.filter_append, List.map_append]
  rfl

theorem mem_recordsOf (contractAddress : Bytes) (added : List Entry) (record : Record) :
    record ∈ recordsOf json contractAddress added ↔
      ∃ entry ∈ added, entry.metadata.isSome ∧ recordOf json contractAddress entry = record := by
  simp [recordsOf, and_assoc]

/-- How records are linked: the first version has the `preHash` " ". -/
def lineage : Lineage.Reading Record Bytes Bytes where
  name := Record.transactionHash
  owner := Record.contractAddress
  version := Record.version
  follows := Record.preHash
  origin := text " "

/-- The metadata is the hexadecimal text of a document with this version and link. -/
def Spells (metadata : Bytes) (version : Int) (preHash : Bytes) : Prop :=
  ∃ members, strToHex (json.toStyledString (.obj members)) = some metadata ∧
    members.lookup "version" = some (.int version) ∧
    members.lookup "preHash" = some (.str preHash)

theorem businessJson_spells {businessType : Int32} {operationType : Int}
    {dataHash preHash dataPath : Bytes} {descInfo : Json} {version : Int} {barTime metadata : Bytes}
    (spelled : strToHex (json.toStyledString (.obj (businessJson businessType operationType dataHash
      preHash dataPath descInfo version barTime))) = some metadata) :
    Spells json metadata version preHash :=
  ⟨_, spelled, rfl, rfl⟩

/-- A document is read as it was written, as long as its version is an `int`. -/
theorem documentOf_spelled {entry : Entry} {metadata : Bytes} {version : Int} {preHash : Bytes}
    (carried : entry.metadata = some metadata) (spells : Spells json metadata version preHash)
    (counted : -2 ^ 31 ≤ version ∧ version < 2 ^ 31) :
    ∃ document, documentOf json entry = some document ∧ versionOf document = .ok version ∧
      preHashOf document = .ok preHash := by
  obtain ⟨members, spelled, versioned, linked⟩ := spells
  have clean := json.styled_text (.obj members)
  have info : parseCreditInfoFromHexString metadata = some (json.toStyledString (.obj members)) := by
    rw [parseCreditInfoFromHexString, hexToStr_strToHex _ _ clean spelled, Option.map_some,
      cString_of_text _ clean]
  obtain ⟨read, parses, strings, numbers⟩ := json.reads_back members
  refine ⟨.obj read, ?_, ?_, ?_⟩
  · simp only [documentOf, carried, info, cString_of_text _ clean, parses, bind, Option.bind_some]
  · have in_int : Json.inInt version = .ok version := if_pos counted
    simp [versionOf, Json.get, numbers _ _ counted versioned, bind, Except.bind, Json.asInt, in_int]
  · simp [preHashOf, Json.get, strings _ _ linked, bind, Except.bind, Json.asString]

theorem recordOf_spelled {entry : Entry} {metadata : Bytes} {version : Int} {preHash : Bytes}
    (carried : entry.metadata = some metadata) (spells : Spells json metadata version preHash)
    (counted : -2 ^ 31 ≤ version ∧ version < 2 ^ 31) (contractAddress : Bytes) :
    recordOf json contractAddress entry =
      ⟨contractAddress, entry.hash, some version, some preHash⟩ := by
  obtain ⟨document, parsed, read_version, read_link⟩ :=
    documentOf_spelled json carried spells counted
  rw [recordOf, parsed, Option.bind_some, Option.bind_some, read_version, read_link]
  rfl

/-! What the calls append. -/

theorem adds_mono {chain : Chain env} {property weaker : Entry → Prop} {start last : World Server}
    (small : (adds chain property).rel start last)
    (weakens : ∀ entry, property entry → weaker entry) : (adds chain weaker).rel start last := by
  obtain ⟨added, grown, good, distinct⟩ := small
  exact ⟨added, grown, fun entry member => weakens entry (good entry member), distinct⟩

theorem certification_adds (chain : Chain env) (blockAddress userName certificationInfo : Bytes)
    (fuel : Nat) :
    Within (grows chain)
      (eChainUserCertification env blockAddress userName certificationInfo fuel) := by
  have rounds (prv : PrivateKey) (info : Bytes) (fuel : Nat) :
      Within (grows chain) (certificationRounds env prv blockAddress userName info fuel) := by
    induction fuel with
    | zero => exact within_throw _
    | succ fuel ih =>
        apply within_bind (httpRequest_adds _ fun _ => Request.noConfusion)
        intro reply
        apply within_bind (check_within _ _)
        intro iNonceNum
        dsimp only
        split_ifs
        · exact within_pure _
        · split
          · exact within_pure _
          · apply within_bind (submitLoop_adds _ _ _ (fun _ _ => trivial) _ _)
            intro submitEnd
            cases submitEnd with
            | accepted transactionHash => exact within_bind (callDb_adds _) fun _ => within_pure _
            | restart => exact ih
            | obtain =>
                apply within_bind (obtainAssetCode_within (adds_covers fun _ _ => trivial) _ _ _ _)
                intro paid
                split_ifs
                · exact within_pure _
                · exact ih
            | failed code => exact within_pure _
  apply within_bind (callDb_adds _)
  intro key
  cases key with
  | none => exact within_pure _
  | some blockPrvKey => exact rounds _ _ _

/-- A transaction of a storing call, if it has metadata, spells a first version. -/
def Begins (entry : Entry) : Prop :=
  ∀ metadata, entry.metadata = some metadata → Spells json metadata 1 (text " ")

theorem storage_adds (chain : Chain env) (contractAddress : Bytes) (businessType : Int32)
    (dataHash dataPath descInfo : Bytes) (fuel : Nat) :
    Within (adds chain (Begins json)) (eChainBusinessDataStorage env json contractAddress
      businessType dataHash dataPath descInfo fuel) := by
  have bare (entry : Entry) (none_carried : entry.metadata = none) : Begins json entry := by
    intro metadata carried
    rw [none_carried] at carried
    cases carried
  apply within_bind (callDb_adds _)
  intro key
  cases key with
  | none => exact within_pure _
  | some blockPrvKey =>
      apply businessRounds_adds json _ _ _ _ _ bare (newDocument_adds json chain _ _ _ _ _)
      intro start blockJson state made entry spelled metadata carried
      obtain ⟨descJson, barTime, rfl⟩ := newDocument_ok json made
      exact businessJson_spells json (spelled.symm.trans carried)

/-- The document that a reply is read as is the one the ledger keeps under the hash. -/
theorem readMetaInfo_honest {rep : Json} {metadata : Option Bytes} {code : Int} {info : Bytes}
    {document : Json}
    (honest : Lists rep metadata ∨ rep.errorCode ≠ .ok (true, 0) ∨
      rep.hasResult "transactions" ≠ .ok true)
    (read : readMetaInfo rep = .ok (code, info)) (accepted : 0 ≤ code)
    (parsed : json.parse (cString info) = some document) :
    ∃ szHexString, metadata = some szHexString ∧
      parseCreditInfoFromHexString szHexString = some info := by
  -- the reply lists the transaction of the hash, is an error or lists none
  rcases honest with lists | honest
  · rw [readMetaInfo_lists rep metadata lists, Except.ok.injEq] at read
    cases metadata with
    | none =>
        cases read
        simp [cString, json.parse_empty] at parsed
    | some szHexString =>
        cases spelled : parseCreditInfoFromHexString szHexString with
        | none =>
            simp only [infoOf, spelled] at read
            cases read
            exact absurd accepted (by decide)
        | some metaDataInfo =>
            simp only [infoOf, spelled] at read
            cases read
            exact ⟨szHexString, rfl, spelled⟩
  · -- no transaction is listed, and what is read has no document
    exfalso
    unfold readMetaInfo at read
    cases coded : rep.errorCode with
    | error stop => simp [coded, bind, Except.bind] at read
    | ok answer =>
        obtain ⟨present, error⟩ := answer
        by_cases success : present = true ∧ error = 0
        · obtain ⟨rfl, rfl⟩ := success
          have unlisted := honest.resolve_left (not_not.mpr coded)
          cases has : rep.hasResult "transactions" with
          | error stop => simp [coded, has, bind, Except.bind] at read
          | ok listed =>
              cases listed with
              | true => exact unlisted has
              | false =>
                  simp [coded, has, bind, Except.bind, pure, Except.pure] at read
                  obtain ⟨rfl, rfl⟩ := read
                  have blank : cString (text " ") = text " " := by decide +kernel
                  rw [blank, json.parse_blank] at parsed
                  cases parsed
        · simp only [coded, bind, Except.bind, success, if_false, pure, Except.pure] at read
          cases read
          exact absurd accepted (by decide)

variable (chain : HonestChain env)

/-- The transaction that the ledger keeps under a hash. -/
def kept (chain : HonestChain env) (world : World Server) (hash : Bytes) : Option Entry :=
  (chain.ledger world.server).find? fun entry => entry.hash = hash

theorem parseMetaInfo_reads (hash : Bytes) (world : World Server) :
    Ends (parseMetaInfoFromTransactionHash env hash) world
      (fun answer after => chain.ledger after.server = chain.ledger world.server ∧
        (0 ≤ answer.1 → ∀ document, json.parse (cString answer.2) = some document →
          ∃ parent, kept chain world hash = some parent ∧ documentOf json parent = some document))
      (fun _ after => chain.ledger after.server = chain.ledger world.server) := by
  have same := chain.quiet (.getTransactionHistory hash) world.server fun _ => Request.noConfusion
  have honest := chain.history hash world.server
  unfold Ends
  rw [parseMetaInfo_eq]
  cases received : (env.http (.getTransactionHistory hash) world.server).1 with
  | none =>
      refine ⟨same, fun accepted => ?_⟩
      exact absurd accepted (by decide)
  | some rep =>
      dsimp only
      cases read : readMetaInfo rep with
      | error stop => exact same
      | ok answer =>
          refine ⟨same, fun accepted document parsed => ?_⟩
          obtain ⟨szHexString, found, spelled⟩ :=
            readMetaInfo_honest json (honest rep received) read accepted parsed
          obtain ⟨parent, listed, carried⟩ := Option.bind_eq_some_iff.mp found
          refine ⟨parent, listed, ?_⟩
          simp only [documentOf, carried, spelled, bind, Option.bind_some, parsed]

/-- A transaction of an updating call, if it has metadata, spells the version after the
one that was found under `preTranxHash`. -/
def Continues (start : World Server) (preTranxHash : Bytes) (entry : Entry) : Prop :=
  ∀ metadata, entry.metadata = some metadata →
    ∃ parent document iVersion, kept chain start preTranxHash = some parent ∧
      documentOf json parent = some document ∧ versionOf document = .ok iVersion ∧
      Spells json metadata (iVersion + 1) preTranxHash

theorem update_adds (contractAddress : Bytes) (updateType businessType : Int32)
    (preTranxHash dataHash dataPath descInfo : Bytes) (fuel : Nat) (start : World Server) :
    (adds chain.toChain (Continues json chain start preTranxHash)).rel start
      (last (eChainBusinessDataUpdate env json contractAddress updateType businessType preTranxHash
        dataHash dataPath descInfo fuel) start) := by
  have bare (entry : Entry) (none_carried : entry.metadata = none) :
      Continues json chain start preTranxHash entry := by
    intro metadata carried
    rw [none_carried] at carried
    cases carried
  have since {state : World Server}
      (same : chain.ledger state.server = chain.ledger start.server) :
      (adds chain.toChain (Continues json chain start preTranxHash)).rel start state :=
    adds_same start state same
  have clock {raised : Stop → World Server → Prop} : Ends (getCurTimeByString env) start
      (fun _ state => state.server = start.server) raised := rfl
  apply last_of_ends
  apply ends_bind _ clock
  intro szBarTime world same
  have unmoved : kept chain world preTranxHash = kept chain start preTranxHash := by
    rw [kept, same, kept]
  apply ends_bind _ (ends_mono (parseMetaInfo_reads json chain preTranxHash world)
    (fun _ _ holds => holds) fun _ state moved => since (by rw [moved, same]))
  -- a negative answer and a text that is no document end the call with the ledger as it was
  rintro ⟨code, transactionInfo⟩ state ⟨moved, reads⟩
  replace moved : chain.ledger state.server = chain.ledger start.server := by rw [moved, same]
  dsimp only at reads ⊢
  split_ifs with negative
  · exact ends_pure _ (since moved)
  · split
    · rename_i descJson meteJson _ parsed
      obtain ⟨parent, listed, document⟩ := reads (not_lt.mp negative) meteJson parsed
      apply ends_bind (fun iVersion after => after = state ∧ versionOf meteJson = .ok iVersion)
        (check_ends (versionOf meteJson) state (fun iVersion read => ⟨rfl, read⟩)
          fun _ => since moved)
      rintro iVersion _ ⟨rfl, read⟩
      apply ends_since (since moved)
      apply within_bind (callDb_adds _)
      intro key
      cases key with
      | none => exact within_pure _
      | some blockPrvKey =>
          -- the version of the document read, and one more in each document that a round submits
          apply businessRounds_adds json _ _ _ _ _ bare (within_pure _)
          intro start blockJson state made entry spelled metadata carried
          cases made
          exact ⟨parent, meteJson, iVersion, unmoved ▸ listed, document, read,
            businessJson_spells json (spelled.symm.trans carried)⟩
    · exact ends_pure _ (since moved)

theorem update_grows (chain : Chain env) (contractAddress : Bytes) (updateType businessType : Int32)
    (preTranxHash dataHash dataPath descInfo : Bytes) (fuel : Nat) :
    Within (grows chain) (eChainBusinessDataUpdate env json contractAddress updateType businessType
      preTranxHash dataHash dataPath descInfo fuel) := by
  intro start
  exact adds_mono (run_adds json chain
    (.update ⟨contractAddress, businessType, dataHash, dataPath⟩ updateType preTranxHash descInfo
      fuel) start) fun _ _ => trivial

theorem deleteLoop_grows (chain : Chain env) (contractAddress descInfo : Bytes) (fuel : Nat)
    (items : List BusinessDataItem) :
    Within (grows chain) (deleteLoop env json contractAddress descInfo fuel items) := by
  induction items with
  | nil => exact within_pure _
  | cons item rest ih =>
      apply within_bind (update_grows json chain _ _ _ _ _ _ _ _)
      rintro ⟨code, answer⟩
      dsimp only
      split_ifs
      · exact within_pure _
      · exact ih

/-- The loop ends with the update of its first item, or goes on from there. -/
theorem deleteLoop_cons (env : Env Server) (contractAddress descInfo : Bytes) (fuel : Nat)
    (item : BusinessDataItem) (rest : List BusinessDataItem) (start : World Server) :
    let middle := last (eChainBusinessDataUpdate env json contractAddress DELETE item.BusinessType
      item.TransactionHash item.DataHsh [] descInfo fuel) start
    last (deleteLoop env json contractAddress descInfo fuel (item :: rest)) start = middle ∨
      last (deleteLoop env json contractAddress descInfo fuel (item :: rest)) start =
        last (deleteLoop env json contractAddress descInfo fuel rest) middle := by
  dsimp only
  unfold last
  cases outcome : eChainBusinessDataUpdate env json contractAddress DELETE item.BusinessType
      item.TransactionHash item.DataHsh [] descInfo fuel start with
  | error stop state => exact .inl (by rw [deleteLoop, bind_of_error outcome])
  | ok answer state =>
      rw [deleteLoop, bind_of_ok outcome]
      dsimp only
      split_ifs
      · exact .inl rfl
      · exact .inr rfl

/-! Runs. -/

inductive WritingCall where
  | business (call : BusinessCall)
  | delete (blockAddress contractAddress descInfo : Bytes) (fuel : Nat)
  | certification (blockAddress userName certificationInfo : Bytes) (fuel : Nat)

def WritingCall.after (env : Env Server) (world : World Server) : WritingCall → World Server
  | .business call => last (call.run env json) world
  | .delete blockAddress contractAddress descInfo fuel =>
      last (eChainContractAddressDelete env json blockAddress contractAddress descInfo fuel) world
  | .certification blockAddress userName certificationInfo fuel =>
      last (eChainUserCertification env blockAddress userName certificationInfo fuel) world

/-- The contract that the call writes business records for. -/
def WritingCall.owner : WritingCall → Option Bytes
  | .business call => some call.document.contractAddress
  | .delete _ contractAddress _ _ => some contractAddress
  | .certification _ _ _ _ => none

/-- The hashes that the call takes for those of earlier records. -/
def WritingCall.links (env : Env Server) (world : World Server) : WritingCall → List Bytes
  | .business (.storage _ _ _) => []
  | .business (.update _ _ preTranxHash _ _) => [preTranxHash]
  | .delete _ contractAddress _ _ =>
      (selectedRows contractAddress (env.sql world.ticks) world.db).map fun row =>
        cString row.transactionhash
  | .certification _ _ _ _ => []

structure RecordRun (Server : Type) where
  world : World Server
  records : List Record

/-- The run goes on to a world, and what it has added for the contract are records. -/
def RecordRun.extend (run : RecordRun Server) (contractAddress : Bytes) (world : World Server) :
    RecordRun Server where
  world := world
  records := run.records ++ recordsOf json contractAddress
    ((chain.ledger world.server).drop (chain.ledger run.world.server).length)

def recordStep (run : RecordRun Server) (call : WritingCall) : RecordRun Server :=
  match call.owner with
  | some contractAddress => run.extend json chain contractAddress (call.after json env run.world)
  | none => { run with world := call.after json env run.world }

/-- If the ledger keeps metadata under the hash, it is a record of the contract. -/
def OwnLink (run : RecordRun Server) (contractAddress hash : Bytes) : Prop :=
  ∀ entry, kept chain run.world hash = some entry → entry.metadata.isSome →
    ∃ record ∈ run.records, record.contractAddress = contractAddress ∧
      record.transactionHash = hash

/-- The call links to records of its own contract only, and an `int` can count the
records written so far and those that are to follow them. -/
structure SoundLinks (run : RecordRun Server) (call : WritingCall) : Prop where
  own : ∀ contractAddress, call.owner = some contractAddress →
    ∀ hash ∈ call.links env run.world, OwnLink chain run contractAddress hash
  countable : run.records.length + (call.links env run.world).length < 2 ^ 31

/-- The invariant of a run. -/
structure Versioned (run : RecordRun Server) : Prop where
  distinct : ((chain.ledger run.world.server).map (·.hash)).Nodup
  listed : (run.records.map (·.transactionHash)).Sublist
    ((chain.ledger run.world.server).map (·.hash))
  recorded : ∀ record ∈ run.records, ∃ entry ∈ chain.ledger run.world.server,
    entry.metadata.isSome ∧ recordOf json record.contractAddress entry = record
  formed : Lineage.WellFormed lineage run.records

section Steps

variable {json chain} {run : RecordRun Server} {contractAddress : Bytes}

theorem extend_records (run : RecordRun Server) {world : World Server} {added : List Entry}
    (grown : chain.ledger world.server = chain.ledger run.world.server ++ added) :
    (run.extend json chain contractAddress world).records =
      run.records ++ recordsOf json contractAddress added := by
  rw [RecordRun.extend, grown, List.drop_left]

theorem extend_extend {middle last : World Server} {added more : List Entry}
    (grown : chain.ledger middle.server = chain.ledger run.world.server ++ added)
    (grown_on : chain.ledger last.server = chain.ledger middle.server ++ more) :
    (run.extend json chain contractAddress middle).extend json chain contractAddress last =
      run.extend json chain contractAddress last := by
  have whole : chain.ledger last.server = chain.ledger run.world.server ++ (added ++ more) := by
    rw [grown_on, grown, List.append_assoc]
  have records : ((run.extend json chain contractAddress middle).extend json chain contractAddress
      last).records = (run.extend json chain contractAddress last).records := by
    rw [extend_records (run.extend json chain contractAddress middle) grown_on,
      extend_records run grown, extend_records run whole, recordsOf_append, List.append_assoc]
  unfold RecordRun.extend at records ⊢
  simp only [RecordRun.mk.injEq, true_and]
  exact records

/-- A record is found where the ledger keeps metadata under its hash. -/
theorem kept_recorded (versioned : Versioned json chain run) {record : Record}
    (member : record ∈ run.records) {entry : Entry}
    (found : kept chain run.world record.transactionHash = some entry) :
    recordOf json record.contractAddress entry = record := by
  obtain ⟨other, listed, _, read⟩ := versioned.recorded record member
  have named : other.hash = record.transactionHash := by rw [← read]; rfl
  have same : entry.hash = record.transactionHash := by simpa [kept] using List.find?_some found
  rw [List.inj_on_of_nodup_map versioned.distinct (List.mem_of_find?_eq_some found) listed
    (same.trans named.symm), read]

/-- What a part of a call leaves, if all that it has added is linked. -/
theorem extend_versioned (versioned : Versioned json chain run) {world : World Server}
    {added : List Entry}
    (grown : chain.ledger world.server = chain.ledger run.world.server ++ added)
    (distinct : ((chain.ledger world.server).map (·.hash)).Nodup)
    (linked : ∀ entry ∈ added, entry.metadata.isSome →
      Lineage.Linked lineage run.records (recordOf json contractAddress entry)) :
    Versioned json chain (run.extend json chain contractAddress world) := by
  constructor
  · exact distinct
  · rw [extend_records run grown, List.map_append]
    show List.Sublist _ ((chain.ledger world.server).map _)
    rw [grown, List.map_append]
    apply List.Sublist.append versioned.listed
    rw [recordsOf, List.map_map]
    exact List.filter_sublist.map _
  · intro record member
    show ∃ entry ∈ chain.ledger world.server, _
    rw [extend_records run grown, List.mem_append, mem_recordsOf] at member
    rw [grown]
    rcases member with old | ⟨entry, new, carries, rfl⟩
    · obtain ⟨entry, listed, found⟩ := versioned.recorded record old
      exact ⟨entry, List.mem_append_left _ listed, found⟩
    · exact ⟨entry, List.mem_append_right _ new, carries, rfl⟩
  · rw [extend_records run grown]
    apply Lineage.wellFormed_append versioned.formed
    intro record member
    obtain ⟨entry, new, carries, rfl⟩ := (mem_recordsOf json _ _ _).mp member
    exact linked entry new carries

theorem ownLink_extend {hash : Bytes} (own : OwnLink chain run contractAddress hash)
    {world : World Server} {added : List Entry}
    (grown : chain.ledger world.server = chain.ledger run.world.server ++ added) :
    OwnLink chain (run.extend json chain contractAddress world) contractAddress hash := by
  intro entry found carries
  have named : entry.hash = hash := by simpa [kept] using List.find?_some found
  rw [extend_records run grown]
  have search : (chain.ledger run.world.server ++ added).find? (fun entry => entry.hash = hash) =
      some entry := by
    rw [← grown]
    exact found
  rw [List.find?_append, Option.or_eq_some_iff] at search
  rcases search with old | ⟨_, new⟩
  · obtain ⟨record, member, owned, same⟩ := own entry old carries
    exact ⟨record, List.mem_append_left _ member, owned, same⟩
  · refine ⟨recordOf json contractAddress entry, List.mem_append_right _ ?_, rfl, named⟩
    exact (mem_recordsOf json _ _ _).mpr ⟨entry, List.mem_of_find?_eq_some new, carries, rfl⟩

theorem documentOf_carries {entry : Entry} {document : Json}
    (parsed : documentOf json entry = some document) : entry.metadata.isSome := by
  cases carried : entry.metadata with
  | none => simp [documentOf, carried] at parsed
  | some metadata => rfl

theorem storage_versioned (versioned : Versioned json chain run) (businessType : Int32)
    (dataHash dataPath descInfo : Bytes) (fuel : Nat) :
    Versioned json chain (run.extend json chain contractAddress
      (last (eChainBusinessDataStorage env json contractAddress businessType dataHash dataPath
        descInfo fuel) run.world)) := by
  obtain ⟨added, grown, good, distinct⟩ := storage_adds json chain.toChain contractAddress
    businessType dataHash dataPath descInfo fuel run.world
  apply extend_versioned versioned grown (distinct versioned.distinct)
  intro entry new carries
  obtain ⟨metadata, carried⟩ := Option.isSome_iff_exists.mp carries
  rw [recordOf_spelled json carried (good entry new metadata carried) (by decide) contractAddress]
  exact .inl ⟨rfl, rfl⟩

/-- No version is beyond the bound. -/
def VersionsUpTo (bound : Nat) (records : List Record) : Prop :=
  ∀ record ∈ records, ∀ version, record.version = some version → version ≤ bound

theorem versionsUpTo_length (versioned : Versioned json chain run) :
    VersionsUpTo run.records.length run.records := by
  intro record member version counted
  obtain ⟨other, known, _, few⟩ := Lineage.version_le_length versioned.formed member
  obtain rfl : version = other := Option.some.inj (counted.symm.trans known)
  exact few

/-- An update adds one version at most. -/
theorem update_versioned (versioned : Versioned json chain run) (updateType businessType : Int32)
    (preTranxHash dataHash dataPath descInfo : Bytes) (fuel bound : Nat)
    (own : OwnLink chain run contractAddress preTranxHash)
    (counted : VersionsUpTo bound run.records) (small : bound + 1 < 2 ^ 31) :
    let after := run.extend json chain contractAddress
      (last (eChainBusinessDataUpdate env json contractAddress updateType businessType preTranxHash
        dataHash dataPath descInfo fuel) run.world)
    Versioned json chain after ∧ VersionsUpTo (bound + 1) after.records := by
  obtain ⟨added, grown, good, distinct⟩ := update_adds json chain contractAddress updateType
    businessType preTranxHash dataHash dataPath descInfo fuel run.world
  -- what is added with metadata continues a record of the run, since the link is its own
  have follows : ∀ entry ∈ added, entry.metadata.isSome → ∃ record ∈ run.records,
      record.contractAddress = contractAddress ∧ record.transactionHash = preTranxHash ∧
        ∃ version : Int, record.version = some version ∧ version ≤ bound ∧
          recordOf json contractAddress entry =
            ⟨contractAddress, entry.hash, some (version + 1), some preTranxHash⟩ := by
    intro entry new carries
    obtain ⟨metadata, carried⟩ := Option.isSome_iff_exists.mp carries
    obtain ⟨parent, document, iVersion, found, parsed, read, spells⟩ :=
      good entry new metadata carried
    obtain ⟨record, member, owned, named⟩ := own parent found (documentOf_carries parsed)
    have recorded := kept_recorded versioned member (named ▸ found)
    have version_read : record.version = some iVersion := by
      rw [← recorded, recordOf, parsed, Option.bind_some, read]
      rfl
    obtain ⟨version, known, positive, _⟩ := Lineage.version_le_length versioned.formed member
    obtain rfl : iVersion = version := Option.some.inj (version_read.symm.trans known)
    have bounded := counted record member iVersion known
    exact ⟨record, member, owned, named, iVersion, known, bounded,
      recordOf_spelled json carried spells ⟨by omega, by omega⟩ contractAddress⟩
  constructor
  · apply extend_versioned versioned grown (distinct versioned.distinct)
    intro entry new carries
    obtain ⟨record, member, owned, named, version, known, _, read⟩ := follows entry new carries
    rw [read]
    exact .inr ⟨record, member, owned, by rw [← named]; rfl, version, known, rfl⟩
  · intro record member version read
    rw [extend_records run grown, List.mem_append, mem_recordsOf] at member
    rcases member with old | ⟨entry, new, carries, rfl⟩
    · have := counted record old version read
      omega
    · obtain ⟨_, _, _, _, before, _, bounded, written⟩ := follows entry new carries
      rw [written] at read
      cases read
      omega

theorem deleteLoop_versioned (descInfo : Bytes) (fuel bound : Nat) (items : List BusinessDataItem)
    (versioned : Versioned json chain run)
    (own : ∀ item ∈ items, OwnLink chain run contractAddress item.TransactionHash)
    (counted : VersionsUpTo bound run.records) (small : bound + items.length < 2 ^ 31) :
    Versioned json chain (run.extend json chain contractAddress
      (last (deleteLoop env json contractAddress descInfo fuel items) run.world)) := by
  induction items generalizing run bound with
  | nil =>
      apply extend_versioned versioned (List.append_nil _).symm versioned.distinct
      exact nofun
  | cons item rest ih =>
      rw [List.length_cons] at small
      have updated := update_versioned versioned DELETE item.BusinessType item.TransactionHash
        item.DataHsh [] descInfo fuel bound (own item List.mem_cons_self) counted (by omega)
      obtain ⟨added, grown, _⟩ := update_grows json chain.toChain contractAddress DELETE
        item.BusinessType item.TransactionHash item.DataHsh [] descInfo fuel run.world
      have ends := deleteLoop_cons json env contractAddress descInfo fuel item
        rest run.world
      dsimp only at ends updated
      generalize last (eChainBusinessDataUpdate env json contractAddress DELETE item.BusinessType
        item.TransactionHash item.DataHsh [] descInfo fuel) run.world = middle at *
      rcases ends with ended | continued
      · rw [ended]
        exact updated.1
      · obtain ⟨more, grown_on, _⟩ :=
          deleteLoop_grows json chain.toChain contractAddress descInfo fuel rest middle
        rw [continued, ← extend_extend grown grown_on]
        refine ih (bound + 1) updated.1 ?_ updated.2 (by omega)
        intro other member
        exact ownLink_extend (own other (List.mem_cons_of_mem item member)) grown

/-- Behind the select the loop goes over items of the selected rows, or nothing is done. -/
theorem contractAddressDelete_cases (blockAddress contractAddress descInfo : Bytes) (fuel : Nat)
    (world : World Server) :
    let after := last (eChainContractAddressDelete env json blockAddress contractAddress descInfo
      fuel) world
    after.server = world.server ∨
      ∃ items state, (items.map (·.TransactionHash)).Perm
          ((selectedRows contractAddress (env.sql world.ticks) world.db).map fun row =>
            cString row.transactionhash) ∧
        state = { world with
          ticks := world.ticks + 1
          buffers := world.buffers ++ deleteBuffers contractAddress (env.sql world.ticks) world.db } ∧
        after = last (deleteLoop env json contractAddress descInfo fuel items) state := by
  have run := fun ended db => contractAddressDelete_run env json blockAddress contractAddress
    descInfo fuel world ended db
  have ends := selectForDelete_cases contractAddress (env.sql world.ticks) world.db
  dsimp only at ends ⊢
  unfold last
  rcases ends with ⟨_, found⟩ | ⟨_, _, found⟩ | ⟨_, _, found⟩ | ⟨_, _, _, found⟩ |
    ⟨_, _, _, items, found, _, perm⟩
  · exact .inl (by rw [run _ _ found]; rfl)
  · exact .inl (by rw [run _ _ found]; rfl)
  · exact .inl (by rw [run _ _ found]; rfl)
  · exact .inl (by rw [run _ _ found]; rfl)
  · refine .inr ⟨items, _, perm, rfl, ?_⟩
    rw [run _ _ found, deleteSelected]
    generalize ({ world with
      ticks := world.ticks + 1
      buffers := world.buffers ++ deleteBuffers contractAddress (env.sql world.ticks) world.db } :
        World Server) = state
    cases looped : deleteLoop env json contractAddress descInfo fuel items state with
    | ok code after => rw [bind_of_ok looped]; rfl
    | error stop after => rw [bind_of_error looped]

theorem delete_versioned (versioned : Versioned json chain run) (blockAddress descInfo : Bytes)
    (fuel : Nat)
    (own : ∀ row ∈ selectedRows contractAddress (env.sql run.world.ticks) run.world.db,
      OwnLink chain run contractAddress (cString row.transactionhash))
    (countable : run.records.length +
      (selectedRows contractAddress (env.sql run.world.ticks) run.world.db).length < 2 ^ 31) :
    Versioned json chain (run.extend json chain contractAddress
      (last (eChainContractAddressDelete env json blockAddress contractAddress descInfo fuel)
        run.world)) := by
  have ended := @contractAddressDelete_cases Server env json blockAddress contractAddress descInfo
    fuel run.world
  rcases ended with same | ⟨items, state, perm, rfl, looped⟩
  · apply extend_versioned versioned (by rw [same, List.append_nil])
    · rw [same]
      exact versioned.distinct
    · exact nofun
  · rw [looped]
    have started : Versioned json chain { run with world := { run.world with
        ticks := run.world.ticks + 1
        buffers := run.world.buffers ++
          deleteBuffers contractAddress (env.sql run.world.ticks) run.world.db } } :=
      ⟨versioned.distinct, versioned.listed, versioned.recorded, versioned.formed⟩
    have lengths := perm.length_eq
    rw [List.length_map, List.length_map] at lengths
    apply deleteLoop_versioned descInfo fuel run.records.length items started _
      (versionsUpTo_length versioned) (by omega)
    intro other member
    obtain ⟨row, listed, same⟩ :=
      List.mem_map.mp (perm.subset (List.mem_map_of_mem member))
    have linked := own row listed
    rw [same] at linked
    exact linked

theorem certification_versioned (versioned : Versioned json chain run)
    (blockAddress userName certificationInfo : Bytes) (fuel : Nat) :
    Versioned json chain ⟨last (eChainUserCertification env blockAddress userName certificationInfo
      fuel) run.world, run.records⟩ := by
  obtain ⟨added, grown, _, distinct⟩ :=
    certification_adds chain.toChain blockAddress userName certificationInfo fuel run.world
  constructor
  · exact distinct versioned.distinct
  · refine versioned.listed.trans ?_
    rw [grown, List.map_append]
    exact List.sublist_append_left _ _
  · intro record member
    obtain ⟨entry, listed, found⟩ := versioned.recorded record member
    refine ⟨entry, ?_, found⟩
    rw [grown]
    exact List.mem_append_left added listed
  · exact versioned.formed

/-- What a step with sound links keeps. -/
theorem recordStep_versioned (run : RecordRun Server) (call : WritingCall)
    (versioned : Versioned json chain run) (sound : SoundLinks chain run call) :
    Versioned json chain (recordStep json chain run call) := by
  obtain ⟨own, countable⟩ := sound
  cases call with
  | business call =>
      cases call with
      | storage document descInfo fuel =>
          exact storage_versioned versioned _ _ _ _ _
      | update document updateType preTranxHash descInfo fuel =>
          have linked := own document.contractAddress rfl preTranxHash (List.mem_singleton_self _)
          exact (update_versioned versioned _ _ _ _ _ _ _ _ linked (versionsUpTo_length versioned)
            countable).1
  | delete blockAddress contractAddress descInfo fuel =>
      rw [WritingCall.links, List.length_map] at countable
      apply delete_versioned versioned blockAddress descInfo fuel _ countable
      intro row listed
      exact own contractAddress rfl _ (List.mem_map_of_mem listed)
  | certification blockAddress userName certificationInfo fuel =>
      exact certification_versioned versioned _ _ _ _

end Steps

/-- In a run whose links are sound every record is a first version or follows a record of
the same contract, and its version counts the steps back to a first version. -/
theorem versions_linked (start : World Server)
    (distinct : ((chain.ledger start.server).map (·.hash)).Nodup) (calls : List WritingCall)
    (sound : Run.Meets (recordStep json chain) (SoundLinks chain) ⟨start, []⟩ calls) :
    ∀ run ∈ Run.states (recordStep json chain) ⟨start, []⟩ calls,
      Lineage.WellFormed lineage run.records ∧
      ∀ record ∈ run.records, ∃ steps : Nat, record.version = some (steps + 1 : Int) ∧
        ∃ root, Lineage.ancestor lineage run.records steps record = some root ∧
          root.version = some 1 ∧ root.contractAddress = record.contractAddress := by
  intro run reached
  have versioned : Versioned json chain run := by
    apply Run.invariant_along (recordStep json chain) (SoundLinks chain) (Versioned json chain)
      recordStep_versioned ⟨start, []⟩ calls _ sound run reached
    exact ⟨distinct, List.nil_sublist _, nofun, Lineage.wellFormed_nil⟩
  refine ⟨versioned.formed, fun record member => ?_⟩
  obtain ⟨steps, counted, root, back, rooted, owned⟩ :=
    Lineage.ancestor_root versioned.formed (versioned.listed.nodup versioned.distinct) member
  exact ⟨steps, counted, root, back, rooted.1, owned⟩

def FaithfulChain.honest (chain : FaithfulChain env) : HonestChain env where
  toChain := chain.toChain
  history := by
    intro hash server rep received
    have reports := chain.history hash server
    cases found : (chain.ledger server).find? fun entry => entry.hash = hash with
    | some entry =>
        rw [found] at reports
        obtain ⟨listing, same, lists⟩ := reports
        cases received.symm.trans same
        exact .inl lists
    | none =>
        rw [found] at reports
        rcases reports rep received with lists | ⟨present, code, coded, refused⟩
        · exact .inl lists
        · refine .inr (.inl fun success => refused ?_)
          rw [coded] at success
          cases success
          exact ⟨rfl, rfl⟩

/-- The contract updates what it has stored. -/
def ownUpdate : WritingCall :=
  .business (.update ⟨text "a", 1, text "60", text "/e"⟩ 1 [0] (text "\x7b\x7d") 2)

theorem versions_linked_applies :
    Lineage.WellFormed lineage (Run.final (recordStep markLib listChain.honest) ⟨contractOnFile, []⟩
        [.business sampleCall, ownUpdate]).records ∧
      ∀ record ∈ (Run.final (recordStep markLib listChain.honest) ⟨contractOnFile, []⟩
          [.business sampleCall, ownUpdate]).records,
        ∃ steps : Nat, record.version = some (steps + 1 : Int) ∧
          ∃ root, Lineage.ancestor lineage (Run.final (recordStep markLib listChain.honest)
              ⟨contractOnFile, []⟩ [.business sampleCall, ownUpdate]).records steps record = some root ∧
            root.version = some 1 ∧ root.contractAddress = record.contractAddress := by
  refine versions_linked markLib listChain.honest contractOnFile .nil _ ?_ _ (Run.final_mem_states _ _ _)
  refine ⟨⟨fun _ _ _ linked => absurd linked List.not_mem_nil, by decide +kernel⟩,
    ⟨?_, by decide +kernel⟩, trivial⟩
  have stored : (recordStep markLib listChain.honest ⟨contractOnFile, []⟩
      (.business sampleCall)).records = [⟨text "a", [0], some 1, some (text " ")⟩] := by
    decide +kernel
  intro contractAddress owned hash linked entry _ _
  cases owned
  rw [stored]
  exact ⟨_, List.mem_singleton_self _, rfl, (List.mem_singleton.mp linked).symm⟩

/-- Contracts a and b have their keys on file. -/
def twoContracts : World (List Entry) :=
  { contractOnFile with db := { contractOnFile.db with contract_account :=
    [⟨[], [], ⟨text "a", [], [], []⟩, []⟩, ⟨[], [], ⟨text "b", [], [], []⟩, []⟩] } }

/-- Contract b updates what contract a has stored. -/
def foreignUpdate : WritingCall :=
  .business (.update ⟨text "b", 1, text "60", text "/e"⟩ 1 [0] (text "\x7b\x7d") 2)

theorem foreign_record_followed :
    ¬ Lineage.WellFormed lineage (Run.final (recordStep markLib listChain.honest)
      ⟨twoContracts, []⟩ [.business sampleCall, foreignUpdate]).records := by
  have observed : (Run.final (recordStep markLib listChain.honest) ⟨twoContracts, []⟩
      [.business sampleCall, foreignUpdate]).records =
        [⟨text "a", [0], some 1, some (text " ")⟩, ⟨text "b", [1], some 2, some [0]⟩] := by
    decide +kernel
  rw [observed]
  intro formed
  rcases formed [⟨text "a", [0], some 1, some (text " ")⟩] _ [] rfl with ⟨first, _⟩ |
    ⟨parent, member, succeeds⟩
  · exact absurd first (by decide)
  · rw [List.mem_singleton] at member
    subst member
    exact absurd succeeds.owner (by decide +kernel)

end EChainLib.Node
