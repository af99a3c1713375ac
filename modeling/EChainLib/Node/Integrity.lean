import EChainLib.Support.Run
import EChainLib.Node.ListChain

/-! What the verifying calls answer after a run of storing and updating calls. A
call stores a transaction when the ledger has it afterwards. -/

namespace EChainLib.Node

open EChainLib.Keys (Bytes cString cString_of_text text)
open EChainLib.Effects

variable {Server : Type} {env : Env Server} (json : JsonLib)

/-! Runs of storing and updating calls. -/

structure Document where
  contractAddress : Bytes
  businessType : Int32
  dataHash : Bytes
  dataPath : Bytes
  deriving DecidableEq

inductive BusinessCall where
  | storage (document : Document) (descInfo : Bytes) (fuel : Nat)
  | update (document : Document) (updateType : Int32) (preTranxHash descInfo : Bytes) (fuel : Nat)

def BusinessCall.document : BusinessCall → Document
  | .storage document _ _ => document
  | .update document _ _ _ _ => document

def BusinessCall.run (env : Env Server) (json : JsonLib) :
    BusinessCall → Api Server (Int × Option Bytes)
  | .storage document descInfo fuel =>
      eChainBusinessDataStorage env json document.contractAddress document.businessType
        document.dataHash document.dataPath descInfo fuel
  | .update document updateType preTranxHash descInfo fuel =>
      eChainBusinessDataUpdate env json document.contractAddress updateType document.businessType
        preTranxHash document.dataHash document.dataPath descInfo fuel

/-- The metadata is the hexadecimal text of a document with these contents. -/
def Carries (document : Document) (metadata : Bytes) : Prop :=
  ∃ members, strToHex (json.toStyledString (.obj members)) = some metadata ∧
    members.lookup "dataType" = some (.int document.businessType.toInt) ∧
    members.lookup "dataHash" = some (.str document.dataHash) ∧
    members.lookup "dataPath" = some (.str document.dataPath)

def CarriesAtMost (document : Document) (entry : Entry) : Prop :=
  ∀ metadata, entry.metadata = some metadata → Carries json document metadata

theorem businessJson_carries (document : Document) (operationType : Int) (preHash : Bytes)
    (descInfo : Json) (version : Int) (barTime : Bytes) (entry : Entry)
    (spelled : entry.metadata = strToHex (json.toStyledString (.obj (businessJson
      document.businessType operationType document.dataHash preHash document.dataPath descInfo
      version barTime)))) : CarriesAtMost json document entry := by
  intro metadata same
  exact ⟨_, spelled.symm.trans same, rfl, rfl, rfl⟩

theorem bare_carries (document : Document) (entry : Entry) (bare : entry.metadata = none) :
    CarriesAtMost json document entry := by
  intro metadata same
  rw [bare] at same
  cases same

theorem newDocument_ok {businessType : Int32} {dataHash dataPath descInfo : Bytes}
    {start state : World Server} {blockJson : List (String × Json)}
    (made : newDocument env json businessType dataHash dataPath descInfo start =
      .ok (some blockJson) state) :
    ∃ descJson barTime, blockJson =
      businessJson businessType ADDNEW dataHash (text " ") dataPath descJson 1 barTime := by
  unfold newDocument at made
  cases parsed : json.parse (cString descInfo) with
  | none =>
      rw [parsed] at made
      cases made
  | some descJson =>
      rw [parsed] at made
      cases made
      exact ⟨descJson, _, rfl⟩

section Ledger

variable (chain : Chain env)

theorem parseMetaInfo_adds (property : Entry → Prop) (transactionHash : Bytes) :
    Within (adds chain property) (parseMetaInfoFromTransactionHash env transactionHash) := by
  refine within_bind (httpRequest_adds _ fun _ => Request.noConfusion) fun reply => ?_
  cases reply with
  | none => exact within_pure _
  | some rep => exact check_within _ _

theorem getCurTime_adds (property : Entry → Prop) :
    Within (adds chain property) (getCurTimeByString env) :=
  fun start => adds_same start _ rfl

theorem newDocument_adds (property : Entry → Prop) (businessType : Int32)
    (dataHash dataPath descInfo : Bytes) :
    Within (adds chain property) (newDocument env json businessType dataHash dataPath descInfo) := by
  unfold newDocument
  split
  · exact within_pure _
  · exact within_bind (getCurTime_adds chain _) fun _ => within_pure _

/-- A call appends transactions that carry its own document, and bare ones. -/
theorem run_adds (call : BusinessCall) :
    Within (adds chain (CarriesAtMost json call.document)) (call.run env json) := by
  cases call with
  | storage document descInfo fuel =>
      refine within_bind (callDb_adds _) fun key => ?_
      cases key with
      | none => exact within_pure _
      | some blockPrvKey =>
          refine businessRounds_adds json _ _ _ _ _ (bare_carries json document)
            (newDocument_adds json chain _ _ _ _ _) ?_ fuel
          intro start blockJson state made entry spelled
          obtain ⟨descJson, barTime, rfl⟩ := newDocument_ok json made
          exact businessJson_carries json document _ _ _ _ _ entry spelled
  | update document updateType preTranxHash descInfo fuel =>
      refine within_bind (getCurTime_adds chain _) fun szBarTime => ?_
      refine within_bind (parseMetaInfo_adds chain _ _) fun info => ?_
      dsimp only
      split_ifs
      · exact within_pure _
      · split
        · refine within_bind (check_within _ _) fun iVersion => ?_
          refine within_bind (callDb_adds _) fun key => ?_
          cases key with
          | none => exact within_pure _
          | some blockPrvKey =>
              refine businessRounds_adds json _ _ _ _ _ (bare_carries json document)
                (within_pure _) ?_ fuel
              intro start blockJson state made entry spelled
              cases made
              exact businessJson_carries json document _ _ _ _ _ entry spelled
        · exact within_pure _

end Ledger

variable (chain : FaithfulChain env)

/-- A document that a call of the run has put on the ledger. -/
structure Stored where
  document : Document
  transactionHash : Bytes
  deriving DecidableEq

structure BusinessRun (Server : Type) where
  world : World Server
  stored : List Stored

/-- The stored document is what this transaction carries. -/
def Backs (stored : Stored) (entry : Entry) : Prop :=
  stored.transactionHash = entry.hash ∧
    ∃ metadata, entry.metadata = some metadata ∧ Carries json stored.document metadata

/-- The transactions with metadata that the run has put behind the older ones are
the stored ones. -/
structure Faithful (older : List Entry) (run : BusinessRun Server) : Prop where
  hashes_nodup : ((chain.ledger run.world.server).map (·.hash)).Nodup
  hashes : ∃ added, chain.ledger run.world.server = older ++ added ∧
    run.stored.map (·.transactionHash) =
      (added.filter fun entry => entry.metadata.isSome).map (·.hash)
  backed : ∀ stored ∈ run.stored, ∃ entry ∈ chain.ledger run.world.server, Backs json stored entry

def infoOf : Option Bytes → Int × Bytes
  | none => (1, [])
  | some szHexString =>
      match parseCreditInfoFromHexString szHexString with
      | none => (-1, [])
      | some metaDataInfo => (1, metaDataInfo)

theorem readMetaInfo_lists (rep : Json) (metadata : Option Bytes) (lists : Lists rep metadata) :
    readMetaInfo rep = .ok (infoOf metadata) := by
  obtain ⟨code, has, reported⟩ := lists
  simp only [readMetaInfo, code, has, reported, bind, Except.bind, pure, Except.pure, and_self,
    if_true]
  cases metadata with
  | none => rfl
  | some szHexString =>
      cases read : parseCreditInfoFromHexString szHexString <;> simp only [infoOf, read]

theorem parseMetaInfo_eq (transactionHash : Bytes) (world : World Server) :
    parseMetaInfoFromTransactionHash env transactionHash world =
      (match (env.http (.getTransactionHistory transactionHash) world.server).1 with
        | none => pure (-1, [])
        | some rep => check (readMetaInfo rep) : Api Server (Int × Bytes))
        { world with server := (env.http (.getTransactionHistory transactionHash) world.server).2 } :=
  rfl

def verdict (document : Document) (businessType : Int32) (dataHash : Bytes) : Int × Option Bytes :=
  if document.dataHash ≠ dataHash then (-1, none)
  else if document.businessType ≠ businessType then (-2, none)
  else (1, some document.dataPath)

section Verifying

variable {json chain} {older : List Entry} {run : BusinessRun Server}

end Verifying

/-! Soundness and completeness. -/

/-- The arguments of a verifying call that say what is looked for. -/
structure Query where
  contractAddress : Bytes
  businessType : Int32
  transactionHash : Bytes
  dataHash : Bytes

/-- Stored under this hash with this type and this data hash, whoever stored it. -/
def Stored.Matches (query : Query) (stored : Stored) : Prop :=
  stored.transactionHash = query.transactionHash ∧
    stored.document.businessType = query.businessType ∧ stored.document.dataHash = query.dataHash

def Answers {Value : Type} (call : Api Server Value) (world : World Server) (value : Value) : Prop :=
  ∃ state, call world = .ok value state

section Exact

variable {json chain} {older : List Entry} {run : BusinessRun Server}

end Exact

/-- Contract a has its key on file, and no transaction has been made. -/
def contractOnFile : World (List Entry) where
  server := []
  db := ⟨[], [], [⟨[], [], ⟨text "a", [], [], []⟩, []⟩], [], [], 0⟩
  ticks := 0
  g_genesisAddress := []
  g_genesisNonce := 0
  accepted := []
  rounds := []
  buffers := []

def sampleCall : BusinessCall :=
  .storage ⟨text "a", 1, text "5f", text "/d"⟩ (text "\x7b\x7d") 2

/-- The return value of a call that returns. -/
def returned {Value : Type} : EStateM.Result Stop (World Server) Value → Option Value
  | .ok value _ => some value
  | .error _ _ => none

end EChainLib.Node
