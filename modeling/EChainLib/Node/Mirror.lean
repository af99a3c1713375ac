import EChainLib.Node.Integrity
import EChainLib.Node.Protocol

/-! The table `business_data` beside the ledger, over runs of storing and updating
calls. The two are written one after the other, the ledger first. -/

namespace EChainLib.Node

open EChainLib.Keys (Bytes PrivateKey)
open EChainLib.Accounts (Database Sql BusinessRow Buffer AllHold)
open EChainLib.Effects

variable {Server : Type} {env : Env Server}

/-- The same ledger behind the node whose exchanges are on record. -/
def Chain.recording (chain : Chain env) : Chain env.recording where
  ledger server := chain.ledger server.1
  spells := chain.spells
  quiet := fun request server quiet => chain.quiet request server.1 quiet
  blob := fun content server rep blob replied => chain.blob content server.1 rep blob replied
  submit := fun prv sign_data blob server => chain.submit prv sign_data blob server.1

/-- The last exchange is a submission that the node has answered with 0. -/
def Acknowledged (world : World (Recorded Server)) : Prop :=
  ∃ content rep, world.exchanges.getLast? = some ⟨.submitTransaction content, some rep⟩ ∧
    rep.submitCode = .ok 0

/-! What the parts of a call do to the table, and what their last exchange is. -/

/-- Neither the node nor the table is touched. -/
def silent : Change (World (Recorded Server)) where
  rel start last := last.server = start.server ∧ last.db = start.db
  refl _ := ⟨rfl, rfl⟩
  trans _ _ _ first second := ⟨second.1.trans first.1, second.2.trans first.2⟩

variable (json : JsonLib)

def BusinessCall.operationType : BusinessCall → Int
  | .storage _ _ _ => ADDNEW
  | .update _ updateType _ _ _ => updateType.toInt

def BusinessCall.insert (call : BusinessCall) (transactionHash : Bytes) :
    Sql → Database → Int × Database :=
  Accounts.insertBusinessDataInfo2DB call.document.contractAddress call.operationType
    call.document.businessType.toInt call.document.dataHash transactionHash

/-- The row of the call for this transaction. -/
def BusinessCall.row (call : BusinessCall) (transactionHash barTime : Bytes) : BusinessRow :=
  ⟨call.document.contractAddress, call.operationType, call.document.businessType.toInt,
    call.document.dataHash, transactionHash, barTime⟩

/-- The statement that is to insert it. -/
def BusinessCall.insertion (call : BusinessCall) (transactionHash barTime : Bytes) :
    Accounts.SqlStatement :=
  Accounts.insertBusinessData call.document.contractAddress call.operationType
    call.document.businessType.toInt call.document.dataHash transactionHash barTime

/-- Exactly one row has been added, and it is the one of this call and this transaction. -/
def Stores (call : BusinessCall) (start last : World (Recorded Server)) (transactionHash : Bytes) :
    Prop :=
  ∃ barTime, last.db.business_data = start.db.business_data ++ [call.row transactionHash barTime]

/-- The insertion goes through, and it is rendered as it is meant or is another text of
which the server makes the same. -/
structure Inserts (call : BusinessCall) (sql : Sql) (db : Database) (transactionHash : Bytes) :
    Prop where
  made : sql.fails 0 = false
  read : (call.insertion transactionHash sql.barTime).Rendered ∨
    ∃ barTime, (sql.misread (call.insertion transactionHash sql.barTime).text
      db.tables).business_data = db.business_data ++ [call.row transactionHash barTime]

variable (chain : Chain env)

/-- The world behind a call, the record of its exchanges included. -/
def afterCall (env : Env Server) (json : JsonLib) (world : World Server) (call : BusinessCall) :
    World (Recorded Server) :=
  last (call.run env.recording json) world.recorded

/-- The call returns 1 where it puts a record on the ledger and stores its row, leaves no
record without a row where it returns a negative code, and writes behind none of its fixed
arrays. -/
structure Mirrors (world : World Server) (call : BusinessCall) : Prop where
  success : ∀ answer state, call.run env.recording json world.recorded = .ok (1, answer) state →
    ∃ transactionHash, answer = some transactionHash ∧
      Puts chain.recording world.recorded state transactionHash ∧
        Stores call world.recorded state transactionHash
  stored : ∀ transactionHash,
    Puts chain.recording world.recorded (afterCall env json world call) transactionHash →
      Stores call world.recorded (afterCall env json world call) transactionHash →
        ∃ answer state, call.run env.recording json world.recorded = .ok (1, answer) state
  failure : ∀ code answer state,
    call.run env.recording json world.recorded = .ok (code, answer) state → code < 0 →
      ∀ transactionHash, Puts chain.recording world.recorded state transactionHash →
        Stores call world.recorded state transactionHash
  inside : ∀ code answer state,
    call.run env.recording json world.recorded = .ok (code, answer) state → AllHold state.buffers

/-- Where the call returns, the texts that it prints and copies fit in their arrays, its last
statement inserts the row if its last exchange was an acceptance, and it was one if the chain
has accepted a record of the call. -/
def Undisturbed (world : World Server) (call : BusinessCall) : Prop :=
  ∀ code answer state, call.run env.recording json world.recorded = .ok (code, answer) state →
    AllHold state.buffers ∧
    (Acknowledged state → ∀ transactionHash, answer = some transactionHash →
      Inserts call (env.sql (state.ticks - 1)) world.db transactionHash) ∧
    ∀ transactionHash, Puts chain.recording world.recorded state transactionHash →
      Acknowledged state

section Returned

variable {json chain} {world : World Server} {state : World (Recorded Server)} {call : BusinessCall}
  {code : Int} {answer : Option Bytes}

end Returned

end EChainLib.Node
