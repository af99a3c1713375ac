import EChainLib.Support.Run
import EChainLib.Node.Calls
import EChainLib.Node.ListChain

/-! The holds of `g_dbmutex` before and after a call. Memory is taken to suffice, as far
as a count is not negative. -/

namespace EChainLib.Node

open EChainLib.Keys (Bytes PrivateKey text)
open EChainLib.Accounts (Database Sql Buffer AllHold)
open EChainLib.Effects

variable {Server : Type} {env : Env Server}

/-! The holds of the lock. -/

inductive LockCall where
  | processUserRegisterInfo (userID : Bytes) (userType : Int32) (userInfo : Bytes)
  | processContractAccountInfo (userID classID : Bytes)
  | insertAccountInfo2DB (srcAddress prvKey pubKey : Bytes)
  | insertPreAccountInfo2DB (srcAddress privateKey publicKey transHash : Bytes)
  | insertBusinessDataInfo2DB (contractAddress : Bytes) (updateType businessType : Int32)
      (dataHash transactionHash : Bytes)
  | eChainAccountPrepare (fuel : Nat)
  | eChainContractAddressDelete (blockAddress contractAddress descInfo : Bytes) (fuel : Nat)
  | eChainQueryAddressRecord (blockAddress contractAddress startTime endTime : Bytes)
      (curPage numsPerPage : Int32)

/-- Whether the call ends, by a return where it does not raise. -/
def LockCall.run (env : Env Server) (json : JsonLib) : LockCall → Api Server Bool
  | .processUserRegisterInfo userID userType userInfo =>
      callDb env (Accounts.userBuffers userID userType.toInt userInfo) fun sql db =>
        (true, (Accounts.processUserRegisterInfo userID userType.toInt userInfo sql db).db)
  | .processContractAccountInfo userID classID =>
      callDb env (Accounts.contractBuffers userID classID) fun sql db =>
        (true, (Accounts.processContractAccountInfo userID classID sql db).db)
  | .insertAccountInfo2DB srcAddress prvKey pubKey =>
      callDb env (Accounts.accountBuffers srcAddress prvKey pubKey) fun sql db =>
        (true, (Accounts.insertAccountInfo2DB srcAddress prvKey pubKey sql db).2)
  | .insertPreAccountInfo2DB srcAddress privateKey publicKey transHash =>
      callDb env (Accounts.preAccountBuffers ⟨srcAddress, privateKey, publicKey, transHash⟩)
        fun sql db =>
        (true, (Accounts.insertPreAccountInfo2DB srcAddress privateKey publicKey transHash sql db).2)
  | .insertBusinessDataInfo2DB contractAddress updateType businessType dataHash transactionHash =>
      callDb env (Accounts.businessBuffers contractAddress updateType.toInt businessType.toInt
        dataHash transactionHash) fun sql db =>
        (true, (Accounts.insertBusinessDataInfo2DB contractAddress updateType.toInt
          businessType.toInt dataHash transactionHash sql db).2)
  | .eChainAccountPrepare fuel => do
      let _ ← Node.eChainAccountPrepare env fuel
      return true
  | .eChainContractAddressDelete blockAddress contractAddress descInfo fuel => do
      let answer ← Node.eChainContractAddressDelete env json blockAddress contractAddress descInfo
        fuel
      return answer.isSome
  | .eChainQueryAddressRecord blockAddress contractAddress startTime endTime curPage numsPerPage => do
      let answer ← Node.eChainQueryAddressRecord env json blockAddress contractAddress startTime
        endTime curPage numsPerPage
      return answer.isSome

/-- A call and the tables it finds, which other clients may have changed. -/
structure LockStep where
  tables : Database
  call : LockCall

def World.withTables (world : World Server) (tables : Database) : World Server :=
  { world with db := { tables with g_dbmutex := world.db.g_dbmutex }, buffers := [] }

variable (env) (json : JsonLib)

def lockStep (world : World Server) (step : LockStep) : World Server :=
  last (step.call.run env json) (world.withTables step.tables)

/-- The fixed arrays that a call fills with its arguments, the rows that it finds and the
texts of the node. -/
def filled (world : World Server) (step : LockStep) : List Buffer :=
  (lockStep env json world step).buffers

variable {env} {json}

section Deleting

variable {world : World Server} {tables : Database} {blockAddress contractAddress descInfo : Bytes}
  {fuel : Nat}

end Deleting

/-! The query. -/

end EChainLib.Node
