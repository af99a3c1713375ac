import EChainLib.Accounts.Database
import EChainLib.Node.BusinessData

/-! The statements of the calls that five database functions make. -/

namespace EChainLib.Node

open EChainLib.Keys (Bytes text)
open EChainLib.Accounts

inductive SqlCall where
  | processUserRegisterInfo (userID : Bytes) (userType : Int) (userInfo : Bytes)
  | processContractAccountInfo (userID classID : Bytes)
  | getPrivateKeyFromUserRegisterDB (srcAddress : Bytes)
  | getPrivateKeyFromContractAccountDB (contractAddress : Bytes)
  | insertBusinessDataInfo2DB (contractAddress : Bytes) (updateType businessType : Int)
      (dataHash transactionHash : Bytes)

def SqlCall.statements (sql : Sql) (db : Database) : SqlCall → List SqlStatement
  | .processUserRegisterInfo userID userType userInfo =>
      assignStatements (selectUser userID) (insertUserRegister userID userType userInfo)
        (Accounts.userAccounts userID) sql db
  | .processContractAccountInfo userID classID =>
      assignStatements (selectContract userID classID) (insertContractAccount userID classID)
        (Accounts.contractAccounts userID classID) sql db
  | .getPrivateKeyFromUserRegisterDB srcAddress => [selectUserKey srcAddress]
  | .getPrivateKeyFromContractAccountDB contractAddress => [selectContractKey contractAddress]
  | .insertBusinessDataInfo2DB contractAddress updateType businessType dataHash transactionHash =>
      [insertBusinessData contractAddress updateType businessType dataHash transactionHash
        sql.barTime]

/-- Every statement of a call is rendered as it is meant exactly where the strings
that go into it are harmless. The server then reads these arguments and no others,
so that statements with different arguments have different texts. -/
theorem statements_rendered_iff (call : SqlCall) (sql : Sql) (db : Database) :
    ((∀ statement ∈ call.statements sql db, statement.Rendered) ↔
      ∀ statement ∈ call.statements sql db, statement.Harmless) ∧
    ∀ statement other : SqlStatement, statement.Harmless → other.Harmless →
      (Quoted.read .plain statement.text).map Quoted.Statement.literals =
          some statement.meant.arguments ∧
        (statement.text = other.text → statement.meant.arguments = other.meant.arguments) := by
  constructor
  · exact forall₂_congr fun statement _ => statement.rendered_iff
  · intro statement other harmless harmless_other
    have read := statement.rendered_literals (statement.rendered_iff.mpr harmless)
    have read_other := other.rendered_literals (other.rendered_iff.mpr harmless_other)
    refine ⟨read, fun same => ?_⟩
    rw [same, read_other] at read
    exact (Option.some.inj read).symm

/-- The address ends its literal and adds a condition that every row meets. -/
theorem quote_in_address_reads_other_rows :
    ¬ ∀ (sql : Sql) (db : Database), ∀ statement ∈ (SqlCall.getPrivateKeyFromUserRegisterDB
      (text "x' or '1'='1")).statements sql db, statement.Rendered := by
  intro rendered
  have reads := (rendered ⟨fun _ => false, fun _ => 0, [], fun _ db => db⟩ ⟨[], [], [], [], [], 0⟩ _
    (List.mem_singleton_self _)).reads
  exact absurd reads (by decide +kernel)

end EChainLib.Node
