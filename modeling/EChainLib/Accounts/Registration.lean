import Mathlib
import EChainLib.Support.Run
import EChainLib.Support.Allocation
import EChainLib.Accounts.Database

/-! The pool `preaccount_info` and the two tables it is handed out to. Every whole
call is one step of the allocation of prepared accounts to users and contracts. -/

namespace EChainLib.Accounts

open EChainLib.Keys (Bytes text)

inductive Owner where
  | user (userID : Bytes)
  | contract (userID classID : Bytes)
  deriving DecidableEq

def owners (db : Database) : List (Owner × Account) :=
  (db.user_register.map fun row => (.user row.userid, row.account)) ++
    db.contract_account.map fun row => (.contract row.userid row.classid, row.account)

/-- The allocation the tables stand for. -/
def allocation (db : Database) : Allocation.State Owner Account where
  pool := db.preaccount_info.map (·.account)
  granted := owners db

def pooledAddresses (db : Database) : List Bytes :=
  db.preaccount_info.map (·.account.blockaddress)

def assignedAddresses (db : Database) : List Bytes :=
  db.user_register.map (·.account.blockaddress) ++ db.contract_account.map (·.account.blockaddress)

def addresses (db : Database) : List Bytes := pooledAddresses db ++ assignedAddresses db

theorem keys_allocation (db : Database) :
    Allocation.keys Account.blockaddress (allocation db) = addresses db := by
  simp [Allocation.keys, allocation, owners, addresses, pooledAddresses, assignedAddresses,
    Function.comp_def]

theorem deletePreAccount_rendered (db : Database) (sql : Sql) (address : Bytes)
    (rendered : (deletePreAccount address).Rendered) :
    (db.deletePreAccount sql address).preaccount_info =
      db.preaccount_info.filter fun row => row.account.blockaddress ≠ address :=
  sql.take_rendered _ _ _ db rendered

theorem allocation_deletePreAccount (db : Database) (sql : Sql) (account : Account)
    (rendered : (deletePreAccount account.blockaddress).Rendered) :
    (allocation (db.deletePreAccount sql account.blockaddress)).pool =
      Allocation.withoutKey Account.blockaddress account (allocation db).pool := by
  rw [allocation, deletePreAccount_rendered db sql _ rendered]
  simp [allocation, Allocation.withoutKey, List.filter_map, Function.comp_def]

/-! One assignment. -/

/-- The parameters of `assignAccount` serve `owner`: where their statements are
rendered they read its rows and insert one row for it, and they touch nothing else
that the allocation depends on. -/
structure Serves (owner : Owner) (select : SqlStatement) (insertion : Account → Bytes → SqlStatement)
    (owned : Sql → Database → List Account) (insert : Account → Sql → Database → Database) :
    Prop where
  owned_iff : ∀ sql db account, select.Rendered →
    (account ∈ owned sql db ↔ (owner, account) ∈ owners db)
  owned_lock : ∀ sql db, owned sql db.lock = owned sql db
  insert_lock : ∀ account sql db, (insert account sql db.lock).unlock = insert account sql db
  insert_pool : ∀ account sql db, (insert account sql db).preaccount_info = db.preaccount_info
  insert_owners : ∀ account sql db, (insertion account sql.barTime).Rendered →
    (owners (insert account sql db)).Perm ((owner, account) :: owners db)

theorem user_serves (userID : Bytes) (userType : Int) (userInfo : Bytes) :
    Serves (.user userID) (selectUser userID) (insertUserRegister userID userType userInfo)
      (userAccounts userID) (insertUser userID userType userInfo) where
  owned_iff := by
    intro sql db account rendered
    rw [userAccounts, sql.take_rendered _ _ _ db rendered]
    simp only [Database.tables, owners, List.mem_map, List.mem_filter, List.mem_append,
      decide_eq_true_eq, Prod.mk.injEq, Owner.user.injEq, reduceCtorEq, false_and, and_false,
      exists_false, or_false, and_assoc]
  owned_lock := fun _ _ => rfl
  insert_lock := fun _ _ _ => rfl
  insert_pool := fun _ _ _ => rfl
  insert_owners := by
    intro account sql db rendered
    rw [owners, insertUser, sql.take_rendered _ _ _ db rendered]
    simp [owners, Database.tables]

theorem contract_serves (userID classID : Bytes) :
    Serves (.contract userID classID) (selectContract userID classID)
      (insertContractAccount userID classID) (contractAccounts userID classID)
      (insertContract userID classID) where
  owned_iff := by
    intro sql db account rendered
    rw [contractAccounts, sql.take_rendered _ _ _ db rendered]
    simp only [Database.tables, owners, List.mem_map, List.mem_filter, List.mem_append,
      decide_eq_true_eq, Prod.mk.injEq, Owner.contract.injEq, reduceCtorEq, false_and, and_false,
      exists_false, false_or, and_assoc]
  owned_lock := fun _ _ => rfl
  insert_lock := fun _ _ _ => rfl
  insert_pool := fun _ _ _ => rfl
  insert_owners := by
    intro account sql db rendered
    have last := List.perm_append_singleton (Owner.contract userID classID, account) (owners db)
    rw [owners, insertContract, sql.take_rendered _ _ _ db rendered]
    simpa [owners, Database.tables] using last

/-- The delete has taken the row off the pool and the insert after it fails. -/
def LosesRow (owned : Sql → Database → List Account) (sql : Sql) (db : Database) : Prop :=
  sql.fails 0 = false ∧ owned sql db = [] ∧ sql.fails 1 = false ∧
    ∃ row, fetchRow (sql.order 1) db.preaccount_info = some row ∧ sql.fails 2 = false ∧
      sql.fails 3 = true ∧
      (db.deletePreAccount sql row.account.blockaddress).preaccount_info ≠ db.preaccount_info

section Assign

variable {owner : Owner} {select : SqlStatement} {insertion : Account → Bytes → SqlStatement}
  {owned : Sql → Database → List Account} {insert : Account → Sql → Database → Database}

/-- Everything a call can do, with the statements it has sent by then. -/
theorem assign_cases (serves : Serves owner select insertion owned insert) (sql : Sql)
    (db : Database) :
    let result := assignAccount owned insert sql db
    let sent := assignStatements select insertion owned sql db
    select ∈ sent ∧
    ((¬ LosesRow owned sql db ∧ result.code = -1 ∧ result.db = db) ∨
    (∃ account ∈ owned sql db, ¬ LosesRow owned sql db ∧ result.code = 0 ∧
      result.outputs = some account ∧ result.db = db) ∨
    (∃ row ∈ db.preaccount_info, deletePreAccount row.account.blockaddress ∈ sent ∧
      result.code = -1 ∧ result.db = db.deletePreAccount sql row.account.blockaddress ∧
      (LosesRow owned sql db ↔ result.db.preaccount_info ≠ db.preaccount_info)) ∨
    (∃ row ∈ db.preaccount_info, deletePreAccount row.account.blockaddress ∈ sent ∧
      insertion row.account sql.barTime ∈ sent ∧ ¬ LosesRow owned sql db ∧ owned sql db = [] ∧
      result.code = 1 ∧ result.outputs = some row.account ∧
      result.db =
        insert row.account sql (db.deletePreAccount sql row.account.blockaddress))) := by
  refine ⟨List.mem_cons_self, ?_⟩
  -- one case per way out, in the order of the statements
  unfold LosesRow assignAccount assignStatements
  cases selected : sql.fails 0 with
  | true => simp
  | false =>
      cases found : fetchRow (sql.order 0) (owned sql db) with
      | some account =>
          have member := mem_of_fetchRow _ _ _ found
          have nonempty : owned sql db ≠ [] := List.ne_nil_of_mem member
          refine .inr (.inl ⟨account, member, ?_⟩)
          simp [serves.owned_lock, found, nonempty]
      | none =>
          have empty : owned sql db = [] := by simpa using found
          rw [empty] at found
          cases selectPool : sql.fails 1 with
          | true => exact .inl (by simp [serves.owned_lock, empty, found])
          | false =>
              cases pooled : fetchRow (sql.order 1) db.preaccount_info with
              | none => exact .inl (by simp [serves.owned_lock, empty, found, pooled])
              | some row =>
                  have member : row ∈ db.preaccount_info := mem_of_fetchRow _ _ _ pooled
                  cases delete : sql.fails 2 with
                  | true => exact .inl (by simp [serves.owned_lock, empty, found, pooled])
                  | false =>
                      cases insertion : sql.fails 3 with
                      | true =>
                          refine .inr (.inr (.inl ⟨row, member, ?_⟩))
                          simp [serves.owned_lock, found, pooled, empty]
                          exact ⟨rfl, Iff.rfl⟩
                      | false =>
                          refine .inr (.inr (.inr ⟨row, member, ?_⟩))
                          simp [serves.owned_lock, found, pooled, empty]
                          exact serves.insert_lock row.account sql
                            (db.deletePreAccount sql row.account.blockaddress)

/-- A whole call whose statements are rendered is one step of the allocation, whatever
fails. -/
theorem assign_step (serves : Serves owner select insertion owned insert) (sql : Sql)
    (db : Database) (rendered : AllRendered (assignStatements select insertion owned sql db)) :
    Allocation.Step Account.blockaddress (allocation db)
      (allocation (assignAccount owned insert sql db).db) := by
  obtain ⟨selects, ⟨_, _, same⟩ | ⟨_, _, _, _, _, same⟩ | ⟨row, member, deletes, _, lost, _⟩ |
    ⟨row, member, deletes, inserts, _, unserved, _, _, moved⟩⟩ := assign_cases serves sql db
  · rw [same]
    exact .idle rfl rfl
  · rw [same]
    exact .idle rfl rfl
  · rw [lost]
    exact .drop row.account (List.mem_map_of_mem member)
      (allocation_deletePreAccount db sql _ (rendered _ deletes)) rfl
  · rw [moved]
    refine .grant owner row.account (List.mem_map_of_mem member) ?_ ?_
      (serves.insert_owners _ _ _ (rendered _ inserts))
    · intro served
      obtain ⟨⟨_, account⟩, recorded, rfl⟩ := List.mem_map.mp served
      have present := (serves.owned_iff sql db account (rendered _ selects)).mpr recorded
      rw [unserved] at present
      cases present
    · rw [← allocation_deletePreAccount db sql _ (rendered _ deletes)]
      simp only [allocation, serves.insert_pool]

/-- A successful call answers with an account its owner holds afterwards. -/
theorem assign_granted (serves : Serves owner select insertion owned insert) (sql : Sql)
    (db : Database) (rendered : AllRendered (assignStatements select insertion owned sql db))
    (successful : 0 ≤ (assignAccount owned insert sql db).code) :
    ∃ account, (assignAccount owned insert sql db).outputs = some account ∧
      (owner, account) ∈ owners (assignAccount owned insert sql db).db := by
  obtain ⟨selects, ⟨_, code, _⟩ | ⟨account, found, _, _, outputs, same⟩ | ⟨_, _, _, code, _⟩ |
    ⟨row, _, _, inserts, _, _, _, outputs, moved⟩⟩ := assign_cases serves sql db
  · rw [code] at successful
    contradiction
  · refine ⟨account, outputs, ?_⟩
    rw [same]
    exact (serves.owned_iff sql db account (rendered _ selects)).mp found
  · rw [code] at successful
    contradiction
  · refine ⟨row.account, outputs, ?_⟩
    rw [moved]
    exact (serves.insert_owners _ _ _ (rendered _ inserts)).mem_iff.mpr List.mem_cons_self

def SameTables (db db' : Database) : Prop :=
  db'.preaccount_info = db.preaccount_info ∧ db'.user_register = db.user_register ∧
    db'.contract_account = db.contract_account

/-- A row that is fetched and then deleted by its address has gone. -/
theorem deletePreAccount_ne (db : Database) (sql : Sql) (row : PreAccountRow)
    (member : row ∈ db.preaccount_info)
    (rendered : (deletePreAccount row.account.blockaddress).Rendered) :
    (db.deletePreAccount sql row.account.blockaddress).preaccount_info ≠ db.preaccount_info := by
  rw [deletePreAccount_rendered db sql _ rendered]
  intro same
  rw [← same] at member
  simp at member

theorem assign_atomic_iff (serves : Serves owner select insertion owned insert) (sql : Sql)
    (db : Database) :
    ((assignAccount owned insert sql db).code < 0 →
      SameTables db (assignAccount owned insert sql db).db) ↔ ¬ LosesRow owned sql db := by
  obtain ⟨_, ⟨kept, _, same⟩ | ⟨_, _, kept, code, _⟩ | ⟨row, member, _, code, lost, loses⟩ |
    ⟨_, _, _, _, kept, _, code, _⟩⟩ := assign_cases serves sql db
  · simp [same, SameTables, kept]
  · simp [code, kept]
  · rw [loses, code, lost]
    simp [SameTables, Database.deletePreAccount]
  · simp [code, kept]

end Assign

/-! Runs of whole calls. -/

inductive Call where
  | insertPreAccountInfo2DB (srcAddress privateKey publicKey transHash : Bytes) (sql : Sql)
  | processUserRegisterInfo (userID : Bytes) (userType : Int) (userInfo : Bytes) (sql : Sql)
  | processContractAccountInfo (userID classID : Bytes) (sql : Sql)

/-- The tables, the addresses prepared so far, and what the successful
registrations so far have answered. -/
structure History where
  db : Database
  prepared : List Bytes
  registered : List (Owner × Account)

def beginning (db : Database) : History := { db, prepared := addresses db, registered := [] }

def History.register (history : History) (owner : Owner) (result : Assignment) : History :=
  { history with
    db := result.db
    registered :=
      match decide (0 ≤ result.code), result.outputs with
      | true, some account => history.registered ++ [(owner, account)]
      | _, _ => history.registered }

def perform (history : History) : Call → History
  | .insertPreAccountInfo2DB srcAddress privateKey publicKey transHash sql =>
      let (code, db) :=
        insertPreAccountInfo2DB srcAddress privateKey publicKey transHash sql history.db
      { history with
        db
        prepared := if code = 1 then history.prepared ++ [srcAddress] else history.prepared }
  | .processUserRegisterInfo userID userType userInfo sql =>
      history.register (.user userID)
        (processUserRegisterInfo userID userType userInfo sql history.db)
  | .processContractAccountInfo userID classID sql =>
      history.register (.contract userID classID)
        (processContractAccountInfo userID classID sql history.db)

/-- The statements that a call sends. -/
def Call.statements (db : Database) : Call → List SqlStatement
  | .insertPreAccountInfo2DB srcAddress privateKey publicKey transHash sql =>
      insertNewStatements (selectPreAccountAddress srcAddress)
        (insertPreAccount ⟨srcAddress, privateKey, publicKey, transHash⟩ sql.barTime)
        (preAccountsAt srcAddress) sql db
  | .processUserRegisterInfo userID userType userInfo sql =>
      assignStatements (selectUser userID) (insertUserRegister userID userType userInfo)
        (userAccounts userID) sql db
  | .processContractAccountInfo userID classID sql =>
      assignStatements (selectContract userID classID) (insertContractAccount userID classID)
        (contractAccounts userID classID) sql db

/-- An inserted address is not on any table yet. -/
def Fresh (history : History) : Call → Prop
  | .insertPreAccountInfo2DB srcAddress _ _ _ _ => srcAddress ∉ addresses history.db
  | _ => True

instance (history : History) : (call : Call) → Decidable (Fresh history call)
  | .insertPreAccountInfo2DB srcAddress _ _ _ _ =>
      inferInstanceAs (Decidable (srcAddress ∉ addresses history.db))
  | .processUserRegisterInfo .. => .isTrue trivial
  | .processContractAccountInfo .. => .isTrue trivial

/-- The fixed arrays that a call fills. -/
def Call.buffers (db : Database) : Call → List Buffer
  | .insertPreAccountInfo2DB srcAddress privateKey publicKey transHash sql =>
      preAccountBuffers ⟨srcAddress, privateKey, publicKey, transHash⟩ sql db
  | .processUserRegisterInfo userID userType userInfo sql =>
      userBuffers userID userType userInfo sql db
  | .processContractAccountInfo userID classID sql => contractBuffers userID classID sql db

/-- The server reads every statement of the call as it is meant, and every text that the
call prints or copies fits in its array. -/
structure Understood (history : History) (call : Call) : Prop where
  rendered : AllRendered (call.statements history.db)
  inside : AllHold (call.buffers history.db)

instance (history : History) (call : Call) : Decidable (Understood history call) :=
  decidable_of_iff (AllRendered (call.statements history.db) ∧ AllHold (call.buffers history.db))
    ⟨fun ⟨rendered, inside⟩ => ⟨rendered, inside⟩, fun ⟨rendered, inside⟩ => ⟨rendered, inside⟩⟩

theorem insertPre_cases (srcAddress privateKey publicKey transHash : Bytes) (sql : Sql)
    (db : Database)
    (rendered : AllRendered (insertNewStatements (selectPreAccountAddress srcAddress)
      (insertPreAccount ⟨srcAddress, privateKey, publicKey, transHash⟩ sql.barTime)
      (preAccountsAt srcAddress) sql db)) :
    let result := insertPreAccountInfo2DB srcAddress privateKey publicKey transHash sql db
    (result.1 ≠ 1 ∧ result.2 = db) ∨
    (result.1 = 1 ∧ result.2 = { db with
      preaccount_info := db.preaccount_info ++
        [⟨⟨srcAddress, privateKey, publicKey, transHash⟩, sql.barTime⟩] }) := by
  rw [insertPreAccountInfo2DB_eq]
  cases selected : sql.fails 0 with
  | true => simp
  | false =>
      by_cases absent : preAccountsAt srcAddress sql db = []
      · cases insertion : sql.fails 1 with
        | true => simp [absent]
        | false =>
            have inserts := rendered
              (insertPreAccount ⟨srcAddress, privateKey, publicKey, transHash⟩ sql.barTime)
              (by simp [insertNewStatements, selected, absent])
            simp [absent, sql.take_rendered _ _ _ db inserts, Database.tables]
      · simp [absent]

theorem perform_step (history : History) (call : Call) (fresh : Fresh history call)
    (understood : Understood history call) :
    Allocation.Step Account.blockaddress (allocation history.db)
      (allocation (perform history call).db) := by
  cases call with
  | insertPreAccountInfo2DB srcAddress privateKey publicKey transHash sql =>
      rcases insertPre_cases srcAddress privateKey publicKey transHash sql history.db
        understood.rendered with
        ⟨_, same⟩ | ⟨_, added⟩
      · simp only [perform, same]
        exact .idle rfl rfl
      · simp only [perform, added]
        refine .add ⟨srcAddress, privateKey, publicKey, transHash⟩ ?_ ?_ rfl
        · rw [keys_allocation]
          exact fresh
        · simp [allocation]
  | processUserRegisterInfo userID userType userInfo sql =>
      exact assign_step (user_serves userID userType userInfo) sql history.db understood.rendered
  | processContractAccountInfo userID classID sql =>
      exact assign_step (contract_serves userID classID) sql history.db understood.rendered

/-- The rows of the three tables have distinct addresses, and no user and no
contract has two rows. -/
structure Consistent (db : Database) : Prop where
  addresses_nodup : (addresses db).Nodup
  owners_nodup : ((owners db).map Prod.fst).Nodup

theorem consistent_iff (db : Database) :
    Consistent db ↔ Allocation.Exclusive Account.blockaddress (allocation db) := by
  constructor
  · intro ⟨addresses_nodup, owners_nodup⟩
    exact ⟨keys_allocation db ▸ addresses_nodup, owners_nodup⟩
  · intro ⟨keys_nodup, owners_nodup⟩
    exact ⟨keys_allocation db ▸ keys_nodup, owners_nodup⟩

theorem perform_consistent (history : History) (call : Call) (consistent : Consistent history.db)
    (fresh : Fresh history call) (understood : Understood history call) :
    Consistent (perform history call).db := by
  rw [consistent_iff] at consistent ⊢
  exact Allocation.exclusive_step _ _ _ consistent (perform_step history call fresh understood)

/-! No account is handed out twice. -/

def NoSharedAddress (db : Database) : Prop :=
  (assignedAddresses db).Nodup ∧ ∀ address ∈ assignedAddresses db, address ∉ pooledAddresses db

def AnswersAgree (registered : List (Owner × Account)) : Prop :=
  ∀ owner : Owner, ∀ account other : Account,
    (owner, account) ∈ registered → (owner, other) ∈ registered → account = other

/-- The tables still hold every account a registration has answered with. -/
def AnswersHeld (history : History) : Prop :=
  ∀ entry ∈ history.registered, entry ∈ owners history.db

theorem noSharedAddress_of_consistent (db : Database) (consistent : Consistent db) :
    NoSharedAddress db := by
  have distinct := consistent.addresses_nodup
  refine ⟨List.Nodup.of_append_right distinct, ?_⟩
  intro address assigned pooled
  exact List.disjoint_of_nodup_append distinct pooled assigned

theorem answersAgree_of_held (history : History) (consistent : Consistent history.db)
    (held : AnswersHeld history) : AnswersAgree history.registered := by
  intro owner account other first second
  exact Allocation.granted_unique _ _ ((consistent_iff history.db).mp consistent) owner account other
    (held _ first) (held _ second)

theorem register_held (history : History) (owner : Owner) (result : Assignment)
    (kept : ∀ entry ∈ history.registered, entry ∈ owners result.db)
    (granted : 0 ≤ result.code → ∃ account, result.outputs = some account ∧
      (owner, account) ∈ owners result.db) : AnswersHeld (history.register owner result) := by
  intro entry member
  by_cases successful : 0 ≤ result.code
  · obtain ⟨account, outputs, recorded⟩ := granted successful
    simp only [History.register, successful, decide_true, outputs, List.mem_append,
      List.mem_singleton] at member
    rcases member with old | rfl
    · exact kept entry old
    · exact recorded
  · simp only [History.register, successful, decide_false] at member
    exact kept entry member

theorem perform_held (history : History) (call : Call) (fresh : Fresh history call)
    (understood : Understood history call) (held : AnswersHeld history) :
    AnswersHeld (perform history call) := by
  have kept : ∀ entry ∈ history.registered, entry ∈ owners (perform history call).db :=
    fun entry member => Allocation.granted_kept _ _ _ (perform_step history call fresh understood)
      entry (held entry member)
  cases call with
  | insertPreAccountInfo2DB srcAddress privateKey publicKey transHash sql => exact kept
  | processUserRegisterInfo userID userType userInfo sql =>
      exact register_held history _ _ kept
        (assign_granted (user_serves userID userType userInfo) sql history.db
          understood.rendered)
  | processContractAccountInfo userID classID sql =>
      exact register_held history _ _ kept
        (assign_granted (contract_serves userID classID) sql history.db
          understood.rendered)

/-- Along every run whose inserted addresses are new and whose statements are read as
they are meant, whatever statements fail, no address has two owners and registrations
of one owner answer alike. -/
theorem prepared_accounts_handed_out_once (db : Database) (calls : List Call)
    (consistent : Consistent db)
    (admitted : Run.Meets perform (fun history call => Fresh history call ∧ Understood history call)
      (beginning db) calls) :
    ∀ history ∈ Run.states perform (beginning db) calls,
      NoSharedAddress history.db ∧ AnswersAgree history.registered := by
  have sound : ∀ history ∈ Run.states perform (beginning db) calls,
      Consistent history.db ∧ AnswersHeld history :=
    Run.invariant_along perform (fun history call => Fresh history call ∧ Understood history call)
      (fun history => Consistent history.db ∧ AnswersHeld history)
      (fun history call ⟨consistent, held⟩ ⟨fresh, understood⟩ =>
        ⟨perform_consistent history call consistent fresh understood,
          perform_held history call fresh understood held⟩)
      (beginning db) calls ⟨consistent, fun entry member => by cases member⟩ admitted
  intro history member
  obtain ⟨consistent, held⟩ := sound history member
  exact ⟨noSharedAddress_of_consistent history.db consistent,
    answersAgree_of_held history consistent held⟩

def emptyDatabase : Database := ⟨[], [], [], [], [], 0⟩

/-- Statements that all go through, on queries that return at most one row. -/
def calmSql : Sql := ⟨fun _ => false, fun _ => 0, [], fun _ db => db⟩

def twoPrepared : List Call :=
  [.insertPreAccountInfo2DB [0x61] [0x01] [0x02] [0x03] calmSql,
    .processUserRegisterInfo [0x75] 1 [] calmSql,
    .processContractAccountInfo [0x75] [0x63] calmSql,
    .insertPreAccountInfo2DB [0x62] [0x04] [0x05] [0x06] calmSql,
    .processUserRegisterInfo [0x75] 1 [] calmSql]

theorem prepared_accounts_handed_out_once_applies :
    NoSharedAddress (Run.final perform (beginning emptyDatabase) twoPrepared).db ∧
      AnswersAgree (Run.final perform (beginning emptyDatabase) twoPrepared).registered := by
  have consistent : Consistent emptyDatabase := ⟨by decide, by decide⟩
  have admitted : Run.Meets perform
      (fun history call => Fresh history call ∧ Understood history call)
      (beginning emptyDatabase) twoPrepared := by
    decide +kernel
  exact prepared_accounts_handed_out_once emptyDatabase twoPrepared consistent admitted _
    (Run.final_mem_states perform (beginning emptyDatabase) twoPrepared)

/-! A user info that ends its literal. -/

/-- The literals of each pair of brackets. -/
def literalRows (marks : List Quoted.Mark) : List (List Bytes) :=
  (marks.splitOn (.plain ')'.toUInt8)).map Quoted.Statement.literals

/-- A server that inserts every row of eight literals into `user_register`. -/
def insertsRows (text : Bytes) (db : Database) : Database :=
  let rows := ((Quoted.read .plain text).map literalRows).getD []
  { db with
    user_register := db.user_register ++ rows.filterMap fun row =>
      match row with
      | [userid, usertype, userinfo, blockaddress, privatekey, publickey, transactionhash, barTime] =>
          some ⟨userid, if usertype = decimal 1 then 1 else 0, userinfo,
            ⟨blockaddress, privatekey, publickey, transactionhash⟩, barTime⟩
      | _ => none }

/-- The literal ends behind the `i`, and a second row has the rest. -/
def hostileInfo : Bytes := text "i','A2','k','p','t','x'),(null,'w','1','j"

def hostileRun : List Call :=
  let sql := { calmSql with misread := insertsRows }
  [.insertPreAccountInfo2DB (text "A1") (text "k1") (text "p1") (text "t1") sql,
    .insertPreAccountInfo2DB (text "A2") (text "k2") (text "p2") (text "t2") sql,
    .processUserRegisterInfo (text "u") 1 hostileInfo sql]

/-- The account A2 is a user's and in the pool. -/
theorem hostile_info_shares_an_account :
    Run.Meets perform Fresh (beginning emptyDatabase) hostileRun ∧
      ¬ ∀ history ∈ Run.states perform (beginning emptyDatabase) hostileRun,
        NoSharedAddress history.db ∧ AnswersAgree history.registered := by
  constructor
  · decide +kernel
  · intro always
    have shared := (always _ (Run.final_mem_states perform _ hostileRun)).1.2 (text "A2")
      (by decide +kernel)
    exact shared (by decide +kernel)

/-! A failed registration. -/

def LosesAccount (history : History) : Call → Prop
  | .insertPreAccountInfo2DB .. => False
  | .processUserRegisterInfo userID _ _ sql => LosesRow (userAccounts userID) sql history.db
  | .processContractAccountInfo userID classID sql =>
      LosesRow (contractAccounts userID classID) sql history.db

def EachInOnePlace (history : History) : Prop :=
  ∀ address ∈ history.prepared, (addresses history.db).count address = 1

/-- The addresses on the tables are the prepared ones, each of them once. -/
def AllHeld (history : History) : Prop :=
  Consistent history.db ∧ (addresses history.db).Perm history.prepared

theorem eachInOnePlace_of_allHeld (history : History) (held : AllHeld history) :
    EachInOnePlace history := by
  intro address prepared
  exact List.count_eq_one_of_mem held.1.addresses_nodup (held.2.mem_iff.mpr prepared)

theorem assign_addresses {owner : Owner} {select : SqlStatement}
    {insertion : Account → Bytes → SqlStatement} {owned : Sql → Database → List Account}
    {insert : Account → Sql → Database → Database}
    (serves : Serves owner select insertion owned insert) (sql : Sql) (db : Database)
    (rendered : AllRendered (assignStatements select insertion owned sql db))
    (consistent : Consistent db) :
    (¬ LosesRow owned sql db →
      (addresses (assignAccount owned insert sql db).db).Perm (addresses db)) ∧
    (LosesRow owned sql db →
      ∃ address ∈ addresses db, address ∉ addresses (assignAccount owned insert sql db).db) := by
  have distinct := ((consistent_iff db).mp consistent).keys_nodup
  simp only [← keys_allocation]
  obtain ⟨_, ⟨kept, _, same⟩ | ⟨_, _, kept, _, _, same⟩ | ⟨row, member, deletes, _, lost, loses⟩ |
    ⟨row, member, deletes, inserts, kept, _, _, _, moved⟩⟩ := assign_cases serves sql db
  · simp [kept, same]
  · simp [kept, same]
  · have taken := rendered _ deletes
    have gone : LosesRow owned sql db := by
      rw [loses, lost]
      exact deletePreAccount_ne db sql row member taken
    refine ⟨fun kept => absurd gone kept, fun _ => ?_⟩
    have dropped := Allocation.keys_drop Account.blockaddress (allocation db)
      (allocation (assignAccount owned insert sql db).db) row.account distinct
      (List.mem_map_of_mem member)
      (by rw [lost]; exact allocation_deletePreAccount db sql _ taken) (by rw [lost]; rfl)
    exact ⟨row.account.blockaddress, dropped.mem_iff.mpr List.mem_cons_self,
      (List.nodup_cons.mp (dropped.nodup_iff.mp distinct)).1⟩
  · refine ⟨fun _ => ?_, fun loses => absurd loses kept⟩
    refine Allocation.keys_grant Account.blockaddress (allocation db) _ owner row.account distinct
      (List.mem_map_of_mem member) ?_ ?_
    · rw [moved, ← allocation_deletePreAccount db sql _ (rendered _ deletes)]
      simp only [allocation, serves.insert_pool]
    · rw [moved]
      exact serves.insert_owners _ _ _ (rendered _ inserts)

theorem perform_allHeld (history : History) (call : Call) (held : AllHeld history)
    (fresh : Fresh history call) (understood : Understood history call)
    (kept : ¬ LosesAccount history call) : AllHeld (perform history call) := by
  refine ⟨perform_consistent history call held.1 fresh understood, ?_⟩
  cases call with
  | insertPreAccountInfo2DB srcAddress privateKey publicKey transHash sql =>
      rcases insertPre_cases srcAddress privateKey publicKey transHash sql history.db
        understood.rendered with
        ⟨code, same⟩ | ⟨code, added⟩
      · simpa [perform, same, code] using held.2
      · simp only [perform, added, code, if_true]
        have one_more : (addresses { history.db with
            preaccount_info := history.db.preaccount_info ++
              [⟨⟨srcAddress, privateKey, publicKey, transHash⟩, sql.barTime⟩] }).Perm
            (srcAddress :: addresses history.db) := by
          simp [addresses, pooledAddresses, assignedAddresses]
        exact one_more.trans ((held.2.cons srcAddress).trans
          (List.perm_append_singleton srcAddress history.prepared).symm)
  | processUserRegisterInfo userID userType userInfo sql =>
      exact ((assign_addresses (user_serves userID userType userInfo) sql history.db
        understood.rendered held.1).1 kept).trans held.2
  | processContractAccountInfo userID classID sql =>
      exact ((assign_addresses (contract_serves userID classID) sql history.db
        understood.rendered held.1).1 kept).trans held.2

-- The lost address is prepared and on no table, so it is not in exactly one place.
theorem perform_loses (history : History) (call : Call) (held : AllHeld history)
    (understood : Understood history call) (loses : LosesAccount history call) :
    ¬ EachInOnePlace (perform history call) := by
  have missing : ∀ address ∈ addresses history.db,
      address ∉ addresses (perform history call).db →
      (perform history call).prepared = history.prepared →
      ¬ EachInOnePlace (perform history call) := by
    intro address before after same each
    have once := each address (by rw [same]; exact held.2.mem_iff.mp before)
    rw [List.count_eq_zero_of_not_mem after] at once
    contradiction
  cases call with
  | insertPreAccountInfo2DB srcAddress privateKey publicKey transHash sql => exact loses.elim
  | processUserRegisterInfo userID userType userInfo sql =>
      obtain ⟨address, before, after⟩ := (assign_addresses (user_serves userID userType userInfo)
        sql history.db understood.rendered held.1).2 loses
      exact missing address before after rfl
  | processContractAccountInfo userID classID sql =>
      obtain ⟨address, before, after⟩ := (assign_addresses (contract_serves userID classID)
        sql history.db understood.rendered held.1).2 loses
      exact missing address before after rfl

/-- The call writes behind none of its arrays, and where it fails it leaves the tables
alone. -/
def KeepsTables (buffers : List Buffer) (db : Database) (result : Assignment) : Prop :=
  AllHold buffers ∧ (result.code < 0 → SameTables db result.db)

/-- A registration that fails leaves the tables alone unless its insert failed after
its delete; along a run whose statements are read as they are meant no prepared
account gets lost exactly when no call does that. -/
theorem failed_registration_keeps_tables_iff (db : Database) (sql : Sql) :
    (∀ (userID : Bytes) (userType : Int) (userInfo : Bytes),
      let filled := (Call.processUserRegisterInfo userID userType userInfo sql).buffers db
      KeepsTables filled db (processUserRegisterInfo userID userType userInfo sql db) ↔
        AllHold filled ∧ ¬ LosesRow (userAccounts userID) sql db) ∧
    (∀ userID classID : Bytes,
      let filled := (Call.processContractAccountInfo userID classID sql).buffers db
      KeepsTables filled db (processContractAccountInfo userID classID sql db) ↔
        AllHold filled ∧ ¬ LosesRow (contractAccounts userID classID) sql db) ∧
    (∀ calls : List Call, Consistent db →
      Run.Meets perform (fun history call => Fresh history call ∧ Understood history call)
        (beginning db) calls →
      ((∀ history ∈ Run.states perform (beginning db) calls, EachInOnePlace history) ↔
        Run.Meets perform (fun history call => ¬ LosesAccount history call) (beginning db)
          calls)) := by
  refine ⟨?_, ?_, ?_⟩
  · intro userID userType userInfo filled
    exact and_congr_right fun _ => assign_atomic_iff (user_serves userID userType userInfo) sql db
  · intro userID classID filled
    exact and_congr_right fun _ => assign_atomic_iff (contract_serves userID classID) sql db
  · intro calls consistent admitted
    exact Run.property_iff_meets perform _ _ AllHeld EachInOnePlace eachInOnePlace_of_allHeld
      (fun history call held ⟨fresh, understood⟩ => perform_allHeld history call held fresh understood)
      (fun history call held ⟨_, understood⟩ loses =>
        perform_loses history call held understood (not_not.mp loses))
      (beginning db) calls ⟨consistent, List.Perm.refl _⟩ admitted

def onePrepared : Database :=
  { emptyDatabase with preaccount_info := [⟨⟨[0x61], [0x01], [0x02], [0x03]⟩, []⟩] }

def insertFails : Sql := { calmSql with fails := fun statement => statement = 3 }

theorem failed_insert_loses_the_account :
    (processUserRegisterInfo [0x75] 1 [] insertFails onePrepared).code = -1 ∧
      ¬ SameTables onePrepared
        (processUserRegisterInfo [0x75] 1 [] insertFails onePrepared).db := by
  unfold SameTables
  decide +kernel

end EChainLib.Accounts
