import Mathlib
import EChainLib.Accounts.SqlText

/-! The tables behind `api_echain_func.cpp` and the functions that read and write
them. A statement that fails has no effect; the effect of another is what is meant
where its text is read as it is meant, and up to the server elsewhere. -/

namespace EChainLib.Accounts

open EChainLib.Keys (Bytes cString text)

/-- The columns every account table shares. -/
structure Account where
  blockaddress : Bytes
  privatekey : Bytes
  publickey : Bytes
  transactionhash : Bytes
  deriving DecidableEq

structure PreAccountRow where
  account : Account
  barTime : Bytes
  deriving DecidableEq

structure UserRow where
  userid : Bytes
  usertype : Int
  userinfo : Bytes
  account : Account
  barTime : Bytes
  deriving DecidableEq

/-- `account.blockaddress` is the column `contractaddress`. -/
structure ContractRow where
  userid : Bytes
  classid : Bytes
  account : Account
  barTime : Bytes
  deriving DecidableEq

structure AccountInfoRow where
  address : Bytes
  privatekey : Bytes
  publickey : Bytes
  barTime : Bytes
  deriving DecidableEq

structure BusinessRow where
  contractaddress : Bytes
  updatetype : Int
  businesstype : Int
  datahash : Bytes
  transactionhash : Bytes
  barTime : Bytes
  deriving DecidableEq

/-- `g_dbmutex` is recursive: the number counts its holds. -/
structure Database where
  preaccount_info : List PreAccountRow
  user_register : List UserRow
  contract_account : List ContractRow
  account_info : List AccountInfoRow
  business_data : List BusinessRow
  g_dbmutex : Nat
  deriving DecidableEq

def Database.lock (db : Database) : Database := { db with g_dbmutex := db.g_dbmutex + 1 }

def Database.unlock (db : Database) : Database := { db with g_dbmutex := db.g_dbmutex - 1 }

@[simp] theorem Database.unlock_lock (db : Database) : db.lock.unlock = db := rfl

@[simp] theorem Database.lock_preaccount_info (db : Database) :
    db.lock.preaccount_info = db.preaccount_info := rfl

@[simp] theorem Database.lock_holds (db : Database) : db.lock.g_dbmutex = db.g_dbmutex + 1 := rfl

@[simp] theorem Database.unlock_holds (db : Database) :
    db.unlock.g_dbmutex = db.g_dbmutex - 1 := rfl

/-- The tables without the lock, which the server knows nothing of. -/
def Database.tables (db : Database) : Database := { db with g_dbmutex := 0 }

@[simp] theorem Database.tables_lock (db : Database) : db.lock.tables = db.tables := rfl

/-- What the server does with the statements of one call: which of them fail, in
which order it returns the rows of a query, and the time of the call. -/
structure Sql where
  fails : Nat → Bool
  order : Nat → Nat
  barTime : Bytes
  /-- What it makes of a text that it does not read as the statement meant: the tables
  behind it or, for a `select`, those of the rows that it returns. -/
  misread : Bytes → Database → Database

/-- The table that a statement is about behind it, or the rows that it selects. -/
def Sql.take {Row : Type} (sql : Sql) (statement : SqlStatement) (table : Database → List Row)
    (meant : List Row → List Row) (db : Database) : List Row :=
  if statement.Rendered then meant (table db.tables)
  else table (sql.misread statement.text db.tables)

/-- A statement that is rendered does what is meant: it inserts exactly its row, deletes
and selects exactly the rows of its arguments. -/
theorem Sql.take_rendered {Row : Type} (sql : Sql) (statement : SqlStatement)
    (table : Database → List Row) (meant : List Row → List Row) (db : Database)
    (rendered : statement.Rendered) : sql.take statement table meant db = meant (table db.tables) :=
  if_pos rendered

@[simp] theorem Sql.take_lock {Row : Type} (sql : Sql) (statement : SqlStatement)
    (table : Database → List Row) (meant : List Row → List Row) (db : Database) :
    sql.take statement table meant db.lock = sql.take statement table meant db := rfl

/-- The first row of a result set. -/
def fetchRow {Row : Type*} (order : Nat) (rows : List Row) : Option Row :=
  rows[order % rows.length]?

@[simp] theorem fetchRow_none {Row : Type*} (order : Nat) (rows : List Row) :
    fetchRow order rows = none ↔ rows = [] := by
  rw [fetchRow, List.getElem?_eq_none_iff]
  constructor
  · intro beyond
    by_contra nonempty
    have inside := Nat.mod_lt order (List.length_pos_iff.mpr nonempty)
    omega
  · rintro rfl
    simp

theorem mem_of_fetchRow {Row : Type*} (order : Nat) (rows : List Row) (row : Row)
    (found : fetchRow order rows = some row) : row ∈ rows :=
  List.mem_of_getElem? found

/-! The statements. -/

def selectUser (userID : Bytes) : SqlStatement where
  head := part "select blockaddress, privatekey, publickey, transactionhash from user_register where userid="
    (by decide +kernel)
  fields := [(.string userID, semicolon)]

def selectContract (userID classID : Bytes) : SqlStatement where
  head := part "select contractaddress, privatekey, publickey, transactionhash from contract_account where userid="
    (by decide +kernel)
  fields := [(.string userID, part " and classid = " (by decide +kernel)),
    (.string classID, semicolon)]

def selectPreAccount : SqlStatement where
  head := part "select blockaddress, privatekey, publickey, transactionhash from preaccount_info limit 1;"
    (by decide +kernel)
  fields := []

def deletePreAccount (blockAddress : Bytes) : SqlStatement where
  head := part "delete from preaccount_info where blockaddress=" (by decide +kernel)
  fields := [(.string blockAddress, semicolon)]

def insertUserRegister (userID : Bytes) (userType : Int) (userInfo : Bytes) (account : Account)
    (barTime : Bytes) : SqlStatement where
  head := part "insert into user_register values(null, " (by decide +kernel)
  fields := [(.string userID, comma), (.number userType, part "," (by decide +kernel)),
    (.string userInfo, comma), (.string account.blockaddress, comma),
    (.string account.privatekey, comma), (.string account.publickey, comma),
    (.string account.transactionhash, comma), (.string barTime, closing)]

def insertContractAccount (userID classID : Bytes) (account : Account) (barTime : Bytes) :
    SqlStatement where
  head := part "insert into contract_account values(null, " (by decide +kernel)
  fields := [(.string userID, comma), (.string classID, comma),
    (.string account.blockaddress, comma), (.string account.privatekey, comma),
    (.string account.publickey, comma), (.string account.transactionhash, comma),
    (.string barTime, closing)]

def selectPreAccountAddress (srcAddress : Bytes) : SqlStatement where
  head := part "select blockaddress from preaccount_info where blockaddress=" (by decide +kernel)
  fields := [(.string srcAddress, semicolon)]

def insertPreAccount (account : Account) (barTime : Bytes) : SqlStatement where
  head := part "insert into preaccount_info values(null, " (by decide +kernel)
  fields := [(.string account.blockaddress, comma), (.string account.privatekey, comma),
    (.string account.publickey, comma), (.string account.transactionhash, comma),
    (.string barTime, closing)]

def selectAccountAddress (srcAddress : Bytes) : SqlStatement where
  head := part "select address from account_info where address=" (by decide +kernel)
  fields := [(.string srcAddress, semicolon)]

def insertAccount (srcAddress prvKey pubKey barTime : Bytes) : SqlStatement where
  head := part "insert into account_info values(null, " (by decide +kernel)
  fields := [(.string srcAddress, comma), (.string prvKey, comma), (.string pubKey, comma),
    (.string barTime, closing)]

def selectUserKey (srcAddress : Bytes) : SqlStatement where
  head := part "select privatekey from user_register where blockaddress=" (by decide +kernel)
  fields := [(.string srcAddress, semicolon)]

def selectContractKey (contractAddress : Bytes) : SqlStatement where
  head := part "select privatekey from contract_account where contractaddress=" (by decide +kernel)
  fields := [(.string contractAddress, semicolon)]

def insertBusinessData (contractAddress : Bytes) (updateType businessType : Int)
    (dataHash transactionHash barTime : Bytes) : SqlStatement where
  head := part "insert into business_data values(null, " (by decide +kernel)
  fields := [(.string contractAddress, comma), (.number updateType, comma),
    (.number businessType, comma), (.string dataHash, comma), (.string transactionHash, comma),
    (.string barTime, closing)]

def insertUserCertification (blockAddress userName transactionHash barTime : Bytes) :
    SqlStatement where
  head := part "insert into user_certification values(null, " (by decide +kernel)
  fields := [(.string blockAddress, comma), (.string userName, comma),
    (.string transactionHash, comma), (.string barTime, closing)]

def selectBusinessData (contractAddress : Bytes) : SqlStatement where
  head := part "select contractaddress, businesstype, datahash, transactionhash from business_data where contractaddress="
    (by decide +kernel)
  fields := [(.string contractAddress, semicolon)]

/-! Fixed arrays. -/

/-- A `char` array, and how many bytes are put into it in front of their NUL. -/
structure Buffer where
  size : Nat
  used : Nat
  deriving DecidableEq

/-- Behind an array that is too short nothing is defined. -/
def Buffer.Holds (buffer : Buffer) : Prop := buffer.used < buffer.size

instance (buffer : Buffer) : Decidable buffer.Holds := Nat.decLt _ _

def AllHold (buffers : List Buffer) : Prop := ∀ buffer ∈ buffers, buffer.Holds

instance (buffers : List Buffer) : Decidable (AllHold buffers) :=
  inferInstanceAs (Decidable (∀ buffer ∈ buffers, buffer.Holds))

@[simp] theorem allHold_nil : AllHold [] := nofun

@[simp] theorem allHold_cons (buffer : Buffer) (buffers : List Buffer) :
    AllHold (buffer :: buffers) ↔ buffer.Holds ∧ AllHold buffers := List.forall_mem_cons

theorem allHold_append (buffers others : List Buffer) :
    AllHold (buffers ++ others) ↔ AllHold buffers ∧ AllHold others := List.forall_mem_append

/-- `strcpy` into an array of `size` characters. -/
def copied (size : Nat) (value : Bytes) : Buffer := ⟨size, (cString value).length⟩

/-- `sprintf` into `SQLCmd`. -/
def SqlStatement.printed (statement : SqlStatement) : Buffer := ⟨1024, statement.text.length⟩

/-- `szAddress`, `szPrvKey`, `szPubKey` and `szTxHash`. -/
def Account.copies (account : Account) : List Buffer :=
  [copied 128 account.blockaddress, copied 128 account.privatekey, copied 128 account.publickey,
    copied 128 account.transactionhash]

/-! Assignment of a prepared account. -/

def Database.deletePreAccount (db : Database) (sql : Sql) (address : Bytes) : Database :=
  { db with
    preaccount_info := sql.take (Accounts.deletePreAccount address) Database.preaccount_info
      (List.filter fun row => row.account.blockaddress ≠ address) db }

@[simp] theorem Database.deletePreAccount_holds (db : Database) (sql : Sql) (address : Bytes) :
    (db.deletePreAccount sql address).g_dbmutex = db.g_dbmutex := rfl

structure Assignment where
  code : Int
  /-- The four output strings, once a row was fetched. -/
  outputs : Option Account
  db : Database

/-- `processUserRegisterInfo` and `processContractAccountInfo` differ in the rows
that answer for the caller and in the row they insert. -/
def assignAccount (owned : Sql → Database → List Account)
    (insert : Account → Sql → Database → Database) (sql : Sql) (db : Database) : Assignment :=
  let db := db.lock
  if sql.fails 0 then { code := -1, outputs := none, db := db.unlock }
  else
    match fetchRow (sql.order 0) (owned sql db) with
    | some account => { code := 0, outputs := some account, db := db.unlock }
    | none =>
        if sql.fails 1 then { code := -1, outputs := none, db := db.unlock }
        else
          match fetchRow (sql.order 1) db.preaccount_info with
          | none => { code := -1, outputs := none, db := db.unlock }
          | some row =>
              if sql.fails 2 then { code := -1, outputs := some row.account, db := db.unlock }
              else
                -- from here on the row is in no table until the insert goes through
                let db := db.deletePreAccount sql row.account.blockaddress
                if sql.fails 3 then { code := -1, outputs := some row.account, db := db.unlock }
                else
                  let db := insert row.account sql db
                  { code := 1, outputs := some row.account, db := db.unlock }

def userAccounts (userID : Bytes) (sql : Sql) (db : Database) : List Account :=
  (sql.take (selectUser userID) Database.user_register
    (List.filter fun row => row.userid = userID) db).map (·.account)

def contractAccounts (userID classID : Bytes) (sql : Sql) (db : Database) : List Account :=
  (sql.take (selectContract userID classID) Database.contract_account
    (List.filter fun row => row.userid = userID ∧ row.classid = classID) db).map (·.account)

def insertUser (userID : Bytes) (userType : Int) (userInfo : Bytes) (account : Account) (sql : Sql)
    (db : Database) : Database :=
  { db with
    user_register := sql.take (insertUserRegister userID userType userInfo account sql.barTime)
      Database.user_register (· ++ [⟨userID, userType, userInfo, account, sql.barTime⟩]) db }

def insertContract (userID classID : Bytes) (account : Account) (sql : Sql) (db : Database) :
    Database :=
  { db with
    contract_account := sql.take (insertContractAccount userID classID account sql.barTime)
      Database.contract_account (· ++ [⟨userID, classID, account, sql.barTime⟩]) db }

def processUserRegisterInfo (userID : Bytes) (userType : Int) (userInfo : Bytes) (sql : Sql)
    (db : Database) : Assignment :=
  assignAccount (userAccounts userID) (insertUser userID userType userInfo) sql db

def processContractAccountInfo (userID classID : Bytes) (sql : Sql) (db : Database) : Assignment :=
  assignAccount (contractAccounts userID classID) (insertContract userID classID) sql db

/-! Insertion of a new account. -/

/-- `insertPreAccountInfo2DB` and `insertAccountInfo2DB` differ in the table. -/
def insertNew {Row : Type} (found : Sql → Database → List Row)
    (insert : Sql → Database → Database) (sql : Sql) (db : Database) : Int × Database :=
  let db := db.lock
  if sql.fails 0 then (-1, db.unlock)
  else
    match fetchRow (sql.order 0) (found sql db) with
    | some _ => (0, db.unlock)
    | none => if sql.fails 1 then (-1, db.unlock) else (1, (insert sql db).unlock)

/-- The lock is given back on every way out, and nothing looks at it before. -/
theorem insertNew_eq {Row : Type} (found : Sql → Database → List Row)
    (insert : Sql → Database → Database) (sql : Sql) (db : Database)
    (locked : found sql db.lock = found sql db)
    (inserted : (insert sql db.lock).unlock = insert sql db) :
    insertNew found insert sql db =
      if sql.fails 0 then (-1, db)
      else if found sql db ≠ [] then (0, db)
      else if sql.fails 1 then (-1, db)
      else (1, insert sql db) := by
  unfold insertNew
  dsimp only
  rw [locked, inserted]
  cases fetched : fetchRow (sql.order 0) (found sql db) with
  | none =>
      have empty : found sql db = [] := (fetchRow_none _ _).mp fetched
      simp [empty]
  | some row =>
      have filled : found sql db ≠ [] := List.ne_nil_of_mem (mem_of_fetchRow _ _ row fetched)
      simp [filled]

def preAccountsAt (srcAddress : Bytes) (sql : Sql) (db : Database) : List PreAccountRow :=
  sql.take (selectPreAccountAddress srcAddress) Database.preaccount_info
    (List.filter fun row => row.account.blockaddress = srcAddress) db

def accountsAt (srcAddress : Bytes) (sql : Sql) (db : Database) : List AccountInfoRow :=
  sql.take (selectAccountAddress srcAddress) Database.account_info
    (List.filter fun row => row.address = srcAddress) db

def insertPreAccountInfo2DB (srcAddress privateKey publicKey transHash : Bytes) (sql : Sql)
    (db : Database) : Int × Database :=
  let account : Account := ⟨srcAddress, privateKey, publicKey, transHash⟩
  insertNew (preAccountsAt srcAddress)
    (fun sql db => { db with
      preaccount_info := sql.take (insertPreAccount account sql.barTime) Database.preaccount_info
        (· ++ [⟨account, sql.barTime⟩]) db }) sql db

def insertAccountInfo2DB (srcAddress prvKey pubKey : Bytes) (sql : Sql) (db : Database) :
    Int × Database :=
  insertNew (accountsAt srcAddress)
    (fun sql db => { db with
      account_info := sql.take (insertAccount srcAddress prvKey pubKey sql.barTime)
        Database.account_info (· ++ [⟨srcAddress, prvKey, pubKey, sql.barTime⟩]) db }) sql db

theorem insertPreAccountInfo2DB_eq (srcAddress privateKey publicKey transHash : Bytes) (sql : Sql)
    (db : Database) :
    insertPreAccountInfo2DB srcAddress privateKey publicKey transHash sql db =
      if sql.fails 0 then (-1, db)
      else if preAccountsAt srcAddress sql db ≠ [] then (0, db)
      else if sql.fails 1 then (-1, db)
      else (1, { db with
        preaccount_info := sql.take
          (insertPreAccount ⟨srcAddress, privateKey, publicKey, transHash⟩ sql.barTime)
          Database.preaccount_info
          (· ++ [⟨⟨srcAddress, privateKey, publicKey, transHash⟩, sql.barTime⟩]) db }) := by
  unfold insertPreAccountInfo2DB
  exact insertNew_eq _ _ sql db rfl rfl

theorem insertAccountInfo2DB_eq (srcAddress prvKey pubKey : Bytes) (sql : Sql) (db : Database) :
    insertAccountInfo2DB srcAddress prvKey pubKey sql db =
      if sql.fails 0 then (-1, db)
      else if accountsAt srcAddress sql db ≠ [] then (0, db)
      else if sql.fails 1 then (-1, db)
      else (1, { db with
        account_info := sql.take (insertAccount srcAddress prvKey pubKey sql.barTime)
          Database.account_info (· ++ [⟨srcAddress, prvKey, pubKey, sql.barTime⟩]) db }) := by
  unfold insertAccountInfo2DB
  exact insertNew_eq _ _ sql db rfl rfl

def insertBusinessDataInfo2DB (contractAddress : Bytes) (updateType businessType : Int)
    (dataHash transactionHash : Bytes) (sql : Sql) (db : Database) : Int × Database :=
  let db := db.lock
  if sql.fails 0 then (-1, db.unlock)
  else
    let row := ⟨contractAddress, updateType, businessType, dataHash, transactionHash, sql.barTime⟩
    let db := { db with
      business_data := sql.take (insertBusinessData contractAddress updateType businessType dataHash
        transactionHash sql.barTime) Database.business_data (· ++ [row]) db }
    (1, db.unlock)

/-! Private keys of registered addresses. -/

/-- `getPrivateKeyFromUserRegisterDB` and `getPrivateKeyFromContractAccountDB`:
the key is left alone unless a row is found. -/
def getPrivateKey (found : Sql → Database → List Account) (sql : Sql) (db : Database) :
    Int × Option Bytes × Database :=
  let db := db.lock
  if sql.fails 0 then (-1, none, db.unlock)
  else
    match fetchRow (sql.order 0) (found sql db) with
    | some account => (1, some account.privatekey, db.unlock)
    | none => (-1, none, db.unlock)

theorem getPrivateKey_db (found : Sql → Database → List Account) (sql : Sql) (db : Database) :
    (getPrivateKey found sql db).2.2 = db := by
  unfold getPrivateKey
  split_ifs
  · rfl
  · dsimp only
    split <;> rfl

def usersAt (srcAddress : Bytes) (sql : Sql) (db : Database) : List Account :=
  (sql.take (selectUserKey srcAddress) Database.user_register
    (List.filter fun row => row.account.blockaddress = srcAddress) db).map (·.account)

def contractsAt (contractAddress : Bytes) (sql : Sql) (db : Database) : List Account :=
  (sql.take (selectContractKey contractAddress) Database.contract_account
    (List.filter fun row => row.account.blockaddress = contractAddress) db).map (·.account)

def getPrivateKeyFromUserRegisterDB (srcAddress : Bytes) (sql : Sql) (db : Database) :
    Int × Option Bytes × Database :=
  getPrivateKey (usersAt srcAddress) sql db

def getPrivateKeyFromContractAccountDB (contractAddress : Bytes) (sql : Sql) (db : Database) :
    Int × Option Bytes × Database :=
  getPrivateKey (contractsAt contractAddress) sql db

/-! The statements of a call. -/

/-- The statements that `assignAccount` sends, as far as it comes. -/
def assignStatements (select : SqlStatement) (insert : Account → Bytes → SqlStatement)
    (owned : Sql → Database → List Account) (sql : Sql) (db : Database) : List SqlStatement :=
  let pooled :=
    match fetchRow (sql.order 1) db.preaccount_info with
    | none => []
    | some row =>
        deletePreAccount row.account.blockaddress ::
          if sql.fails 2 then [] else [insert row.account sql.barTime]
  let unowned := selectPreAccount :: if sql.fails 1 then [] else pooled
  select ::
    if sql.fails 0 then []
    else
      match fetchRow (sql.order 0) (owned sql db) with
      | some _ => []
      | none => unowned

/-- The arrays that `assignAccount` fills: with its statements and with the row that it
fetches. -/
def assignBuffers (select : SqlStatement) (insert : Account → Bytes → SqlStatement)
    (owned : Sql → Database → List Account) (sql : Sql) (db : Database) : List Buffer :=
  let pooled := if sql.fails 1 then none else fetchRow (sql.order 1) db.preaccount_info
  let fetched :=
    if sql.fails 0 then none
    else
      match fetchRow (sql.order 0) (owned sql db) with
      | some account => some account
      | none => pooled.map (·.account)
  (assignStatements select insert owned sql db).map (·.printed) ++
    (fetched.map Account.copies).getD []

def userBuffers (userID : Bytes) (userType : Int) (userInfo : Bytes) :
    Sql → Database → List Buffer :=
  assignBuffers (selectUser userID) (insertUserRegister userID userType userInfo)
    (userAccounts userID)

def contractBuffers (userID classID : Bytes) : Sql → Database → List Buffer :=
  assignBuffers (selectContract userID classID) (insertContractAccount userID classID)
    (contractAccounts userID classID)

/-- The statements that `insertNew` sends, as far as it comes. -/
def insertNewStatements {Row : Type} (select insert : SqlStatement)
    (found : Sql → Database → List Row) (sql : Sql) (db : Database) : List SqlStatement :=
  select ::
    if sql.fails 0 then []
    else if found sql db ≠ [] then []
    else [insert]

/-- The arrays of `insertPreAccountInfo2DB`. -/
def preAccountBuffers (account : Account) (sql : Sql) (db : Database) : List Buffer :=
  (insertNewStatements (selectPreAccountAddress account.blockaddress)
    (insertPreAccount account sql.barTime) (preAccountsAt account.blockaddress) sql db).map (·.printed)

/-- The arrays of `insertAccountInfo2DB`. -/
def accountBuffers (srcAddress prvKey pubKey : Bytes) (sql : Sql) (db : Database) : List Buffer :=
  (insertNewStatements (selectAccountAddress srcAddress)
    (insertAccount srcAddress prvKey pubKey sql.barTime) (accountsAt srcAddress) sql db).map
      (·.printed)

/-- The arrays of `getPrivateKey`. -/
def keyBuffers (select : SqlStatement) (found : Sql → Database → List Account) (sql : Sql)
    (db : Database) : List Buffer :=
  select.printed ::
    if sql.fails 0 then []
    else
      match fetchRow (sql.order 0) (found sql db) with
      | some account => [copied 128 account.privatekey]
      | none => []

def userKeyBuffers (srcAddress : Bytes) : Sql → Database → List Buffer :=
  keyBuffers (selectUserKey srcAddress) (usersAt srcAddress)

def contractKeyBuffers (contractAddress : Bytes) : Sql → Database → List Buffer :=
  keyBuffers (selectContractKey contractAddress) (contractsAt contractAddress)

/-- The array of `insertBusinessDataInfo2DB`. -/
def businessBuffers (contractAddress : Bytes) (updateType businessType : Int)
    (dataHash transactionHash : Bytes) (sql : Sql) (_db : Database) : List Buffer :=
  [(insertBusinessData contractAddress updateType businessType dataHash transactionHash
    sql.barTime).printed]

/-- The array of `insertCertificationInfo2DB`. -/
def certificationBuffers (blockAddress userName transactionHash : Bytes) (sql : Sql)
    (_db : Database) : List Buffer :=
  [(insertUserCertification blockAddress userName transactionHash sql.barTime).printed]

/-- Every statement is rendered as it is meant. -/
def AllRendered (statements : List SqlStatement) : Prop :=
  ∀ statement ∈ statements, statement.Rendered

instance (statements : List SqlStatement) : Decidable (AllRendered statements) :=
  inferInstanceAs (Decidable (∀ statement ∈ statements, statement.Rendered))

end EChainLib.Accounts
