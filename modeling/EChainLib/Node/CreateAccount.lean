import Mathlib
import EChainLib.Node.Api

/-! `EChain_CreateAccount` and `EChain_CreateAccountX`. The account exists on the
chain once its transaction is accepted; its keys are stored by a later step of the
same round, which may not be reached. -/

namespace EChainLib.Node

open EChainLib.Keys (Bytes PrivateKey)
open EChainLib.Accounts (Database Sql SqlStatement AllRendered AllHold)
open EChainLib.Effects

variable {Server : Type} (env : Env Server)

/-- How a round ends: with the return value and the address handed out, or with
`goto Again`. -/
inductive RoundEnd where
  | returned (code : Int) (newAddress : Option Bytes)
  | again

def recordAccepted (account : NewAccount) : Api Server Unit :=
  modify fun world => { world with accepted := world.accepted ++ [account] }

def record (round : Round) : Api Server Unit :=
  modify fun world => { world with rounds := world.rounds ++ [round] }

/-- The label `Loop` of both functions: `none` is the return value -1. Only
`EChain_CreateAccountX` reads the nonce again when the node answers 99. -/
def createLoop (rereads : Bool) (genesPrv : PrivateKey) (account : NewAccount) :
    Nat → Api Server (Option Bytes)
  | 0 => throw .outOfFuel
  | fuel + 1 => do
      let world ← get
      match ← submitOnce env genesPrv
        (getCreateAccountJson env genesPrv account.address world.g_genesisNonce) with
      | none => return none
      | some (txHash, iResult) =>
          if iResult = 0 then
            recordAccepted account
            return some txHash
          else if iResult = 3 then
            nextGenesisNonce
            createLoop rereads genesPrv account fuel
          else if iResult = 99 ∧ rereads then
            let nonce ← rereadGenesisNonce env
            if nonce < 0 then
              return none
            else
              createLoop rereads genesPrv account fuel
          else
            return none

/-- The label `Again` of both functions, with the part after the accepted
transaction as `finish`. -/
def accountRounds (rereads : Bool) (finish : NewAccount → Bytes → Api Server RoundEnd) :
    Nat → Api Server (Int × Option Bytes)
  | 0 => throw .outOfFuel
  | fuel + 1 => do
      match ← check (parseAccountInfoFromJson (← httpRequest env .createAccount)) with
      | none => return (-1, none)
      | some account =>
          match ← genesisKey env with
          | none => return (-1, none)
          | some genesPrvKey =>
              let genesPrv := privateKeyOf env genesPrvKey
              let _ ← rereadGenesisNonce env
              match ← createLoop env rereads genesPrv account fuel with
              | none => return (-1, none)
              | some txHash =>
                  match ← finish account txHash with
                  | .returned code newAddress => return (code, newAddress)
                  | .again => accountRounds rereads finish fuel

/-- The database call that stores a new account, recorded with the round. -/
def storeAccount (account : NewAccount) (look : Sql → Database → Bool × List SqlStatement)
    (insert : Sql → Database → Int × Database) : Api Server Int := do
  let sql := env.sql (← tick)
  let world ← get
  let (code, db) := insert sql world.db
  let (taken, sent) := look sql world.db
  let round : Round := { account, paid := true, sql, taken, sent }
  let buffers := world.buffers ++ sent.map (·.printed)
  set { world with db, rounds := world.rounds ++ [round], buffers }
  return code

/-- Whether `insertAccountInfo2DB` finds the address, and what it sends. -/
def lookAccountInfo (account : NewAccount) (sql : Sql) (db : Database) : Bool × List SqlStatement :=
  let found := Accounts.accountsAt account.address
  (!(found sql db).isEmpty, Accounts.insertNewStatements
    (Accounts.selectAccountAddress account.address)
    (Accounts.insertAccount account.address account.privateKey account.publicKey sql.barTime) found
    sql db)

def lookPreAccountInfo (account : NewAccount) (txHash : Bytes) (sql : Sql) (db : Database) :
    Bool × List SqlStatement :=
  let found := Accounts.preAccountsAt account.address
  (!(found sql db).isEmpty, Accounts.insertNewStatements
    (Accounts.selectPreAccountAddress account.address)
    (Accounts.insertPreAccount ⟨account.address, account.privateKey, account.publicKey, txHash⟩
      sql.barTime) found sql db)

def finishCreateAccount (account : NewAccount) (_txHash : Bytes) : Api Server RoundEnd := do
  let iRet ← storeAccount env account (lookAccountInfo account)
    (Accounts.insertAccountInfo2DB account.address account.privateKey account.publicKey)
  -- -1 from a failed statement falls through to the success return
  if iRet = 0 then
    return .again
  else
    return .returned 1 (some account.address)

def finishCreateAccountX (fuel : Nat) (account : NewAccount) (txHash : Bytes) :
    Api Server RoundEnd := do
  if (← eChainObtainAssetCode env account.address g_assetCode 100 fuel) < 0 then
    -- the account exists on the chain and its keys are dropped here
    record { account, paid := false, sql := env.sql 0, taken := false, sent := [] }
    return .returned (-1) none
  else
    let iRet ← storeAccount env account (lookPreAccountInfo account txHash)
      (Accounts.insertPreAccountInfo2DB account.address account.privateKey account.publicKey txHash)
    if iRet ≤ 0 then
      return .again
    else
      return .returned 1 none

def forgetRounds : Api Server Unit :=
  modify fun world => { world with accepted := [], rounds := [] }

def eChainCreateAccount (fuel : Nat) : Api Server (Int × Option Bytes) := do
  forgetRounds
  accountRounds env false (finishCreateAccount env) fuel

def eChainCreateAccountX (fuel : Nat) : Api Server Int := do
  forgetRounds
  return (← accountRounds env true (finishCreateAccountX env fuel) fuel).1

/-- `select count(*) from preaccount_info`. -/
def countPreAccounts (sql : Sql) (db : Database) : Option Nat × Database :=
  let db := db.lock
  if sql.fails 0 then (none, db.unlock)
  else (some db.preaccount_info.length, db.unlock)

def prepareLoop (fuel : Nat) : Nat → Api Server Int
  | 0 => return 1
  | missing + 1 => do
      if (← eChainCreateAccountX env fuel) < 0 then
        return -1
      else
        prepareLoop fuel missing

/-- The loop counts from the rows on file up to 200, after the lock is given back. -/
def eChainAccountPrepare (fuel : Nat) : Api Server Int := do
  -- the statement has no argument
  match ← callDb env (fun _ _ => []) countPreAccounts with
  | none => return -1
  | some iCount => prepareLoop env fuel (200 - iCount)

/-! What the calls before the store leave alone. -/

/-- The database and what is on record stay as they are. -/
def untouched : Change (World Server) where
  rel start last :=
    last.db = start.db ∧ last.accepted = start.accepted ∧ last.rounds = start.rounds
  refl _ := ⟨rfl, rfl, rfl⟩
  trans _ _ _ first second := ⟨second.1.trans first.1, second.2.1.trans first.2.1,
    second.2.2.trans first.2.2⟩

theorem httpRequest_untouched (request : Request) : Within untouched (httpRequest env request) :=
  fun _ => ⟨rfl, rfl, rfl⟩

theorem submitOnce_untouched (prv : PrivateKey) (resq_tx : Json) :
    Within untouched (submitOnce env prv resq_tx) :=
  submitOnce_within env prv resq_tx (httpRequest_untouched env _)
    fun _ _ _ _ _ => httpRequest_untouched env _

theorem untouched_covers : CoversPayment env untouched where
  ticks := fun _ => ⟨rfl, rfl, rfl⟩
  request := fun request _ => httpRequest_untouched env request
  database := fun _ kept world => ⟨kept _ world.db, rfl, rfl⟩
  globals := fun _ _ _ => ⟨rfl, rfl, rfl⟩
  submit := fun _ _ _ _ _ _ _ => submitOnce_untouched env _ _

/-- The call answers with a hash exactly when it has put the account on record. -/
def Accepts (account : NewAccount) (call : Api Server (Option Bytes)) : Prop :=
  Returns call fun start txHash last =>
    last.db = start.db ∧ last.rounds = start.rounds ∧
      last.accepted = start.accepted ++ if txHash.isSome then [account] else []

theorem accepts_after {Value : Type} {account : NewAccount} {call : Api Server Value}
    {next : Value → Api Server (Option Bytes)} (quiet : Within untouched call)
    (rest : ∀ value, Accepts account (next value)) : Accepts account (call >>= next) := by
  refine returns_after ?_ quiet rest
  intro start middle txHash last ⟨same_db, same_accepted, same_rounds⟩ ⟨db, rounds, accepted⟩
  exact ⟨db.trans same_db, rounds.trans same_rounds, by rw [accepted, same_accepted]⟩

theorem accepts_none (account : NewAccount) :
    Accepts account (pure none : Api Server (Option Bytes)) := by
  intro start txHash last outcome
  cases outcome
  exact ⟨rfl, rfl, by simp⟩

theorem createLoop_accepts (rereads : Bool) (genesPrv : PrivateKey) (account : NewAccount)
    (fuel : Nat) : Accepts account (createLoop env rereads genesPrv account fuel) := by
  induction fuel with
  | zero => exact returns_throw _ _
  | succ fuel ih =>
      refine accepts_after within_get fun world => ?_
      refine accepts_after (submitOnce_untouched env _ _) fun submitted => ?_
      cases submitted with
      | none => exact accepts_none account
      | some answer =>
          dsimp only
          split_ifs with accepted repeated behind
          · intro start txHash last outcome
            cases outcome
            exact ⟨rfl, rfl, rfl⟩
          · exact accepts_after (nextGenesisNonce_within (untouched_covers env)) fun _ => ih
          · refine accepts_after (rereadGenesisNonce_within (untouched_covers env)) fun nonce => ?_
            split_ifs
            · exact accepts_none account
            · exact ih
          · exact accepts_none account

/-! What the rounds of a call store. -/

/-- The payment went through, the address was new to the table, and neither
statement of the insertion failed. -/
def Round.stores (round : Round) : Bool :=
  round.paid && !round.sql.fails 0 && !round.taken && !round.sql.fails 1

def stored (rounds : List Round) : List NewAccount :=
  (rounds.filter (·.stores)).map (·.account)

def accountInfo (db : Database) : List NewAccount :=
  db.account_info.map fun row => ⟨row.address, row.privatekey, row.publickey⟩

def preAccountInfo (db : Database) : List NewAccount :=
  db.preaccount_info.map fun row =>
    ⟨row.account.blockaddress, row.account.privatekey, row.account.publickey⟩

section Rounds

variable {env} {onFile : Database → List NewAccount}

/-- What is on record has grown by these accounts and rounds, and the table by what
the rounds store if the server reads their statements as they are meant. -/
structure Explains (onFile : Database → List NewAccount) (accepted : List NewAccount)
    (rounds : List Round) (start last : World Server) : Prop where
  created : last.accepted = start.accepted ++ accepted
  followed : last.rounds = start.rounds ++ rounds
  grown : (∀ round ∈ rounds, AllRendered round.sent) →
    onFile last.db = onFile start.db ++ stored rounds

theorem explains_append (accepted more : List NewAccount) (rounds others : List Round)
    (start middle last : World Server) (first : Explains onFile accepted rounds start middle)
    (second : Explains onFile more others middle last) :
    Explains onFile (accepted ++ more) (rounds ++ others) start last := by
  constructor
  · rw [second.created, first.created, List.append_assoc]
  · rw [second.followed, first.followed, List.append_assoc]
  · intro rendered
    rw [second.grown fun round member => rendered round (List.mem_append_right _ member),
      first.grown fun round member => rendered round (List.mem_append_left _ member),
      List.append_assoc]
    simp [stored]

theorem explains_untouched (start last : World Server) (quiet : untouched.rel start last) :
    Explains onFile [] [] start last := by
  obtain ⟨same_db, same_accepted, same_rounds⟩ := quiet
  exact ⟨by simpa using same_accepted, by simpa using same_rounds, fun _ => by simp [same_db, stored]⟩

/-- Every accepted account of a returning call has its round. -/
def Explained (onFile : Database → List NewAccount) {Value : Type}
    (call : Api Server Value) : Prop :=
  Returns call fun start _ last =>
    ∃ rounds : List Round, Explains onFile (rounds.map (·.account)) rounds start last

theorem explained_pure {Value : Type} (value : Value) :
    Explained onFile (pure value : Api Server Value) := by
  intro start result last outcome
  obtain ⟨_, rfl⟩ := returns_pure value start result last outcome
  exact ⟨[], explains_untouched last last (untouched.refl last)⟩

theorem explained_bind {Value Other : Type} {call : Api Server Value}
    {next : Value → Api Server Other} (first : Explained onFile call)
    (rest : ∀ value, Explained onFile (next value)) : Explained onFile (call >>= next) := by
  refine returns_bind first fun start value middle explained result last outcome => ?_
  obtain ⟨rounds, before⟩ := explained
  obtain ⟨others, after⟩ := rest value middle result last outcome
  refine ⟨rounds ++ others, ?_⟩
  rw [List.map_append]
  exact explains_append _ _ rounds others start middle last before after

theorem explained_quiet {Value : Type} {call : Api Server Value} (quiet : Within untouched call) :
    Explained onFile call := by
  intro start value last outcome
  exact ⟨[], explains_untouched start last (returns_of_within quiet start value last outcome)⟩

/-- The same of a call that starts with `account` accepted but without its round. -/
def Finishes (onFile : Database → List NewAccount) (account : NewAccount) {Value : Type}
    (call : Api Server Value) : Prop :=
  Returns call fun start _ last =>
    ∃ round : Round, ∃ rounds : List Round, round.account = account ∧
      Explains onFile (rounds.map (·.account)) (round :: rounds) start last

theorem finishes_after {Value Other : Type} {account : NewAccount} {call : Api Server Value}
    {next : Value → Api Server Other} (quiet : Within untouched call)
    (rest : ∀ value, Finishes onFile account (next value)) :
    Finishes onFile account (call >>= next) := by
  refine returns_after ?_ quiet rest
  intro start middle value last small ⟨round, rounds, same, after⟩
  exact ⟨round, rounds, same, explains_append _ _ _ _ _ _ _ (explains_untouched _ _ small) after⟩

theorem finishes_then {Value Other : Type} {account : NewAccount} {call : Api Server Value}
    {next : Value → Api Server Other} (finish : Finishes onFile account call)
    (rest : ∀ value, Explained onFile (next value)) : Finishes onFile account (call >>= next) := by
  refine returns_bind finish fun start value middle ⟨round, rounds, same, first⟩ result last
    outcome => ?_
  obtain ⟨others, after⟩ := rest value middle result last outcome
  refine ⟨round, rounds ++ others, same, ?_⟩
  rw [List.map_append]
  exact explains_append _ _ _ _ _ _ _ first after

theorem accepts_then {Value : Type} {account : NewAccount} {call : Api Server (Option Bytes)}
    {next : Option Bytes → Api Server Value} (accepts : Accepts account call)
    (refused : Explained onFile (next none))
    (accepted : ∀ txHash, Finishes onFile account (next (some txHash))) :
    Explained onFile (call >>= next) := by
  refine returns_bind accepts fun start txHash middle ⟨same_db, same_rounds, created⟩ result last
    outcome => ?_
  have before : Explains onFile (if txHash.isSome then [account] else []) [] start middle :=
    ⟨created, by simpa using same_rounds, fun _ => by simp [same_db, stored]⟩
  cases txHash with
  | none =>
      obtain ⟨rounds, after⟩ := refused middle result last outcome
      exact ⟨rounds, explains_append _ _ _ _ _ _ _ before after⟩
  | some txHash =>
      obtain ⟨round, rounds, same, after⟩ := accepted txHash middle result last outcome
      have whole := explains_append _ _ _ _ _ _ _ before after
      exact ⟨round :: rounds, by simpa [same] using whole⟩

-- Induction on the fuel: every `goto Again` leaves a round that explains its account.
theorem accountRounds_explained (rereads : Bool)
    (finish : NewAccount → Bytes → Api Server RoundEnd)
    (finishes : ∀ account txHash, Finishes onFile account (finish account txHash)) (fuel : Nat) :
    Explained onFile (accountRounds env rereads finish fuel) := by
  induction fuel with
  | zero => exact returns_throw _ _
  | succ fuel ih =>
      refine explained_bind (explained_quiet (httpRequest_untouched env _)) fun reply => ?_
      refine explained_bind (explained_quiet (check_within _ _)) fun parsed => ?_
      cases parsed with
      | none => exact explained_pure _
      | some account =>
          refine explained_bind (explained_quiet (genesisKey_within (untouched_covers env))) fun key => ?_
          cases key with
          | none => exact explained_pure _
          | some genesPrvKey =>
              refine explained_bind
                (explained_quiet (rereadGenesisNonce_within (untouched_covers env))) fun _ => ?_
              refine accepts_then (createLoop_accepts env _ _ _ _) (explained_pure _) fun txHash => ?_
              refine finishes_then (finishes account txHash) fun roundEnd => ?_
              cases roundEnd with
              | returned code newAddress => exact explained_pure _
              | again => exact ih

theorem storeAccount_finishes (account : NewAccount)
    (look : Sql → Database → Bool × List SqlStatement)
    (insert : Sql → Database → Int × Database)
    (inserts : ∀ sql db, AllRendered (look sql db).2 → onFile (insert sql db).2 = onFile db ++
      if !sql.fails 0 && !(look sql db).1 && !sql.fails 1 then [account] else []) :
    Finishes onFile account (storeAccount env account look insert) := by
  intro start code last outcome
  cases outcome
  refine ⟨⟨account, true, env.sql start.ticks, (look (env.sql start.ticks) start.db).1,
    (look (env.sql start.ticks) start.db).2⟩, [], rfl, by simp, rfl, ?_⟩
  intro rendered
  rw [inserts _ _ (rendered _ (List.mem_singleton_self _))]
  cases storing : !(env.sql start.ticks).fails 0 && !(look (env.sql start.ticks) start.db).1 &&
    !(env.sql start.ticks).fails 1 <;> simp_all [stored, Round.stores]

end Rounds

/-- The insertion adds the account where its statements go through and are rendered. -/
theorem insertAccountInfo_grows (account : NewAccount) (sql : Sql) (db : Database)
    (rendered : AllRendered (lookAccountInfo account sql db).2) :
    accountInfo (Accounts.insertAccountInfo2DB account.address account.privateKey
      account.publicKey sql db).2 = accountInfo db ++
        if !sql.fails 0 && !(lookAccountInfo account sql db).1 && !sql.fails 1 then [account]
        else [] := by
  rw [Accounts.insertAccountInfo2DB_eq]
  by_cases absent : Accounts.accountsAt account.address sql db = []
  · cases selected : sql.fails 0 with
    | true => simp
    | false =>
        have inserts := rendered (Accounts.insertAccount account.address account.privateKey
          account.publicKey sql.barTime)
          (by simp [lookAccountInfo, Accounts.insertNewStatements, selected, absent])
        cases insertion : sql.fails 1 <;>
          simp [lookAccountInfo, absent, accountInfo, sql.take_rendered _ _ _ db inserts,
            Database.tables]
  · cases selected : sql.fails 0 <;> simp [lookAccountInfo, absent]

theorem insertPreAccountInfo_grows (account : NewAccount) (txHash : Bytes) (sql : Sql)
    (db : Database) (rendered : AllRendered (lookPreAccountInfo account txHash sql db).2) :
    preAccountInfo (Accounts.insertPreAccountInfo2DB account.address account.privateKey
      account.publicKey txHash sql db).2 = preAccountInfo db ++
        if !sql.fails 0 && !(lookPreAccountInfo account txHash sql db).1 && !sql.fails 1 then
          [account]
        else [] := by
  rw [Accounts.insertPreAccountInfo2DB_eq]
  by_cases absent : Accounts.preAccountsAt account.address sql db = []
  · cases selected : sql.fails 0 with
    | true => simp
    | false =>
        have inserts := rendered (Accounts.insertPreAccount
          ⟨account.address, account.privateKey, account.publicKey, txHash⟩ sql.barTime)
          (by simp [lookPreAccountInfo, Accounts.insertNewStatements, selected, absent])
        cases insertion : sql.fails 1 <;>
          simp [lookPreAccountInfo, absent, preAccountInfo, sql.take_rendered _ _ _ db inserts,
            Database.tables]
  · cases selected : sql.fails 0 <;> simp [lookPreAccountInfo, absent]

theorem finishCreateAccount_finishes (account : NewAccount) (txHash : Bytes) :
    Finishes accountInfo account (finishCreateAccount env account txHash) := by
  refine finishes_then (storeAccount_finishes account _ _ (insertAccountInfo_grows account))
    fun iRet => ?_
  split_ifs <;> exact explained_pure _

theorem finishCreateAccountX_finishes (fuel : Nat) (account : NewAccount) (txHash : Bytes) :
    Finishes preAccountInfo account (finishCreateAccountX env fuel account txHash) := by
  refine finishes_after (obtainAssetCode_within (untouched_covers env) _ _ _ _) fun paid => ?_
  split_ifs
  · refine finishes_then ?_ fun _ => explained_pure _
    intro start value last outcome
    cases outcome
    exact ⟨⟨account, false, env.sql 0, false, []⟩, [], rfl, by simp, rfl,
      fun _ => by simp [stored, Round.stores]⟩
  · refine finishes_then
      (storeAccount_finishes account _ _ (insertPreAccountInfo_grows account txHash)) fun iRet => ?_
    split_ifs <;> exact explained_pure _

/-- The account is on file before the call, or in one of its rounds the payment and
both statements of the insertion go through and the address is new. -/
def Reaches (onFile : Database → List NewAccount) (start : World Server) (rounds : List Round)
    (account : NewAccount) : Prop :=
  account ∈ onFile start.db ∨ ∃ round ∈ rounds, round.stores = true ∧ round.account = account

theorem explained_stored_iff {onFile : Database → List NewAccount} {Value : Type}
    {call : Api Server Value} (explained : Explained onFile call) (start last : World Server)
    (value : Value) (outcome : (forgetRounds >>= fun _ => call) start = .ok value last)
    (rendered : ∀ round ∈ last.rounds, AllRendered round.sent) (account : NewAccount) :
    account ∈ onFile last.db ↔ Reaches onFile start last.rounds account := by
  obtain ⟨rounds, explains⟩ :=
    explained { start with accepted := [], rounds := [] } value last outcome
  have followed : last.rounds = rounds := by simpa using explains.followed
  rw [explains.grown fun round member => rendered round (followed ▸ member), List.mem_append,
    followed]
  simp [Reaches, stored, and_assoc]

/-- The insertions of the call are rendered as they are meant, and every text that it prints
or copies fits in its array. -/
structure ReadAsMeant (last : World Server) : Prop where
  rendered : ∀ round ∈ last.rounds, AllRendered round.sent
  inside : AllHold last.buffers

/-- At the return of a call whose insertions are rendered, the accounts the node has
accepted are all on file exactly when each of them reaches the store. -/
theorem accepted_accounts_stored_iff (fuel : Nat) (start : World Server) :
    (∀ (value : Int × Option Bytes) (last : World Server),
      eChainCreateAccount env fuel start = .ok value last → ReadAsMeant last →
      ((∀ account ∈ last.accepted, account ∈ accountInfo last.db) ↔
        ∀ account ∈ last.accepted, Reaches accountInfo start last.rounds account)) ∧
    (∀ (value : Int) (last : World Server), eChainCreateAccountX env fuel start = .ok value last →
      ReadAsMeant last →
      ((∀ account ∈ last.accepted, account ∈ preAccountInfo last.db) ↔
        ∀ account ∈ last.accepted, Reaches preAccountInfo start last.rounds account)) := by
  constructor
  · intro value last outcome ⟨rendered, _⟩
    have explained : Explained accountInfo
        (accountRounds env false (finishCreateAccount env) fuel) :=
      accountRounds_explained false _ (finishCreateAccount_finishes env) fuel
    refine forall₂_congr fun account _ => ?_
    exact explained_stored_iff explained start last value outcome rendered account
  · intro value last outcome ⟨rendered, _⟩
    have explained : Explained preAccountInfo
        (accountRounds env true (finishCreateAccountX env fuel) fuel) :=
      accountRounds_explained true _ (finishCreateAccountX_finishes env fuel) fuel
    refine forall₂_congr fun account _ => ?_
    exact explained_stored_iff (explained_bind explained fun result => explained_pure result.1)
      start last value outcome rendered account

/-! A call whose payment the node refuses. -/

/-- A node that gives these replies one after the other. -/
def scripted : Env (List (Option Json)) where
  lib := Keys.zeroLib
  sign := fun _ _ => []
  http := fun _ replies => (replies.head?.getD none, replies.tail)
  sql := fun _ => ⟨fun _ => false, fun _ => 0, [], fun _ db => db⟩
  barTime := fun _ => []
  uninitialised := fun _ => 0

def okReply (result : List (String × Json)) : Json :=
  .obj [("error_code", .int 0), ("result", .obj result)]

def submitReply (code : Int) : Json := .obj [("results", .arr [.obj [("error_code", .int code)]])]

def genesisReply : Json := okReply [("address", .str [0x67]), ("nonce", .int 1)]

def blobReply : Json := okReply [("transaction_blob", .str [0x62]), ("hash", .str [0x68])]

/-- The creation of account 61 is accepted, the payment to it is refused with 5. -/
def refusedPayment : List (Option Json) :=
  [some (okReply [("address", .str [0x61]), ("private_key", .str [0x70]),
      ("public_key", .str [0x6b])]),
    some genesisReply, some blobReply, some (submitReply 0),
    some genesisReply, some blobReply, some (submitReply 5)]

def genesisOnFile : World (List (Option Json)) where
  server := refusedPayment
  db := ⟨[], [⟨[], 0, [], ⟨[0x67], [], [], []⟩, []⟩], [], [], [], 0⟩
  ticks := 0
  g_genesisAddress := [0x67]
  g_genesisNonce := 0
  accepted := []
  rounds := []
  buffers := []

/-- The return value of a call, the accounts it got accepted and those on file. -/
def observed (outcome : EStateM.Result Stop (World Server) Int) :
    Option (Int × List NewAccount × List NewAccount) :=
  match outcome with
  | .ok code last => some (code, last.accepted, preAccountInfo last.db)
  | .error _ _ => none

theorem refused_payment_orphans_the_account :
    observed (eChainCreateAccountX scripted 9 genesisOnFile) =
      some (-1, [⟨[0x61], [0x70], [0x6b]⟩], []) := by
  decide +kernel

end EChainLib.Node
