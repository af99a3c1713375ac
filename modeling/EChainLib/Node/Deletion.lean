import EChainLib.Node.Versions

/-! What repeated deletions of a contract's data do. -/

namespace EChainLib.Node

open EChainLib.Keys (Bytes PrivateKey cString cString_of_text text)
open EChainLib.Accounts (Database Sql BusinessRow)
open EChainLib.Effects

/-! A node that accepts everything, under hashes longer than any in use. -/

def freshHash (ledger : List Entry) : Bytes :=
  List.replicate ((ledger.map fun entry => entry.hash.length).sum + 1) 1

theorem freshHash_clean (ledger : List Entry) : (0 : UInt8) ∉ freshHash ledger := by
  intro member
  exact absurd (List.eq_of_mem_replicate member) (by decide)

theorem freshHash_unused (ledger : List Entry) : freshHash ledger ∉ ledger.map (·.hash) := by
  intro used
  obtain ⟨entry, listed, same⟩ := List.mem_map.mp used
  have long := congrArg List.length same
  have small : entry.hash.length ≤ (ledger.map fun entry => entry.hash.length).sum :=
    List.single_le_sum (fun _ _ => Nat.zero_le _) _ (List.mem_map_of_mem listed)
  rw [freshHash, List.length_replicate] at long
  omega

/-- The hash, its end, and the metadata behind a mark. -/
def freshBlob (entry : Entry) : Bytes :=
  entry.hash ++ 0 :: match entry.metadata with
    | none => []
    | some metadata => 1 :: metadata

def readBlob (blob : Bytes) : Option Entry :=
  match blob.dropWhile fun byte => byte ≠ 0 with
  | [] => none
  | _ :: [] => some ⟨cString blob, none⟩
  | _ :: _ :: metadata => some ⟨cString blob, some metadata⟩

theorem readBlob_freshBlob (entry : Entry) (clean : (0 : UInt8) ∉ entry.hash) :
    readBlob (freshBlob entry) = some entry := by
  have plain : ∀ byte ∈ entry.hash, decide (byte ≠ 0) = true := by
    intro byte member
    simp only [ne_eq, decide_eq_true_eq]
    rintro rfl
    exact clean member
  obtain ⟨hash, metadata⟩ := entry
  have taken : cString (freshBlob ⟨hash, metadata⟩) = hash := by
    rw [cString, freshBlob, List.takeWhile_append_of_pos plain]
    simp
  have dropped : (freshBlob ⟨hash, metadata⟩).dropWhile (fun byte => byte ≠ 0) =
      0 :: match metadata with
        | none => []
        | some metadata => 1 :: metadata := by
    rw [freshBlob, List.dropWhile_append_of_pos plain]
    simp
  rw [readBlob, dropped, taken]
  cases metadata <;> rfl

def freshReply : Request → List Entry → Option Json × List Entry
  | .getAccount _, ledger => (some (okReply [("nonce", .int 0)]), ledger)
  | .getTransactionBlob content, ledger =>
      let entry : Entry := ⟨freshHash ledger, metadataOf content⟩
      (some (okReply [("transaction_blob", .str (freshBlob entry)), ("hash", .str entry.hash)]),
        ledger)
  | .submitTransaction content, ledger =>
      submitEntry ledger ((submittedBlob content).toOption.bind readBlob)
  | .getTransactionHistory hash, ledger =>
      (some (historyReply (ledger.find? fun entry => entry.hash = hash)), ledger)
  | _, ledger => (none, ledger)

/-- The third statement of each of the first updates fails, and no other does. -/
def freshSql (misread : Bytes → Database → Database) (updates tick : Nat) : Sql where
  fails _ := tick % 3 = 0 ∧ 0 < tick ∧ tick ≤ 3 * updates
  order _ := 0
  barTime := []
  misread := misread

def freshEnv (misread : Bytes → Database → Database) (updates : Nat) : Env (List Entry) :=
  { listEnv with http := freshReply, sql := freshSql misread updates }

def freshChain (misread : Bytes → Database → Database) (updates : Nat) :
    FaithfulChain (freshEnv misread updates) where
  ledger := id
  spells := fun blob entry => readBlob blob = some entry
  quiet := by
    intro request ledger quiet
    cases request with
    | submitTransaction content => exact absurd rfl (quiet content)
    | _ => rfl
  blob := by
    intro content ledger rep blob replied found entry same
    cases replied
    cases found
    rw [readBlob_freshBlob _ (freshHash_clean ledger)] at same
    cases same
    refine ⟨rfl, fun hash named => ?_⟩
    cases named
    rfl
  submit := fun _ _ blob ledger => submitEntry_appends ledger (readBlob blob)
  history := history_reports

section Fresh

variable (misread : Bytes → Database → Database) (updates : Nat)

/-- Every submission is accepted at once. -/
theorem freshSubmit_run (prv : PrivateKey) (content : Json) (world : World (List Entry)) :
    submitOnce (freshEnv misread updates) prv content world = .ok (some (freshHash world.server, 0))
      { world with server := world.server ++ [⟨freshHash world.server, metadataOf content⟩] } := by
  have accepted (blob : Bytes) (spelled : blob = freshBlob
      ⟨freshHash world.server, metadataOf content⟩) :
      httpRequest (freshEnv misread updates) (.submitTransaction (submintTransaction prv [] blob)) world =
        .ok (some (submitReply 0))
          { world with server := world.server ++ [⟨freshHash world.server, metadataOf content⟩] } := by
    have entered : submitEntry world.server (readBlob blob) = (some (submitReply 0),
        world.server ++ [⟨freshHash world.server, metadataOf content⟩]) := by
      rw [spelled, readBlob_freshBlob _ (freshHash_clean _), submitEntry,
        if_neg (freshHash_unused _)]
    show EStateM.Result.ok (submitEntry world.server (readBlob blob)).1
      { world with server := (submitEntry world.server (readBlob blob)).2 } = _
    rw [entered]
  have asked : httpRequest (freshEnv misread updates) (.getTransactionBlob content) world =
      .ok (freshReply (.getTransactionBlob content) world.server).1 world := rfl
  have blobbed : (check (Json.resultString "transaction_blob" (okReply
      [("transaction_blob", .str (freshBlob ⟨freshHash world.server, metadataOf content⟩)),
        ("hash", .str (freshHash world.server))])) : Api (List Entry) Bytes) world =
      .ok (freshBlob ⟨freshHash world.server, metadataOf content⟩) world := rfl
  have named : (check (Json.resultString "hash" (okReply
      [("transaction_blob", .str (freshBlob ⟨freshHash world.server, metadataOf content⟩)),
        ("hash", .str (freshHash world.server))])) : Api (List Entry) Bytes) world =
      .ok (freshHash world.server) world := rfl
  rw [submitOnce, bind_of_ok asked]
  refine (bind_of_ok blobbed _).trans ((bind_of_ok named _).trans ?_)
  exact bind_of_ok (accepted _ rfl) _

/-- The contract's key is on file. -/
def keyOnFile (contractAddress : Bytes) : List Accounts.ContractRow :=
  [⟨[], [], ⟨contractAddress, [], [], []⟩, []⟩]

/-- The statement for the key is the shorter one. -/
theorem contractKey_rendered {contractAddress : Bytes}
    (rendered : (Accounts.selectBusinessData contractAddress).Rendered) :
    (Accounts.selectContractKey contractAddress).Rendered := by
  have heads : (Accounts.selectContractKey []).head.bytes.length ≤
      (Accounts.selectBusinessData []).head.bytes.length := by decide +kernel
  exact Accounts.SqlStatement.rendered_of_shorter heads rendered

theorem contractKey_run (contractAddress : Bytes) (world : World (List Entry))
    (rendered : (Accounts.selectBusinessData contractAddress).Rendered)
    (answers : ((freshEnv misread updates).sql world.ticks).fails 0 = false)
    (filed : world.db.contract_account = keyOnFile contractAddress) :
    ∃ buffers, contractKey (freshEnv misread updates) contractAddress world =
      .ok (some []) { world with ticks := world.ticks + 1, buffers } := by
  have found : Accounts.getPrivateKeyFromContractAccountDB contractAddress
      ((freshEnv misread updates).sql world.ticks) world.db = (1, some [], world.db) := by
    have row : world.db.tables.contract_account = keyOnFile contractAddress := filed
    unfold Accounts.getPrivateKeyFromContractAccountDB Accounts.getPrivateKey
    dsimp only
    rw [answers, if_neg Bool.false_ne_true, Accounts.contractsAt, Accounts.Sql.take_rendered _ _ _ _ _
      (contractKey_rendered rendered), Accounts.Database.tables_lock, row]
    simp only [keyOnFile, List.filter_cons, decide_true, if_true, List.filter_nil]
    rfl
  rw [contractKey, callDb_eq]
  dsimp only
  rw [found]
  exact ⟨_, rfl⟩

/-- The metadata is the text of a document with this version. -/
def Readable (json : JsonLib) (version : Int) (entry : Entry) : Prop :=
  ∃ metadata preHash, entry.metadata = some metadata ∧ Spells json metadata version preHash

variable (json : JsonLib)

/-- A description that every JSON library reads. -/
def emptyInfo : Bytes := json.toStyledString (.obj [])

theorem emptyInfo_parsed : ∃ descJson, json.parse (cString (emptyInfo json)) = some descJson := by
  obtain ⟨read, parses, _⟩ := json.reads_back []
  rw [emptyInfo, cString_of_text _ (json.styled_text _)]
  exact ⟨_, parses⟩

/-- A round is accepted at once, and its row stored. -/
theorem freshRound_run (contractAddress : Bytes) (blockJson : List (String × Json))
    (fills : Bytes → Sql → Database → List Accounts.Buffer)
    (insert : Bytes → Sql → Database → Int × Database) (world : World (List Entry)) :
    ∃ hexInfo buffers, strToHex (json.toStyledString (.obj blockJson)) = some hexInfo ∧
      businessRounds (freshEnv misread updates) json (privateKeyOf (freshEnv misread updates) [])
        contractAddress (return some blockJson) fills insert 2 world =
        .ok (1, some (freshHash world.server)) { world with
          server := world.server ++ [⟨freshHash world.server, some hexInfo⟩]
          ticks := world.ticks + 1
          db := (insert (freshHash world.server) ((freshEnv misread updates).sql world.ticks)
            world.db).2
          buffers } := by
  cases spelled : strToHex (json.toStyledString (.obj blockJson)) with
  | none => exact absurd spelled (strToHex_styled json _)
  | some hexInfo =>
      refine ⟨hexInfo, world.buffers ++ fills (freshHash world.server)
        ((freshEnv misread updates).sql world.ticks) world.db, rfl, ?_⟩
      have long := json.styled_length (.obj blockJson)
      have asked : httpRequest (freshEnv misread updates) (.getAccount contractAddress) world =
          .ok (some (okReply [("nonce", .int 0)])) world := rfl
      have nonce : (check (parseNonceNumFromJson (some (okReply [("nonce", .int 0)]))) :
          Api (List Entry) Int) world = .ok 0 world := rfl
      have submitted := freshSubmit_run misread updates (privateKeyOf (freshEnv misread updates) [])
        (getPaymentJsonX contractAddress g_destAddress g_destAddress hexInfo (0 + 1) g_assetCode 1)
        world
      rw [businessRounds, bind_of_ok asked]
      refine (bind_of_ok nonce _).trans ?_
      have looped : submitLoop (freshEnv misread updates)
          (privateKeyOf (freshEnv misread updates) []) contractAddress hexInfo 1 0 world =
          .ok (.accepted (freshHash world.server)) { world with
            server := world.server ++ [⟨freshHash world.server, some hexInfo⟩] } := by
        rw [submitLoop, bind_of_ok submitted]
        rfl
      have made : (return some blockJson : Api (List Entry) (Option (List (String × Json)))) world =
          .ok (some blockJson) world := rfl
      refine (bind_of_ok made _).trans ?_
      dsimp only
      rw [if_neg (by omega), spelled]
      exact bind_of_ok looped _

/-- An update of a readable record appends the next version, whatever becomes of its
row. -/
theorem freshUpdate_run (contractAddress : Bytes) (updateType businessType : Int32)
    (preTranxHash dataHash dataPath : Bytes) (world : World (List Entry)) (parent : Entry)
    (version : Int) (rendered : (Accounts.selectBusinessData contractAddress).Rendered)
    (answers : ((freshEnv misread updates).sql (world.ticks + 1)).fails 0 = false)
    (filed : world.db.contract_account = keyOnFile contractAddress)
    (found : world.server.find? (fun entry => entry.hash = preTranxHash) = some parent)
    (readable : Readable json version parent) (counted : 1 ≤ version ∧ version < 2 ^ 31) :
    ∃ metadata buffers, eChainBusinessDataUpdate (freshEnv misread updates) json contractAddress updateType
        businessType preTranxHash dataHash dataPath (emptyInfo json) 2 world =
      .ok (1, some (freshHash world.server)) { world with
        server := world.server ++ [⟨freshHash world.server, some metadata⟩]
        ticks := world.ticks + 3
        db := (Accounts.insertBusinessDataInfo2DB contractAddress updateType.toInt
          businessType.toInt dataHash (freshHash world.server)
          ((freshEnv misread updates).sql (world.ticks + 2)) world.db).2
        buffers } := by
  obtain ⟨carriedData, preHash, carried, spells⟩ := readable
  obtain ⟨document, parsed, read, _⟩ :=
    documentOf_spelled json carried spells ⟨by omega, counted.2⟩
  obtain ⟨descJson, described⟩ := emptyInfo_parsed json
  obtain ⟨info, reported, parses⟩ : ∃ info, parseCreditInfoFromHexString carriedData = some info ∧
      json.parse (cString info) = some document := by
    simp only [documentOf, carried, bind, Option.bind_some] at parsed
    exact Option.bind_eq_some_iff.mp parsed
  -- the clock, the record of the hash, its version and the key are read before anything is written
  let timed : World (List Entry) := { world with ticks := world.ticks + 1 }
  have clock : getCurTimeByString (freshEnv misread updates) world =
      .ok ((freshEnv misread updates).barTime world.ticks) timed := rfl
  have history : parseMetaInfoFromTransactionHash (freshEnv misread updates) preTranxHash timed =
      .ok (1, info) timed := by
    have reply : (freshEnv misread updates).http (.getTransactionHistory preTranxHash) timed.server =
        (some (historyReply (some parent)), timed.server) := by
      show (some (historyReply (world.server.find? fun entry => entry.hash = preTranxHash)), _) = _
      rw [found]
    obtain ⟨rep, same, lists⟩ := historyReply_reports (some parent)
    cases same
    rw [carried] at lists
    rw [parseMetaInfo_eq, reply]
    dsimp only
    rw [readMetaInfo_lists _ _ lists]
    simp only [infoOf, reported]
    rfl
  have versioned : (check (versionOf document) : Api (List Entry) Int) timed =
      .ok version timed := by
    rw [read]
    rfl
  obtain ⟨keyed, key⟩ := contractKey_run misread updates contractAddress timed rendered answers filed
  obtain ⟨metadata, buffers, _, round⟩ := freshRound_run misread updates json contractAddress
    (businessJson businessType updateType.toInt dataHash preTranxHash dataPath descJson
      (version + 1) (cString ((freshEnv misread updates).barTime world.ticks)))
    (Accounts.businessBuffers contractAddress updateType.toInt businessType.toInt dataHash)
    (fun transactionHash => Accounts.insertBusinessDataInfo2DB contractAddress updateType.toInt
      businessType.toInt dataHash transactionHash)
    { timed with ticks := timed.ticks + 1, buffers := keyed }
  refine ⟨metadata, buffers, ?_⟩
  rw [eChainBusinessDataUpdate, bind_of_ok clock]
  refine (bind_of_ok history _).trans ?_
  dsimp only
  -- the answer 1 is no error, and both texts are documents
  rw [if_neg (by decide), described, parses]
  refine (bind_of_ok versioned _).trans ?_
  refine (bind_of_ok key _).trans ?_
  exact round

/-! Deletions at this node. -/

/-- The ledger keeps a first version under the hash. -/
def Known (ledger : List Entry) (hash : Bytes) : Prop :=
  ∃ parent, ledger.find? (fun entry => entry.hash = hash) = some parent ∧ Readable json 1 parent

theorem known_append {ledger added : List Entry} {hash : Bytes} (known : Known json ledger hash) :
    Known json (ledger ++ added) hash := by
  obtain ⟨parent, found, readable⟩ := known
  refine ⟨parent, ?_, readable⟩
  rw [List.find?_append, found]
  rfl

/-- The loop deletes first versions one after the other, and no row of theirs is stored. -/
theorem freshLoop_run (contractAddress : Bytes) (items : List BusinessDataItem)
    (world : World (List Entry)) (done : Nat)
    (rendered : (Accounts.selectBusinessData contractAddress).Rendered)
    (ticks : world.ticks = 3 * done + 1) (left : done + items.length ≤ updates)
    (filed : world.db.contract_account = keyOnFile contractAddress)
    (first : ∀ item ∈ items, Known json world.server item.TransactionHash) :
    ∃ added buffers, deleteLoop (freshEnv misread updates) json contractAddress (emptyInfo json) 2
      items world = .ok 1 { world with
        server := world.server ++ added, ticks := 3 * (done + items.length) + 1, buffers } := by
  -- the ticks are the statements so far: one for the select and three for each item that is
  -- done
  induction items generalizing world done with
  | nil =>
      refine ⟨[], world.buffers, ?_⟩
      simp only [List.append_nil, List.length_nil, Nat.add_zero, ← ticks]
      rfl
  | cons item rest ih =>
      rw [List.length_cons] at left ⊢
      obtain ⟨parent, found, readable⟩ := first item List.mem_cons_self
      have answers : ((freshEnv misread updates).sql (world.ticks + 1)).fails 0 = false := by
        rw [ticks]
        exact decide_eq_false (by omega)
      have fails : ((freshEnv misread updates).sql (world.ticks + 2)).fails 0 = true := by
        rw [ticks]
        exact decide_eq_true (by omega)
      obtain ⟨metadata, buffers, updated⟩ := freshUpdate_run misread updates json contractAddress DELETE
        item.BusinessType item.TransactionHash item.DataHsh [] world parent 1 rendered answers filed
        found readable (by decide)
      -- the insertion is among those that fail, so the table stays as it is
      have lost : (Accounts.insertBusinessDataInfo2DB contractAddress DELETE.toInt
          item.BusinessType.toInt item.DataHsh (freshHash world.server)
          ((freshEnv misread updates).sql (world.ticks + 2)) world.db).2 = world.db := by
        rw [Accounts.insertBusinessDataInfo2DB, if_pos fails]
        rfl
      rw [lost] at updated
      obtain ⟨added, after, looped⟩ := ih { world with
          server := world.server ++ [⟨freshHash world.server, some metadata⟩]
          ticks := world.ticks + 3
          buffers } (done + 1) (by dsimp only; omega) (by omega) filed
        fun other member => known_append json (first other (List.mem_cons_of_mem item member))
      refine ⟨[⟨freshHash world.server, some metadata⟩] ++ added, after, ?_⟩
      rw [deleteLoop, bind_of_ok updated]
      refine looped.trans ?_
      rw [List.append_assoc, show done + 1 + rest.length = done + (rest.length + 1) by omega]

/-- A deletion of first versions appends to the ledger. -/
theorem freshDelete_writes (contractAddress : Bytes) (items : List BusinessDataItem)
    (world : World (List Entry)) (rendered : (Accounts.selectBusinessData contractAddress).Rendered)
    (answers : ((freshEnv misread updates).sql (world.ticks + 1)).fails 0 = false)
    (filed : world.db.contract_account = keyOnFile contractAddress) (some_items : items ≠ [])
    (first : ∀ item ∈ items, Known json world.server item.TransactionHash) :
    (last (deleteLoop (freshEnv misread updates) json contractAddress (emptyInfo json) 2 items)
      world).server ≠ world.server := by
  obtain ⟨item, rest, rfl⟩ := List.exists_cons_of_ne_nil some_items
  obtain ⟨parent, found, readable⟩ := first item List.mem_cons_self
  obtain ⟨metadata, buffers, updated⟩ := freshUpdate_run misread updates json contractAddress DELETE
    item.BusinessType item.TransactionHash item.DataHsh [] world parent 1 rendered answers filed
    found readable (by decide)
  have written : (last (eChainBusinessDataUpdate (freshEnv misread updates) json contractAddress
      DELETE item.BusinessType item.TransactionHash item.DataHsh [] (emptyInfo json) 2)
      world).server = world.server ++ [⟨freshHash world.server, some metadata⟩] := by
    rw [last, updated]
  have longer (more : List Entry) : (last (eChainBusinessDataUpdate (freshEnv misread updates) json
      contractAddress DELETE item.BusinessType item.TransactionHash item.DataHsh [] (emptyInfo json)
      2) world).server ++ more ≠ world.server := by
    rw [written]
    intro equal
    have lengths := congrArg List.length equal
    simp at lengths
  rcases deleteLoop_cons json (freshEnv misread updates) contractAddress (emptyInfo json) 2 item rest
    world with ended | continued
  · rw [ended]
    simpa using longer []
  · obtain ⟨more, grown, _⟩ := deleteLoop_grows json (freshChain misread updates).toChain
      contractAddress (emptyInfo json) 2 rest (last (eChainBusinessDataUpdate
        (freshEnv misread updates) json contractAddress DELETE item.BusinessType
        item.TransactionHash item.DataHsh [] (emptyInfo json) 2) world)
    rw [continued]
    intro same
    exact longer more (grown.symm.trans same)

end Fresh

/-! Exactness. -/

variable (json : JsonLib)

def operationOf (document : Json) : Except Stop Int := do (← document.get "operationType").asInt

/-- The hash that a DELETE record names. -/
def deletionOf (entry : Entry) : Option Bytes :=
  (documentOf json entry).bind fun document =>
    if (operationOf document).toOption = some DELETE.toInt then (preHashOf document).toOption
    else none

/-- The number of DELETE records that name a hash. -/
def deletions (ledger : List Entry) (hash : Bytes) : Nat :=
  ledger.countP fun entry => deletionOf json entry = some hash

variable {Server : Type} {env : Env Server}

/-- Every row of the contract that is no DELETE record has one, no DELETE record has one,
and a further deletion writes nothing. -/
structure ExactlyDeleted (chain : HonestChain env) (contractAddress : Bytes) (world : World Server) :
    Prop where
  each : ∀ row ∈ rowsOf contractAddress world.db, row.updatetype ≠ DELETE.toInt →
    deletions json (chain.ledger world.server) row.transactionhash = 1
  no_further : ∀ row ∈ rowsOf contractAddress world.db, row.updatetype = DELETE.toInt →
    deletions json (chain.ledger world.server) row.transactionhash = 0
  idle : ∀ (blockAddress descInfo : Bytes) (fuel : Nat) (after : World Server),
    after = last (eChainContractAddressDelete env json blockAddress contractAddress descInfo fuel)
      world → chain.ledger after.server = chain.ledger world.server ∧
        after.db.business_data = world.db.business_data

/-- The same rows have as many DELETE records on both ledgers, and there are no others. -/
def SameDeletions (rows : List BusinessRow) (ledger other : List Entry) : Prop :=
  (∀ row ∈ rows, deletions json ledger row.transactionhash =
    deletions json other row.transactionhash) ∧
  ledger.countP (fun entry => (deletionOf json entry).isSome) =
    other.countP fun entry => (deletionOf json entry).isSome

/-- Whatever the node answers and whichever statements fail at a server that makes this of
the texts that are not rendered: a deletion ends in a defined way, one that returns 1 is
exact, and one that returns 1 after one that has failed leaves what a single one leaves. -/
def DeletesExactly (misread : Bytes → Database → Database) (content : List BusinessRow)
    (contractAddress : Bytes) : Prop :=
  (Accounts.selectBusinessData contractAddress).text.length + 1 ≤ 1024 ∧
  ∀ (Server : Type) (env : Env Server) (chain : HonestChain env) (world : World Server)
    (blockAddress descInfo : Bytes) (fuel : Nat), world.db.business_data = content →
    (∀ tick, (env.sql tick).misread = misread) →
    let call := eChainContractAddressDelete env json blockAddress contractAddress descInfo fuel
    (∀ after, call world ≠ .ok none after) ∧
    (∀ after, call world = .ok (some 1) after → ExactlyDeleted json chain contractAddress after) ∧
    (∀ other failed retried once : World Server, other.db = world.db →
      chain.ledger other.server = chain.ledger world.server →
      (∀ after, call world ≠ .ok (some 1) after) → failed = last call world →
      call failed = .ok (some 1) retried → call other = .ok (some 1) once →
      SameDeletions json (rowsOf contractAddress world.db) (chain.ledger retried.server)
        (chain.ledger once.server))

/-- An exact deletion leaves a further one nothing to write. -/
theorem further_idle {misread : Bytes → Database → Database} {content : List BusinessRow}
    {contractAddress : Bytes} (exactly : DeletesExactly json misread content contractAddress)
    (chain : HonestChain env) (start : World Server) (blockAddress other descInfo : Bytes)
    (fuel more : Nat) (table : start.db.business_data = content)
    (server : ∀ tick, (env.sql tick).misread = misread) (once : World Server)
    (ended : eChainContractAddressDelete env json blockAddress contractAddress descInfo fuel start =
      .ok (some 1) once) :
    chain.ledger (last (eChainContractAddressDelete env json other contractAddress descInfo more)
      once).server = chain.ledger once.server := by
  obtain ⟨_, exact, _⟩ := exactly.2 Server env chain start blockAddress descInfo fuel table server
  exact ((exact once ended).idle other descInfo more _ rfl).1

/-- The rows that the statement of the deletion returns at such a server. -/
def returnedRows (misread : Bytes → Database → Database) (contractAddress : Bytes)
    (db : Database) : List BusinessRow :=
  selectedRows contractAddress ⟨fun _ => false, fun _ => 0, [], misread⟩ db

theorem returnedRows_rendered (misread : Bytes → Database → Database) (contractAddress : Bytes)
    (db : Database) (rendered : (Accounts.selectBusinessData contractAddress).Rendered) :
    returnedRows misread contractAddress db = rowsOf contractAddress db :=
  selectedRows_rendered contractAddress _ db rendered

/-- A deletion whose rows count as none or below 0 returns a negative code or raises. -/
theorem delete_never (env : Env Server) (blockAddress contractAddress descInfo : Bytes) (fuel : Nat)
    (world after : World Server) (code : Option Int)
    (never : NeverDeletes (returnedRows (env.sql world.ticks).misread contractAddress
      world.db).length)
    (ended : eChainContractAddressDelete env json blockAddress contractAddress descInfo fuel world =
      .ok code after) : code = some (-8) ∨ code = some (-1) := by
  have run := fun ended db => contractAddressDelete_run env json blockAddress contractAddress
    descInfo fuel world ended db
  have same : returnedRows (env.sql world.ticks).misread contractAddress world.db =
    selectedRows contractAddress (env.sql world.ticks) world.db := rfl
  rw [same] at never
  rcases selectForDelete_cases contractAddress (env.sql world.ticks) world.db with ⟨_, found⟩ |
    ⟨_, _, found⟩ | ⟨_, _, found⟩ | ⟨_, deletes, _, found⟩ | ⟨_, deletes, _, _, found, _⟩
  · rw [run _ _ found] at ended
    cases ended
    exact .inl rfl
  · rw [run _ _ found] at ended
    cases ended
    exact .inr rfl
  · rw [run _ _ found] at ended
    cases ended
  · exact absurd never deletes
  · exact absurd never deletes

theorem deletes_exactly_of_never (misread : Bytes → Database → Database)
    (content : List BusinessRow) (contractAddress : Bytes)
    (fits : (Accounts.selectBusinessData contractAddress).text.length + 1 ≤ 1024)
    (never : ∀ db : Database, db.business_data = content →
      NeverDeletes (returnedRows misread contractAddress db).length) :
    DeletesExactly json misread content contractAddress := by
  refine ⟨fits, ?_⟩
  rintro Server env chain world blockAddress descInfo fuel rfl server
  have negative := fun (world' after : World Server) code
      (same : world'.db = world.db) ended =>
    delete_never json env blockAddress contractAddress descInfo fuel world' after code
      (by rw [server, same]; exact never world.db rfl) ended
  refine ⟨?_, ?_, ?_⟩
  · intro after ended
    simpa using negative world after _ rfl ended
  · intro after ended
    simpa using negative world after _ rfl ended
  · intro other _ _ once same _ _ _ _ ended
    simpa using negative other once _ same ended

/-- The first versions that a table names, at a node that accepts everything. -/
def firstVersions (content : List BusinessRow) (contractAddress metadata : Bytes) :
    World (List Entry) where
  server := content.map fun row => ⟨cString row.transactionhash, some metadata⟩
  db := ⟨[], [], keyOnFile contractAddress, [], content, 0⟩
  ticks := 0
  g_genesisAddress := []
  g_genesisNonce := 0
  accepted := []
  rounds := []
  buffers := []

theorem firstVersions_known (content : List BusinessRow) (contractAddress metadata : Bytes)
    (spells : Spells json metadata 1 (text " ")) (row : BusinessRow) (listed : row ∈ content) :
    Known json (firstVersions content contractAddress metadata).server
      (cString row.transactionhash) := by
  cases found : (firstVersions content contractAddress metadata).server.find?
      fun entry => entry.hash = cString row.transactionhash with
  | none =>
      have absent := List.find?_eq_none.mp found _ (List.mem_map_of_mem listed)
      simp at absent
  | some parent =>
      obtain ⟨other, _, rfl⟩ := List.mem_map.mp (List.mem_of_find?_eq_some found)
      exact ⟨_, found, metadata, text " ", rfl, spells⟩

/-- A deletion that is rendered and defined goes over the rows of the contract, unless they
count as none or below 0. -/
theorem delete_selects (env : Env Server) (blockAddress contractAddress descInfo : Bytes)
    (fuel : Nat) (world : World Server)
    (rendered : (Accounts.selectBusinessData contractAddress).Rendered)
    (answers : (env.sql world.ticks).fails 0 = false)
    (deletes : ¬ NeverDeletes (rowsOf contractAddress world.db).length)
    (defined : ∀ after, eChainContractAddressDelete env json blockAddress contractAddress descInfo
      fuel world ≠ .ok none after) :
    ∃ items buffers, items ≠ [] ∧ (items.map (·.TransactionHash)).Perm
        ((rowsOf contractAddress world.db).map fun row => cString row.transactionhash) ∧
      eChainContractAddressDelete env json blockAddress contractAddress descInfo fuel world =
        deleteSelected env json contractAddress descInfo fuel (.selected items)
          { world with ticks := world.ticks + 1, buffers } := by
  have run := fun ended db => contractAddressDelete_run env json blockAddress contractAddress
    descInfo fuel world ended db
  have ends := selectForDelete_cases contractAddress (env.sql world.ticks) world.db
  dsimp only at ends
  rw [selectedRows_rendered contractAddress _ _ rendered] at ends
  rcases ends with ⟨failed, _⟩ | ⟨_, zero, _⟩ | ⟨_, negative, _⟩ | ⟨_, _, _, found⟩ |
    ⟨_, _, _, items, found, some_items, perm⟩
  · exact absurd (answers.symm.trans failed) Bool.false_ne_true
  · exact absurd (.inl zero) deletes
  · exact absurd (.inr negative) deletes
  · exact absurd (run _ _ found) (defined _)
  · exact ⟨items, _, some_items, perm, run _ _ found⟩

/-- Where every request succeeds and no row of a deletion is stored, the second one is not
idle. -/
theorem not_deletes_exactly (misread : Bytes → Database → Database) (content : List BusinessRow)
    (contractAddress : Bytes) (rendered : (Accounts.selectBusinessData contractAddress).Rendered)
    (deletes : ¬ NeverDeletes
      (content.filter fun row => row.contractaddress = contractAddress).length) :
    ¬ DeletesExactly json misread content contractAddress := by
  intro exactly
  obtain ⟨metadata, spelled⟩ := Option.ne_none_iff_exists'.mp (strToHex_styled json
    (.obj (businessJson 1 ADDNEW [] (text " ") [] .null 1 [])))
  have known := firstVersions_known json content contractAddress metadata
    (businessJson_spells json spelled)
  generalize reached : firstVersions content contractAddress metadata = started at known
  have table : started.db.business_data = content := by rw [← reached]; rfl
  have start : started.ticks = 0 := by rw [← reached]; rfl
  have filed : started.db.contract_account = keyOnFile contractAddress := by rw [← reached]; rfl
  have rows : rowsOf contractAddress started.db =
      content.filter fun row => row.contractaddress = contractAddress := by rw [rowsOf, table]
  rw [← rows] at deletes
  have first (ledger added : List Entry) (items : List BusinessDataItem)
      (grown : ledger = started.server ++ added)
      (perm : (items.map (·.TransactionHash)).Perm
        ((rowsOf contractAddress started.db).map fun row => cString row.transactionhash)) :
      ∀ item ∈ items, Known json ledger item.TransactionHash := by
    intro item member
    obtain ⟨row, listed, same⟩ := List.mem_map.mp (perm.subset (List.mem_map_of_mem member))
    rw [← same, grown]
    exact known_append json (known row (table ▸ (List.mem_filter.mp listed).1))
  -- every insertion of the first deletion fails, none of the second
  let updates := (rowsOf contractAddress started.db).length
  let env := freshEnv misread updates
  obtain ⟨defined, _⟩ := exactly.2 _ env (freshChain misread updates).honest started []
    (emptyInfo json) 2 table fun _ => rfl
  obtain ⟨items, selected, _, perm, run⟩ := delete_selects json env [] contractAddress (emptyInfo json) 2
    started rendered (by rw [start]; rfl) deletes defined
  have lengths : items.length = updates := by simpa using perm.length_eq
  obtain ⟨added, deleted, looped⟩ := freshLoop_run misread updates json contractAddress items
    { started with ticks := started.ticks + 1, buffers := selected } 0 rendered
    (by dsimp only; omega) (by omega) filed
    (first _ [] items (List.append_nil _).symm perm)
  have idle := further_idle json exactly (freshChain misread updates).honest started [] []
    (emptyInfo json) 2 2 table (fun _ => rfl) _ (run.trans (bind_of_ok looped _))
  -- the same rows are on file, so the second deletion writes again
  generalize left : ({ started with
      server := started.server ++ added
      ticks := 3 * (0 + items.length) + 1
      buffers := deleted } : World (List Entry)) = after at *
  have same_db : after.db = started.db := by rw [← left]
  have ticks : after.ticks = 3 * (0 + items.length) + 1 := by rw [← left]
  have grown : after.server = started.server ++ added := by rw [← left]
  obtain ⟨defined, _⟩ := exactly.2 _ env (freshChain misread updates).honest after []
    (emptyInfo json) 2 (by rw [same_db, table]) fun _ => rfl
  have answers (tick : Nat) (behind : 3 * updates < tick) : (env.sql tick).fails 0 = false :=
    decide_eq_false (by omega)
  obtain ⟨others, selected, some_others, perm, run⟩ := delete_selects json env [] contractAddress
    (emptyInfo json) 2 after rendered (answers _ (by omega)) (by rwa [same_db]) defined
  rw [same_db] at perm
  have ended : last (eChainContractAddressDelete env json [] contractAddress (emptyInfo json) 2)
      after = last (deleteLoop env json contractAddress (emptyInfo json) 2 others)
        { after with ticks := after.ticks + 1, buffers := selected } := by
    unfold last
    rw [run, deleteSelected]
    cases looped : deleteLoop env json contractAddress (emptyInfo json) 2 others
        { after with ticks := after.ticks + 1, buffers := selected } with
    | ok code state => rw [bind_of_ok looped]; rfl
    | error stop state => rw [bind_of_error looped]
  rw [ended] at idle
  exact freshDelete_writes misread updates json contractAddress others
    { after with ticks := after.ticks + 1, buffers := selected } rendered (answers _ (by dsimp only; omega))
    (by rw [← filed, ← same_db]) some_others (first _ added others grown perm) idle

/-- At any server, a deletion is exact and idempotent where its statement fits and the rows
that it returns count as none or below 0, and then it never returns 1. For an address
whose statement is rendered it is so in no other case. -/
theorem deletes_exactly_iff (misread : Bytes → Database → Database) (content : List BusinessRow)
    (contractAddress : Bytes) :
    ((Accounts.selectBusinessData contractAddress).text.length + 1 ≤ 1024 →
      (∀ db : Database, db.business_data = content →
        NeverDeletes (returnedRows misread contractAddress db).length) →
      DeletesExactly json misread content contractAddress) ∧
    ((Accounts.selectBusinessData contractAddress).Rendered →
      (DeletesExactly json misread content contractAddress ↔
        NeverDeletes
          (content.filter fun row => row.contractaddress = contractAddress).length)) := by
  refine ⟨deletes_exactly_of_never json misread content contractAddress, fun rendered => ?_⟩
  constructor
  · intro exactly
    by_contra deletes
    exact not_deletes_exactly json misread content contractAddress rendered deletes exactly
  · intro never
    apply deletes_exactly_of_never json misread content contractAddress rendered.fits
    rintro db rfl
    rw [returnedRows_rendered misread contractAddress db rendered]
    exact never

/-- One row of contract a, whose record is on the ledger. -/
def rowOnFile : World (List Entry) :=
  firstVersions [⟨text "a", 1, 1, text "5f", text "1f", text "2017-06-01 08:00:00"⟩] (text "a")
    ((strToHex (markLib.toStyledString
      (.obj (businessJson 1 ADDNEW [] (text " ") [] .null 1 [])))).getD [])

/-- What a deletion of contract a does where nothing fails. -/
def calmDeletion : Api (List Entry) (Option Int) :=
  eChainContractAddressDelete (freshEnv (fun _ db => db) 0) markLib [] (text "a") (emptyInfo markLib) 2

/-- The transactions on the ledger behind a deletion that returns 1, and behind one more. -/
def deletedTwice (start : World (List Entry)) : Option (Nat × Nat) :=
  match calmDeletion start with
  | .ok (some 1) once => some (once.server.length, (last calmDeletion once).server.length)
  | _ => none

theorem deletedTwice_eq (start : World (List Entry)) (first second : Nat)
    (observed : deletedTwice start = some (first, second)) :
    ∃ once, calmDeletion start = .ok (some 1) once ∧ once.server.length = first ∧
      (last calmDeletion once).server.length = second := by
  unfold deletedTwice at observed
  split at observed
  · rename_i once outcome
    cases observed
    exact ⟨once, outcome, rfl, rfl⟩
  · cases observed

/-- Nothing fails, the first deletion returns 1, and the second one writes twice. -/
theorem deleted_row_deleted_again :
    ¬ DeletesExactly markLib (fun _ db => db) rowOnFile.db.business_data (text "a") := by
  intro exactly
  obtain ⟨once, first, two, four⟩ := deletedTwice_eq rowOnFile 2 4 (by decide +kernel)
  have idle := further_idle markLib exactly (freshChain (fun _ db => db) 0).honest rowOnFile [] []
    (emptyInfo markLib) 2 2 rfl (fun _ => rfl) once first
  have lengths : (last calmDeletion once).server.length = once.server.length :=
    congrArg List.length idle
  rw [two, four] at lengths
  contradiction

end EChainLib.Node
