import Mathlib
import EChainLib.Support.Effects
import EChainLib.Keys.PrivateKey
import EChainLib.Accounts.Database
import EChainLib.Node.Json

/-! The calls of `api_echain_func.cpp` on the node and on the database, their
replies, and the transactions they build. A `goto` is a recursive call that uses
one unit of fuel. -/

namespace EChainLib.Node

open EChainLib.Keys (Bytes CryptoLib PrivateKey text)
open EChainLib.Accounts (Database Sql Buffer)
open EChainLib.Effects

/-- The requests of `http_request`: the GET paths with their argument, and the two
POST paths with the value whose styled text is sent. -/
inductive Request where
  | createAccount
  | getGenesisAccount
  | getAccount (address : Bytes)
  | getTransactionHistory (hash : Bytes)
  | getTransactionBlob (content : Json)
  | submitTransaction (content : Json)

/-- Everything outside this code. A reply is what `reader.parse` makes of the
received context: `none` when it refuses it, as it does the empty context of a
failed connection. The counter tells database calls and clock readings apart. -/
structure Env (Server : Type) where
  lib : CryptoLib
  /-- `encode_b16(key.Sign(blobde))`, with `blobde` the decoded blob. -/
  sign : PrivateKey → Bytes → Bytes
  http : Request → Server → Option Json × Server
  sql : Nat → Sql
  barTime : Nat → Bytes
  /-- What an uninitialised `int32_t` holds. -/
  uninitialised : Nat → Int32

structure NewAccount where
  address : Bytes
  privateKey : Bytes
  publicKey : Bytes
  deriving DecidableEq

/-- What follows an accepted creation: whether the payment to the account goes
through and, where it does, the database call that stores the account, whether it
finds the address on the table, and the statements that it sends. -/
structure Round where
  account : NewAccount
  paid : Bool
  sql : Sql
  taken : Bool
  sent : List Accounts.SqlStatement

structure World (Server : Type) where
  server : Server
  db : Database
  ticks : Nat
  g_genesisAddress : Bytes
  g_genesisNonce : Int32
  /-- The accounts whose creation was accepted during the current call, and what
  followed each of them. No function reads either. -/
  accepted : List NewAccount
  rounds : List Round
  /-- The fixed arrays that database calls have filled. No function reads them. -/
  buffers : List Buffer

abbrev Api (Server : Type) := EStateM Stop (World Server)

variable {Server : Type}

def check {Value : Type} (result : Except Stop Value) : Api Server Value :=
  match result with
  | .ok value => pure value
  | .error stop => throw stop

def tick : Api Server Nat := do
  let world ← get
  set { world with ticks := world.ticks + 1 }
  return world.ticks

variable (env : Env Server)

def httpRequest (request : Request) : Api Server (Option Json) := do
  let world ← get
  let (reply, server) := env.http request world.server
  set { world with server }
  return reply

/-- A database call of `Accounts` and the fixed arrays that it fills. -/
def callDb {Value : Type} (fills : Sql → Database → List Buffer)
    (call : Sql → Database → Value × Database) : Api Server Value := do
  let sql := env.sql (← tick)
  let world ← get
  let (value, db) := call sql world.db
  set { world with db, buffers := world.buffers ++ fills sql world.db }
  return value

/-! Replies. -/

/-- `none` is the return value -1. -/
def parseAccountInfoFromJson : Option Json → Except Stop (Option NewAccount)
  | none => return none
  | some rep => do
      let (present, code) ← rep.errorCode
      if present ∧ code = 0 then
        let address ← if ← rep.hasResult "address" then rep.resultString "address" else pure []
        let privateKey ←
          if ← rep.hasResult "private_key" then rep.resultString "private_key" else pure []
        if ← rep.hasResult "public_key" then
          return some { address, privateKey, publicKey := ← rep.resultString "public_key" }
        else
          return none
      else
        return none

/-- `none` is the return value -1; the nonce is missing where the source returns a
variable it never set. -/
def parseGenesInfoFromJson : Option Json → Except Stop (Option (Bytes × Option Int))
  | none => return none
  | some rep => do
      let (present, code) ← rep.errorCode
      if present ∧ code = 0 then
        if ← rep.hasResult "address" then
          let address ← rep.resultString "address"
          if ← rep.hasResult "nonce" then
            let nonce ← (← (← rep.get "result").get "nonce").asInt
            return some (address, some nonce)
          else
            return some (address, none)
        else
          return none
      else
        return none

def parseNonceNumFromJson : Option Json → Except Stop Int
  | none => return -1
  | some rep => do
      let (present, code) ← rep.errorCode
      if present ∧ code = 0 then
        if ← rep.hasResult "nonce" then
          (← (← rep.get "result").get "nonce").asInt
        else
          return 0
      else if code = 4 then
        return 0
      else
        return -1

/-! The nonces that are read are `int`s, and count up as such. -/

theorem parseGenesInfoFromJson_range {reply : Option Json} {address : Bytes} {nonce : Int}
    (parsed : parseGenesInfoFromJson reply = .ok (some (address, some nonce))) :
    -2 ^ 31 ≤ nonce ∧ nonce < 2 ^ 31 := by
  cases reply with
  | none => cases parsed
  | some rep =>
      obtain ⟨⟨present, code⟩, _, parsed⟩ := found_of_bind parsed
      dsimp only at parsed
      split_ifs at parsed
      · obtain ⟨has, _, parsed⟩ := found_of_bind parsed
        cases has with
        | false => cases parsed
        | true =>
            obtain ⟨found, _, parsed⟩ := found_of_bind parsed
            obtain ⟨has, _, parsed⟩ := found_of_bind parsed
            cases has with
            | false => cases parsed
            | true =>
                obtain ⟨result, _, parsed⟩ := found_of_bind parsed
                obtain ⟨value, _, parsed⟩ := found_of_bind parsed
                obtain ⟨number, read, parsed⟩ := found_of_bind parsed
                cases parsed
                exact Json.asInt_range read
      · cases parsed

theorem next_toInt (nonce : Int32) :
    (nonce + 1).toInt = if nonce.toInt + 1 < 2 ^ 31 then nonce.toInt + 1 else -2 ^ 31 := by
  have low := nonce.le_toInt
  have high := nonce.toInt_lt
  rw [Int32.toInt_add]
  show (nonce.toInt + 1).bmod (2 ^ 32) = _
  split_ifs with small
  · rw [Int.bmod_eq_of_le] <;> omega
  · have last : nonce.toInt = 2 ^ 31 - 1 := by omega
    rw [last]
    decide

theorem next_negative_iff (nonce : Int32) :
    nonce + 1 < 0 ↔ nonce.toInt + 1 < 0 ∨ 2 ^ 31 ≤ nonce.toInt + 1 := by
  rw [Int32.lt_iff_toInt_lt, next_toInt]
  have zero : (0 : Int32).toInt = 0 := rfl
  split_ifs <;> omega

/-! Transactions. -/

def g_destAddress : Bytes := text "ea01c16299cd75dd6d106e17f00ae8b71bf4ab11a3d234"

def g_assetCode : Bytes := text "LKToken"

def getCreateAccountJson (srcPrv : PrivateKey) (destAddr : Bytes) (nonce : Int32) : Json :=
  let thresholds := Json.obj [("tx_threshold", .int 7)]
  let privInfo := Json.obj [("master_weight", .int 10), ("thresholds", thresholds)]
  let metaDatas := Json.obj [("key", .str (text "HELLO")), ("value", .str (text "XChain"))]
  let createAccount := Json.obj
    [("dest_address", .str destAddr), ("metadatas", .arr [metaDatas]), ("priv", privInfo)]
  let operation := Json.obj [("create_account", createAccount), ("type", .int 1)]
  .obj [("source_address", .str (srcPrv.getBase16Address env.lib)), ("nonce", .int nonce.toInt),
    ("operations", .arr [operation])]

def paymentOperation (destAddress issuer code : Bytes) (amount : Int) : Json :=
  let property := Json.obj [("issuer", .str issuer), ("code", .str code)]
  let asset := Json.obj [("amount", .int amount), ("property", property)]
  let payment := Json.obj [("dest_address", .str destAddress), ("asset", asset)]
  .obj [("payment", payment), ("type", .int 3)]

/-- The issuer is the global `g_genesisAddress`. -/
def getPaymentJson (g_genesisAddress srcAddress destAddress : Bytes) (nonce : Int32) (code : Bytes)
    (amount : Int) : Json :=
  .obj [("source_address", .str srcAddress), ("nonce", .int nonce.toInt),
    ("operations", .arr [paymentOperation destAddress g_genesisAddress code amount])]

def getPaymentJsonX (srcAddress destAddress issuerAddress hexInfo : Bytes) (nonce : Int32)
    (code : Bytes) (amount : Int) : Json :=
  .obj [("metadata", .str hexInfo), ("source_address", .str srcAddress),
    ("nonce", .int nonce.toInt),
    ("operations", .arr [paymentOperation destAddress issuerAddress code amount])]

def submintTransaction (prv : PrivateKey) (sign_data transaction_blob : Bytes) : Json :=
  let signature := Json.obj
    [("sign_data", .str sign_data), ("public_key", .str prv.getBase16PublicKey)]
  let item := Json.obj
    [("signatures", .arr [signature]), ("transaction_blob", .str transaction_blob)]
  .obj [("items", .arr [item])]

/-- `echain::PrivateKey(text)`; the members `From` does not reach are uninitialised. -/
def privateKeyOf (base16_private_key : Bytes) : PrivateKey :=
  (PrivateKey.fromBase16 env.lib ⟨[], false, .none, ⟨[], false, .rsa⟩⟩ base16_private_key).2

/-- `getTransactionBlob` and `submitTransaction`: the hash of the transaction and the
code of its submission, or `none` when a reply cannot be parsed. -/
def submitOnce (prv : PrivateKey) (resq_tx : Json) : Api Server (Option (Bytes × Int)) := do
  match ← httpRequest env (.getTransactionBlob resq_tx) with
  | none => return none
  | some rep =>
      let blob ← check (rep.resultString "transaction_blob")
      let txHash ← check (rep.resultString "hash")
      match ← httpRequest env (.submitTransaction (submintTransaction prv (env.sign prv blob) blob))
        with
      | none => return none
      | some rep => return some (txHash, ← check rep.submitCode)

/-! Calls. -/

/-- `EChain_GetGenesisInfo(g_genesisAddress)`. The `int` counts up modulo 2^32. -/
def eChainGetGenesisInfo : Api Server Int32 := do
  match ← check (parseGenesInfoFromJson (← httpRequest env .getGenesisAccount)) with
  | none => return -1
  | some (address, nonce) =>
      let iNonceNum := (nonce.map Int32.ofInt).getD (env.uninitialised (← tick))
      modify fun world => { world with g_genesisAddress := address }
      return iNonceNum + 1

def rereadGenesisNonce : Api Server Int32 := do
  let nonce ← eChainGetGenesisInfo env
  modify fun world => { world with g_genesisNonce := nonce }
  return nonce

def nextGenesisNonce : Api Server Unit :=
  modify fun world => { world with g_genesisNonce := world.g_genesisNonce + 1 }

/-- The private key text of a registered user, `none` when it is not on file. -/
def userKey (blockAddress : Bytes) : Api Server (Option Bytes) :=
  callDb env (Accounts.userKeyBuffers blockAddress) fun sql db =>
    let (code, key, db) := Accounts.getPrivateKeyFromUserRegisterDB blockAddress sql db
    (if code < 0 then none else key, db)

/-- The private key text of the genesis account, `none` when it is not on file. -/
def genesisKey : Api Server (Option Bytes) := do
  let world ← get
  userKey env world.g_genesisAddress

def obtainLoop (srcPrv : PrivateKey) (destAddress assetCode : Bytes) (assetAmount : Int) :
    Nat → Api Server Int
  | 0 => throw .outOfFuel
  | fuel + 1 => do
      let world ← get
      match ← submitOnce env srcPrv (getPaymentJson world.g_genesisAddress world.g_genesisAddress
        destAddress world.g_genesisNonce assetCode assetAmount) with
      | none => return -1
      | some (_, iResult) =>
          if iResult = 0 then
            return 1
          else if iResult = 3 then
            nextGenesisNonce
            obtainLoop srcPrv destAddress assetCode assetAmount fuel
          else
            return -1

def eChainObtainAssetCode (destAddress assetCode : Bytes) (assetAmount : Int) (fuel : Nat) :
    Api Server Int := do
  match ← genesisKey env with
  | none => return -1
  | some srcPrvKey =>
      let _ ← rereadGenesisNonce env
      obtainLoop env (privateKeyOf env srcPrvKey) destAddress assetCode assetAmount fuel

/-! What the calls on the genesis account change. -/

theorem check_within {Value : Type} (change : Change (World Server))
    (result : Except Stop Value) : Within change (check result : Api Server Value) := by
  cases result with
  | ok value => exact within_pure value
  | error stop => exact within_throw stop

theorem check_ok {Value : Type} {result : Except Stop Value} {start state : World Server}
    {value : Value} (checked : (check result : Api Server Value) start = .ok value state) :
    result = .ok value ∧ state = start := by
  cases result with
  | ok found =>
      cases checked
      exact ⟨rfl, rfl⟩
  | error stop => cases checked

theorem check_ends {Value : Type} (result : Except Stop Value) (start : World Server)
    {returned : Value → World Server → Prop} {raised : Stop → World Server → Prop}
    (holds : ∀ value, result = .ok value → returned value start)
    (stops : ∀ stop, raised stop start) : Ends (check result) start returned raised := by
  cases result with
  | ok value => exact holds value rfl
  | error stop => exact stops stop

theorem callDb_eq {Value : Type} (fills : Sql → Database → List Buffer)
    (call : Sql → Database → Value × Database) (world : World Server) :
    callDb env fills call world = .ok (call (env.sql world.ticks) world.db).1
      { world with
        ticks := world.ticks + 1
        db := (call (env.sql world.ticks) world.db).2
        buffers := world.buffers ++ fills (env.sql world.ticks) world.db } := rfl

theorem httpRequest_ok {request : Request} {start state : World Server} {reply : Option Json}
    (received : httpRequest env request start = .ok reply state) :
    env.http request start.server = (reply, state.server) := by
  cases received
  rfl

/-- A submission changes no more than its two requests, the second being made for a
blob that the first has answered with. -/
theorem submitOnce_within {change : Change (World Server)} (prv : PrivateKey) (resq_tx : Json)
    (asked : Within change (httpRequest env (.getTransactionBlob resq_tx)))
    (sent : ∀ server rep blob, (env.http (.getTransactionBlob resq_tx) server).1 = some rep →
      rep.resultString "transaction_blob" = .ok blob →
      Within change
        (httpRequest env (.submitTransaction (submintTransaction prv (env.sign prv blob) blob)))) :
    Within change (submitOnce env prv resq_tx) := by
  refine within_bind_of asked fun start reply state received => ?_
  have answered := congrArg Prod.fst (httpRequest_ok env received)
  cases reply with
  | none => exact within_pure none state
  | some rep =>
      refine within_bind_of (check_within _ _) (fun start blob state checked => ?_) state
      refine within_bind (check_within _ _) (fun txHash => ?_) state
      refine within_bind (sent _ rep blob answered (check_ok checked).1) fun reply => ?_
      cases reply with
      | none => exact within_pure none
      | some rep => exact within_bind (check_within _ _) fun iResult => within_pure _

/-- A kind of change that covers the requests of a payment by the genesis account. -/
structure CoversPayment (change : Change (World Server)) : Prop where
  ticks : Within change (tick : Api Server Nat)
  request : ∀ request, (∀ content, request ≠ .submitTransaction content) →
    Within change (httpRequest env request)
  database : ∀ {Value : Type} {fills : Sql → Database → List Buffer}
    (call : Sql → Database → Value × Database), (∀ sql db, (call sql db).2 = db) →
      Within change (callDb env fills call)
  globals : ∀ (address : World Server → Bytes) (nonce : World Server → Int32),
    Within change (modify fun world => { world with
      g_genesisAddress := address world, g_genesisNonce := nonce world } : Api Server Unit)
  submit : ∀ prv issuer source destination nonce code amount,
    Within change (submitOnce env prv (getPaymentJson issuer source destination nonce code amount))

section Payment

variable {env} {change : Change (World Server)}

theorem genesisInfo_within (covers : CoversPayment env change) :
    Within change (eChainGetGenesisInfo env) := by
  refine within_bind (covers.request .getGenesisAccount fun _ => Request.noConfusion) fun reply =>
    within_bind (check_within _ _) fun parsed => ?_
  cases parsed with
  | none => exact within_pure _
  | some found =>
      exact within_bind covers.ticks fun ticks =>
        within_bind (covers.globals (fun _ => found.1) (·.g_genesisNonce)) fun _ => within_pure _

theorem rereadGenesisNonce_within (covers : CoversPayment env change) :
    Within change (rereadGenesisNonce env) :=
  within_bind (genesisInfo_within covers) fun nonce =>
    within_bind (covers.globals (·.g_genesisAddress) fun _ => nonce) fun _ => within_pure _

theorem nextGenesisNonce_within (covers : CoversPayment env change) :
    Within change (nextGenesisNonce : Api Server Unit) :=
  covers.globals (·.g_genesisAddress) fun world => world.g_genesisNonce + 1

theorem genesisKey_within (covers : CoversPayment env change) : Within change (genesisKey env) :=
  within_bind within_get fun _ => covers.database _ fun sql db =>
    Accounts.getPrivateKey_db _ sql db

theorem obtainLoop_within (covers : CoversPayment env change) (srcPrv : PrivateKey)
    (destAddress assetCode : Bytes) (assetAmount : Int) (fuel : Nat) :
    Within change (obtainLoop env srcPrv destAddress assetCode assetAmount fuel) := by
  induction fuel with
  | zero => exact within_throw _
  | succ fuel ih =>
      refine within_bind within_get fun world => ?_
      refine within_bind (covers.submit _ _ _ _ _ _ _) fun submitted => ?_
      cases submitted with
      | none => exact within_pure _
      | some answer =>
          dsimp only
          split_ifs with accepted repeated
          · exact within_pure _
          · exact within_bind (nextGenesisNonce_within covers) fun _ => ih
          · exact within_pure _

theorem obtainAssetCode_within (covers : CoversPayment env change) (destAddress assetCode : Bytes)
    (assetAmount : Int) (fuel : Nat) :
    Within change (eChainObtainAssetCode env destAddress assetCode assetAmount fuel) := by
  refine within_bind (genesisKey_within covers) fun key => ?_
  cases key with
  | none => exact within_pure _
  | some srcPrvKey =>
      exact within_bind (rereadGenesisNonce_within covers) fun _ =>
        obtainLoop_within covers _ _ _ _ _

end Payment

end EChainLib.Node
