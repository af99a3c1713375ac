import EChainLib.Node.Exchanges

/-! What `ParseAccountInfoFromJson` takes for a new account, and what of it the two
calls that create accounts let the node create and the database store. -/

namespace EChainLib.Node

open EChainLib.Keys (Bytes PrivateKey)
open EChainLib.Accounts (Database Sql)
open EChainLib.Effects

/-- The return value and the three outputs of `ParseAccountInfoFromJson`. -/
def accountInfoParsed (reply : Option Json) (outputs : NewAccount) :
    Except Stop (Int × NewAccount) := do
  match ← parseAccountInfoFromJson reply with
  | none => return (-1, outputs)
  | some account => return (1, account)

/-- JSON with `error_code` 0 and the three fields in its `result`. -/
structure AccountReply (rep : Json) : Prop where
  code : rep.errorCode = .ok (true, 0)
  address : rep.hasResult "address" = .ok true
  private_key : rep.hasResult "private_key" = .ok true
  public_key : rep.hasResult "public_key" = .ok true

/-- The outputs are the fields of an account reply, and are left alone for anything
else. -/
def AllOrNothing (reply : Option Json) : Prop :=
  ∀ outputs,
    (∀ rep, reply = some rep → AccountReply rep → ∃ account : NewAccount,
      rep.resultString "address" = .ok account.address ∧
      rep.resultString "private_key" = .ok account.privateKey ∧
      rep.resultString "public_key" = .ok account.publicKey ∧
      accountInfoParsed reply outputs = .ok (1, account)) ∧
    ((∀ rep, reply = some rep → ¬ AccountReply rep) →
      accountInfoParsed reply outputs = .ok (-1, outputs))

/-- A field of the reply, or the empty text where it is missing. -/
def Json.resultOrEmpty (key : String) (rep : Json) : Except Stop Bytes := do
  if ← rep.hasResult key then rep.resultString key else return []

/-- Every field that is there can be read as a text, and a public key does not come
without the other two. -/
structure Together (rep : Json) : Prop where
  legible : ∀ key ∈ ["address", "private_key", "public_key"],
    ∃ value, rep.resultOrEmpty key = .ok value
  together : rep.hasResult "public_key" = .ok true →
    rep.hasResult "address" = .ok true ∧ rep.hasResult "private_key" = .ok true

/-- What is no JSON, or an object whose `error_code` is missing or a number, its
fields being together if that number is 0. -/
def Sound : Option Json → Prop
  | none => True
  | some rep => ∃ answer, rep.errorCode = .ok answer ∧ (answer = (true, 0) → Together rep)

theorem resultOrEmpty_bind {Value : Type} (key : String) (rep : Json)
    (next : Bytes → Except Stop Value) :
    (rep.resultOrEmpty key >>= next) = (do
      if ← rep.hasResult key then next (← rep.resultString key) else next []) := by
  rw [Json.resultOrEmpty]
  cases rep.hasResult key with
  | error stop => rfl
  | ok present => cases present <;> rfl

theorem accountInfo_reading {rep : Json} (code : rep.errorCode = .ok (true, 0)) :
    parseAccountInfoFromJson (some rep) = (do
      let address ← rep.resultOrEmpty "address"
      let privateKey ← rep.resultOrEmpty "private_key"
      if ← rep.hasResult "public_key" then
        return some { address, privateKey, publicKey := ← rep.resultString "public_key" }
      else return none) := by
  simp only [resultOrEmpty_bind, parseAccountInfoFromJson, code]
  rfl

theorem accountInfo_refused {rep : Json} {answer : Bool × Int} (code : rep.errorCode = .ok answer)
    (refused : answer ≠ (true, 0)) : parseAccountInfoFromJson (some rep) = .ok none := by
  obtain ⟨present, number⟩ := answer
  have other : ¬ (present = true ∧ number = 0) := by
    rintro ⟨rfl, rfl⟩
    exact refused rfl
  rw [parseAccountInfoFromJson, code]
  simp only [bind, Except.bind, other, if_false]
  rfl

theorem resultOrEmpty_present {rep : Json} {key : String} (present : rep.hasResult key = .ok true) :
    rep.resultOrEmpty key = rep.resultString key := by
  rw [Json.resultOrEmpty, present]
  rfl

theorem parsed_none {reply : Option Json} {outputs : NewAccount}
    (kept : accountInfoParsed reply outputs = .ok (-1, outputs)) :
    parseAccountInfoFromJson reply = .ok none := by
  unfold accountInfoParsed at kept
  cases parsed : parseAccountInfoFromJson reply with
  | error stop =>
      rw [parsed] at kept
      cases kept
  | ok account =>
      cases account with
      | none => rfl
      | some account =>
          rw [parsed] at kept
          cases kept

/-- What is read before a reply of code 0 is accepted or refused. -/
theorem fields_read {rep : Json} (code : rep.errorCode = .ok (true, 0))
    {parsed : Option NewAccount} (read : parseAccountInfoFromJson (some rep) = .ok parsed) :
    ∃ address privateKey, rep.resultOrEmpty "address" = .ok address ∧
      rep.resultOrEmpty "private_key" = .ok privateKey ∧
      rep.hasResult "public_key" = .ok parsed.isSome ∧
      ∀ account ∈ parsed, account.address = address ∧ account.privateKey = privateKey := by
  rw [accountInfo_reading code] at read
  -- the fields are read in the order of the source, and only the last of them can refuse without
  -- an exception
  cases address_read : rep.resultOrEmpty "address" with
  | error stop =>
      rw [address_read] at read
      cases read
  | ok address =>
      rw [address_read] at read
      cases private_read : rep.resultOrEmpty "private_key" with
      | error stop =>
          rw [private_read] at read
          cases read
      | ok privateKey =>
          rw [private_read] at read
          refine ⟨address, privateKey, rfl, rfl, ?_⟩
          cases present : rep.hasResult "public_key" with
          | error stop =>
              rw [present] at read
              cases read
          | ok found =>
              rw [present] at read
              cases found with
              | false =>
                  cases read
                  exact ⟨rfl, by simp⟩
              | true =>
                  cases public_read : rep.resultString "public_key" with
                  | error stop =>
                      rw [public_read] at read
                      cases read
                  | ok publicKey =>
                      rw [public_read] at read
                      cases read
                      exact ⟨rfl, by simp⟩

theorem together_of_reply {rep : Json} (reply : AccountReply rep) {account : NewAccount}
    (address : rep.resultString "address" = .ok account.address)
    (private_key : rep.resultString "private_key" = .ok account.privateKey)
    (public_key : rep.resultString "public_key" = .ok account.publicKey) : Together rep := by
  refine ⟨?_, fun _ => ⟨reply.address, reply.private_key⟩⟩
  intro key member
  simp only [List.mem_cons, List.not_mem_nil, or_false] at member
  rcases member with rfl | rfl | rfl
  · exact ⟨_, (resultOrEmpty_present reply.address).trans address⟩
  · exact ⟨_, (resultOrEmpty_present reply.private_key).trans private_key⟩
  · exact ⟨_, (resultOrEmpty_present reply.public_key).trans public_key⟩

theorem together_of_none {rep : Json} (code : rep.errorCode = .ok (true, 0))
    (refused : parseAccountInfoFromJson (some rep) = .ok none) : Together rep := by
  obtain ⟨address, privateKey, address_read, private_read, absent, _⟩ := fields_read code refused
  constructor
  · intro key member
    simp only [List.mem_cons, List.not_mem_nil, or_false] at member
    rcases member with rfl | rfl | rfl
    · exact ⟨address, address_read⟩
    · exact ⟨privateKey, private_read⟩
    · exact ⟨[], by rw [Json.resultOrEmpty, absent]; rfl⟩
  · rw [absent]
    intro present
    cases present

theorem sound_of_allOrNothing {reply : Option Json} (all : AllOrNothing reply) : Sound reply := by
  cases reply with
  | none => trivial
  | some rep =>
      obtain ⟨whole, nothing⟩ := all ⟨[], [], []⟩
      by_cases account : AccountReply rep
      · obtain ⟨found, address, private_key, public_key, _⟩ := whole rep rfl account
        exact ⟨(true, 0), account.code, fun _ =>
          together_of_reply account address private_key public_key⟩
      · have kept := nothing (by
          rintro _ ⟨rfl⟩
          exact account)
        have refused := parsed_none kept
        cases code : rep.errorCode with
        | error stop =>
            rw [parseAccountInfoFromJson, code] at refused
            cases refused
        | ok answer =>
            refine ⟨answer, code, ?_⟩
            rintro rfl
            exact together_of_none code refused

/-- A reply whose fields are together is parsed as it should be. -/
theorem parsed_of_together {rep : Json} (code : rep.errorCode = .ok (true, 0))
    (together : Together rep) :
    (AccountReply rep → ∃ account : NewAccount,
      rep.resultString "address" = .ok account.address ∧
      rep.resultString "private_key" = .ok account.privateKey ∧
      rep.resultString "public_key" = .ok account.publicKey ∧
      parseAccountInfoFromJson (some rep) = .ok (some account)) ∧
    (¬ AccountReply rep → parseAccountInfoFromJson (some rep) = .ok none) := by
  obtain ⟨legible, complete⟩ := together
  obtain ⟨address, address_read⟩ := legible "address" (by simp)
  obtain ⟨privateKey, private_read⟩ := legible "private_key" (by simp)
  obtain ⟨publicKey, public_read⟩ := legible "public_key" (by simp)
  rw [accountInfo_reading code, address_read, private_read]
  constructor
  · intro reply
    rw [resultOrEmpty_present reply.address] at address_read
    rw [resultOrEmpty_present reply.private_key] at private_read
    rw [resultOrEmpty_present reply.public_key] at public_read
    refine ⟨⟨address, privateKey, publicKey⟩, address_read, private_read, public_read, ?_⟩
    rw [reply.public_key, public_read]
    rfl
  · intro other
    cases present : rep.hasResult "public_key" with
    | error stop =>
        rw [Json.resultOrEmpty, present] at public_read
        cases public_read
    | ok found =>
        cases found with
        | false => rfl
        | true =>
            obtain ⟨has_address, has_private⟩ := complete present
            exact absurd ⟨code, has_address, has_private, present⟩ other

theorem allOrNothing_of_sound {reply : Option Json} (sound : Sound reply) : AllOrNothing reply := by
  intro outputs
  cases reply with
  | none => exact ⟨fun rep same => (Option.some_ne_none rep same.symm).elim, fun _ => rfl⟩
  | some rep =>
      obtain ⟨answer, code, together⟩ := sound
      by_cases accepted : answer = (true, 0)
      · subst accepted
        obtain ⟨whole, nothing⟩ := parsed_of_together code (together rfl)
        constructor
        · rintro _ ⟨rfl⟩ account
          obtain ⟨found, address, private_key, public_key, parsed⟩ := whole account
          exact ⟨found, address, private_key, public_key, by rw [accountInfoParsed, parsed]; rfl⟩
        · intro other
          rw [accountInfoParsed, nothing (other rep rfl)]
          rfl
      · constructor
        · rintro _ ⟨rfl⟩ account
          rw [account.code] at code
          exact absurd (Except.ok.inj code).symm accepted
        · intro _
          rw [accountInfoParsed, accountInfo_refused code accepted]
          rfl

/-! What is created and stored. -/

structure NewAccount.Filled (account : NewAccount) : Prop where
  address : account.address ≠ []
  privateKey : account.privateKey ≠ []

/-- A reply with a public key has an address and a private key, and neither is the empty
text. -/
def NamesAccount : Exchange → Prop
  | ⟨.createAccount, some rep⟩ =>
      rep.errorCode = .ok (true, 0) → rep.hasResult "public_key" = .ok true →
        rep.resultOrEmpty "address" ≠ .ok [] ∧ rep.resultOrEmpty "private_key" ≠ .ok []
  | _ => True

instance : DecidablePred NamesAccount
  | ⟨.createAccount, some rep⟩ => inferInstanceAs (Decidable
      (rep.errorCode = .ok (true, 0) → rep.hasResult "public_key" = .ok true →
        rep.resultOrEmpty "address" ≠ .ok [] ∧ rep.resultOrEmpty "private_key" ≠ .ok []))
  | ⟨.createAccount, none⟩ => .isTrue trivial
  | ⟨.getGenesisAccount, _⟩ => .isTrue trivial
  | ⟨.getAccount _, _⟩ => .isTrue trivial
  | ⟨.getTransactionHistory _, _⟩ => .isTrue trivial
  | ⟨.getTransactionBlob _, _⟩ => .isTrue trivial
  | ⟨.submitTransaction _, _⟩ => .isTrue trivial

theorem filled_of_named {reply : Option Json} (named : NamesAccount ⟨.createAccount, reply⟩)
    {account : NewAccount} (parsed : parseAccountInfoFromJson reply = .ok (some account)) :
    account.Filled := by
  cases reply with
  | none => cases parsed
  | some rep =>
      cases code : rep.errorCode with
      | error stop =>
          rw [parseAccountInfoFromJson, code] at parsed
          cases parsed
      | ok answer =>
          by_cases accepted : answer = (true, 0)
          · subst accepted
            obtain ⟨address, privateKey, address_read, private_read, present, same⟩ :=
              fields_read code parsed
            obtain ⟨has_address, has_private⟩ := named code present
            obtain ⟨same_address, same_private⟩ := same account rfl
            constructor
            · rintro empty
              rw [← same_address, empty] at address_read
              exact has_address address_read
            · rintro empty
              rw [← same_private, empty] at private_read
              exact has_private private_read
          · rw [accountInfo_refused code accepted] at parsed
            cases parsed

variable {Server : Type}

/-- No account lacks an address or a private key: none of those that the node has
accepted during the call, and none on file. -/
structure AllFilled (world : World Server) : Prop where
  accepted : ∀ account ∈ world.accepted, account.Filled
  account_info : ∀ account ∈ accountInfo world.db, account.Filled
  preaccount_info : ∀ account ∈ preAccountInfo world.db, account.Filled

/-- Every reply on record that promises an account names one, and every insertion of the
call is rendered as it is meant. -/
structure Regular (world : World (Recorded Server)) : Prop where
  named : ∀ exchange ∈ world.exchanges, NamesAccount exchange
  rendered : ∀ round ∈ world.rounds, Accounts.AllRendered round.sent

theorem regular_earlier {start last : World (Recorded Server)}
    (exchanges : start.exchanges <+: last.exchanges) (rounds : start.rounds <+: last.rounds)
    (regular : Regular last) : Regular start where
  named exchange member := regular.named exchange (exchanges.subset member)
  rendered round member := regular.rendered round (rounds.subset member)

/-- Nothing but filled accounts is created or stored, as long as the accounts at hand
are filled and what happens is regular. -/
def fillsFrom (given : List NewAccount) : Change (World (Recorded Server)) where
  rel start last := start.exchanges <+: last.exchanges ∧ start.rounds <+: last.rounds ∧
    (Regular last → (∀ account ∈ given, account.Filled) → AllFilled start → AllFilled last)
  refl start := ⟨List.prefix_refl _, List.prefix_refl _, fun _ _ filled => filled⟩
  trans first second third := by
    rintro ⟨exchanges, rounds, kept⟩ ⟨exchanges_on, rounds_on, kept_on⟩
    refine ⟨exchanges.trans exchanges_on, rounds.trans rounds_on, fun regular given filled => ?_⟩
    have before := regular_earlier exchanges_on rounds_on regular
    exact kept_on regular given (kept before given filled)

theorem fills_same {given : List NewAccount} {start last : World (Recorded Server)}
    (grown : start.exchanges <+: last.exchanges) (rounds : start.rounds <+: last.rounds)
    (accepted : last.accepted = start.accepted) (db : last.db = start.db) :
    (fillsFrom given).rel start last := by
  refine ⟨grown, rounds, fun _ _ filled => ⟨?_, ?_, ?_⟩⟩
  · rw [accepted]
    exact filled.accepted
  · rw [db]
    exact filled.account_info
  · rw [db]
    exact filled.preaccount_info

section Steps

variable (env : Env Server) (given : List NewAccount)

theorem httpRequest_fills (request : Request) :
    Within (fillsFrom given) (httpRequest env.recording request) :=
  fun _ => fills_same (List.prefix_append _ _) (List.prefix_refl _) rfl rfl

theorem fills_covers : CoversPayment env.recording (fillsFrom given) where
  ticks := fun _ => fills_same (List.prefix_refl _) (List.prefix_refl _) rfl rfl
  request := fun request _ => httpRequest_fills env given request
  database := fun _ kept world =>
    fills_same (List.prefix_refl _) (List.prefix_refl _) rfl (kept _ world.db)
  globals := fun _ _ _ => fills_same (List.prefix_refl _) (List.prefix_refl _) rfl rfl
  submit := fun prv _ _ _ _ _ _ =>
    submitOnce_within env.recording prv _ (httpRequest_fills env given _)
      fun _ _ _ _ _ => httpRequest_fills env given _

theorem submitOnce_fills (prv : PrivateKey) (resq_tx : Json) :
    Within (fillsFrom given) (submitOnce env.recording prv resq_tx) :=
  submitOnce_within env.recording prv resq_tx (httpRequest_fills env given _)
    fun _ _ _ _ _ => httpRequest_fills env given _

theorem recordAccepted_fills (account : NewAccount) :
    Within (fillsFrom [account]) (recordAccepted account : Api (Recorded Server) Unit) := by
  intro start
  refine ⟨List.prefix_refl _, List.prefix_refl _, fun _ given filled =>
    ⟨?_, filled.account_info, filled.preaccount_info⟩⟩
  intro other member
  rcases List.mem_append.mp member with earlier | added
  · exact filled.accepted other earlier
  · exact given other added

theorem createLoop_fills (rereads : Bool) (genesPrv : PrivateKey) (account : NewAccount)
    (fuel : Nat) :
    Within (fillsFrom [account]) (createLoop env.recording rereads genesPrv account fuel) := by
  induction fuel with
  | zero => exact within_throw _
  | succ fuel ih =>
      have covers := fills_covers env [account]
      apply within_bind within_get
      intro world
      apply within_bind (submitOnce_fills env [account] _ _)
      intro submitted
      cases submitted with
      | none => exact within_pure _
      | some answer =>
          dsimp only
          split_ifs with accepted repeated behind
          · exact within_bind (recordAccepted_fills account) fun _ => within_pure _
          · exact within_bind (nextGenesisNonce_within covers) fun _ => ih
          · apply within_bind (rereadGenesisNonce_within covers)
            intro nonce
            split_ifs
            · exact within_pure _
            · exact ih
          · exact within_pure _

theorem storeAccount_fills (account : NewAccount)
    (look : Sql → Database → Bool × List Accounts.SqlStatement)
    (insert : Sql → Database → Int × Database)
    (grows : ∀ sql db, Accounts.AllRendered (look sql db).2 →
      (∀ other ∈ accountInfo (insert sql db).2, other ∈ accountInfo db ∨ other = account) ∧
      ∀ other ∈ preAccountInfo (insert sql db).2, other ∈ preAccountInfo db ∨ other = account) :
    Within (fillsFrom [account]) (storeAccount env.recording account look insert) := by
  intro start
  refine ⟨List.prefix_refl _, List.prefix_append _ _, fun regular given filled => ?_⟩
  have rendered : Accounts.AllRendered (look (env.recording.sql start.ticks) start.db).2 :=
    regular.rendered _ (List.mem_append_right _ (List.mem_singleton_self _))
  have stored := grows _ _ rendered
  refine ⟨filled.accepted, ?_, ?_⟩
  · intro other member
    rcases stored.1 other member with earlier | rfl
    · exact filled.account_info other earlier
    · exact given other (List.mem_singleton_self _)
  · intro other member
    rcases stored.2 other member with earlier | rfl
    · exact filled.preaccount_info other earlier
    · exact given other (List.mem_singleton_self _)

theorem finishCreateAccount_fills (account : NewAccount) (txHash : Bytes) :
    Within (fillsFrom [account]) (finishCreateAccount env.recording account txHash) := by
  apply within_bind
  · apply storeAccount_fills
    intro sql db rendered
    constructor
    · intro other member
      rw [insertAccountInfo_grows account sql db rendered, List.mem_append] at member
      rcases member with earlier | added
      · exact .inl earlier
      · split_ifs at added
        · exact .inr (List.mem_singleton.mp added)
        · cases added
    · intro other member
      rw [Accounts.insertAccountInfo2DB_eq] at member
      split_ifs at member <;> exact .inl member
  · intro iRet
    split_ifs <;> exact within_pure _

theorem finishCreateAccountX_fills (fuel : Nat) (account : NewAccount) (txHash : Bytes) :
    Within (fillsFrom [account]) (finishCreateAccountX env.recording fuel account txHash) := by
  apply within_bind (obtainAssetCode_within (fills_covers env [account]) _ _ _ _)
  intro paid
  split_ifs
  · apply within_bind
    · exact fun _ => fills_same (List.prefix_refl _) (List.prefix_append _ _) rfl rfl
    · exact fun _ => within_pure _
  · apply within_bind
    · apply storeAccount_fills
      intro sql db rendered
      constructor
      · intro other member
        rw [Accounts.insertPreAccountInfo2DB_eq] at member
        split_ifs at member <;> exact .inl member
      · intro other member
        rw [insertPreAccountInfo_grows account txHash sql db rendered, List.mem_append] at member
        rcases member with earlier | added
        · exact .inl earlier
        · split_ifs at added
          · exact .inr (List.mem_singleton.mp added)
          · cases added
    · intro iRet
      split_ifs <;> exact within_pure _

/-- The account at hand comes from a reply on record. -/
theorem fills_of_reply {account : NewAccount} {reply : Option Json}
    {start last : World (Recorded Server)} (asked : ⟨.createAccount, reply⟩ ∈ start.exchanges)
    (parsed : parseAccountInfoFromJson reply = .ok (some account))
    (small : (fillsFrom [account]).rel start last) : (fillsFrom []).rel start last := by
  obtain ⟨grown, rounds, kept⟩ := small
  refine ⟨grown, rounds, fun regular _ filled => kept regular ?_ filled⟩
  intro other member
  rw [List.mem_singleton.mp member]
  exact filled_of_named (regular.named _ (grown.subset asked)) parsed

theorem fills_weaken (given : List NewAccount) {start last : World (Recorded Server)}
    (small : (fillsFrom []).rel start last) : (fillsFrom given).rel start last :=
  ⟨small.1, small.2.1, fun regular _ filled => small.2.2 regular (by simp) filled⟩

-- Induction on the fuel: every round has an account of its own, from a reply of its own.
theorem accountRounds_fills (rereads : Bool)
    (finish : NewAccount → Bytes → Api (Recorded Server) RoundEnd)
    (small : ∀ account txHash, Within (fillsFrom [account]) (finish account txHash)) (fuel : Nat) :
    Within (fillsFrom []) (accountRounds env.recording rereads finish fuel) := by
  induction fuel with
  | zero => exact within_throw _
  | succ fuel ih =>
      apply within_bind_of (httpRequest_fills env [] _)
      intro start reply state received
      have asked : ⟨.createAccount, reply⟩ ∈ state.exchanges := by
        cases received
        exact List.mem_append_right _ (List.mem_singleton_self _)
      cases read : parseAccountInfoFromJson reply with
      | error stop => exact (fillsFrom []).refl state
      | ok parsed =>
          cases parsed with
          | none => exact (fillsFrom []).refl state
          | some account =>
              -- what follows is about this account, whose texts come from the reply just asked for
              refine fills_of_reply asked read ?_
              have covers := fills_covers env [account]
              have checked : (check (.ok (some account)) : Api (Recorded Server) _) state =
                .ok (some account) state := rfl
              rw [last_bind_of_ok checked]
              refine within_bind (genesisKey_within covers) (fun key => ?_) state
              cases key with
              | none => exact within_pure _
              | some genesPrvKey =>
                  apply within_bind (rereadGenesisNonce_within covers)
                  intro nonce
                  apply within_bind (createLoop_fills env _ _ account _)
                  intro created
                  cases created with
                  | none => exact within_pure _
                  | some txHash =>
                      apply within_bind (small account txHash)
                      intro roundEnd
                      cases roundEnd with
                      | returned code newAddress => exact within_pure _
                      | again => exact fun start => fills_weaken [account] (ih start)

end Steps

/-- The two calls that create accounts. -/
inductive CreateCall where
  | eChainCreateAccount (fuel : Nat)
  | eChainCreateAccountX (fuel : Nat)

/-- The world that a call leaves behind, whether it returns or raises. -/
def CreateCall.after (env : Env Server) (world : World (Recorded Server)) :
    CreateCall → World (Recorded Server)
  | .eChainCreateAccount fuel => last (Node.eChainCreateAccount env.recording fuel) world
  | .eChainCreateAccountX fuel => last (Node.eChainCreateAccountX env.recording fuel) world

/-- The call starts by forgetting the accounts and the rounds of the one before. -/
theorem createCall_fills (env : Env Server) (call : CreateCall)
    (world : World (Recorded Server)) :
    (fillsFrom []).rel { world with accepted := [], rounds := [] } (call.after env world) := by
  cases call with
  | eChainCreateAccount fuel =>
      exact accountRounds_fills env _ _ (finishCreateAccount_fills env) fuel _
  | eChainCreateAccountX fuel =>
      have rounds := accountRounds_fills env true _ (finishCreateAccountX_fills env fuel) fuel
      exact within_bind rounds (fun _ => within_pure _) _

theorem createCall_fills_regular (env : Env Server) (call : CreateCall)
    (world : World (Recorded Server)) (regular : Regular (call.after env world))
    (filled : AllFilled world) : AllFilled (call.after env world) := by
  obtain ⟨_, _, kept⟩ := createCall_fills env call world
  apply kept regular (by simp)
  exact ⟨by simp, filled.account_info, filled.preaccount_info⟩

def CreateCall.run (env : Env Server) (calls : List CreateCall) (world : World Server) :
    World (Recorded Server) :=
  calls.foldl (fun world call => call.after env world) world.recorded

/-- Every call of the run is regular, and writes behind none of its fixed arrays. -/
def CreateCall.RegularRun (env : Env Server) : List CreateCall → World (Recorded Server) → Prop
  | [], _ => True
  | call :: rest, world =>
      (Regular (call.after env world) ∧ Accounts.AllHold (call.after env world).buffers) ∧
        RegularRun env rest (call.after env world)

theorem createCalls_fill (env : Env Server) (calls : List CreateCall)
    (world : World (Recorded Server)) (regular : CreateCall.RegularRun env calls world)
    (filled : AllFilled world) :
    AllFilled (calls.foldl (fun world call => call.after env world) world) := by
  induction calls generalizing world with
  | nil => exact filled
  | cons call rest ih =>
      obtain ⟨⟨first, _⟩, others⟩ := regular
      exact ih _ others (createCall_fills_regular env call world first filled)

/-- A reply is parsed all or nothing exactly where it is sound; and calls whose replies
all name their accounts, whose insertions are rendered as they are meant and whose texts fit
in their arrays, create and store none without an address or a private key. -/
theorem account_parsing_iff (reply : Option Json) {Server : Type} (env : Env Server) :
    (AllOrNothing reply ↔ Sound reply) ∧
    ∀ (world : World Server) (calls : List CreateCall), AllFilled world →
      CreateCall.RegularRun env calls world.recorded →
      AllFilled (CreateCall.run env calls world) := by
  constructor
  · exact ⟨sound_of_allOrNothing, allOrNothing_of_sound⟩
  · intro world calls filled regular
    apply createCalls_fill env calls world.recorded regular
    exact ⟨filled.accepted, filled.account_info, filled.preaccount_info⟩

/-- A reply with a public key alone. -/
def bareReply : Json := okReply [("public_key", .str [0x6b])]

/-- The creation that it leads to is accepted. -/
def bareCreation : List (Option Json) :=
  [some bareReply, some genesisReply, some blobReply, some (submitReply 0)]

theorem bare_reply_accepted :
    ¬ AllOrNothing (some bareReply) ∧
      (CreateCall.run scripted [.eChainCreateAccount 9]
        { genesisOnFile with server := bareCreation }).accepted = [⟨[], [], [0x6b]⟩] := by
  constructor
  · intro all
    have kept := (all ⟨[], [], []⟩).2 (by
      rintro _ ⟨rfl⟩ ⟨_, address, _, _⟩
      exact absurd address (by decide))
    exact absurd kept (by decide)
  · decide +kernel

end EChainLib.Node
