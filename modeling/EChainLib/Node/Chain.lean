import EChainLib.Node.BusinessData

/-! A chain that keeps the metadata it is given, and what the storing and updating
calls put on its ledger. -/

namespace EChainLib.Node

open EChainLib.Keys (Bytes PrivateKey text)
open EChainLib.Accounts (Database Sql Buffer)
open EChainLib.Effects

structure Entry where
  hash : Bytes
  metadata : Option Bytes

/-- The metadata a transaction request asks for. -/
def metadataOf : Json → Option Bytes
  | .obj members =>
      match members.lookup "metadata" with
      | some (.str metadata) => some metadata
      | _ => none
  | _ => none

/-- The reply lists transactions, the first metadata among them being this. -/
def Lists (rep : Json) (metadata : Option Bytes) : Prop :=
  rep.errorCode = .ok (true, 0) ∧ rep.hasResult "transactions" = .ok true ∧
    reportedMetadata rep = .ok metadata

/-- The reply to `getTransactionHistory` for a transaction that is on the ledger,
or for one that is not. -/
def Reports (reply : Option Json) : Option Entry → Prop
  | some entry => ∃ rep, reply = some rep ∧ Lists rep entry.metadata
  | none => ∀ rep, reply = some rep → Lists rep none ∨
      ∃ present code, rep.errorCode = .ok (present, code) ∧ ¬ (present = true ∧ code = 0)

/-- What a node keeps of the transactions given to it. A blob spells the transaction
it was made for; submitting it appends that transaction under a hash that is not
in use, or does nothing, whether or not the reply arrives. -/
structure Chain {Server : Type} (env : Env Server) where
  ledger : Server → List Entry
  spells : Bytes → Entry → Prop
  quiet : ∀ request server, (∀ content, request ≠ .submitTransaction content) →
    ledger (env.http request server).2 = ledger server
  blob : ∀ content server rep blob,
    (env.http (.getTransactionBlob content) server).1 = some rep →
    rep.resultString "transaction_blob" = .ok blob →
    ∀ entry, spells blob entry →
      entry.metadata = metadataOf content ∧
        ∀ hash, rep.resultString "hash" = .ok hash → entry.hash = hash
  submit : ∀ prv sign_data blob server,
    let (reply, next) :=
      env.http (.submitTransaction (submintTransaction prv sign_data blob)) server
    (ledger next = ledger server ∧ ∀ rep, reply = some rep → rep.submitCode ≠ .ok 0) ∨
    ∃ entry, spells blob entry ∧ entry.hash ∉ (ledger server).map (·.hash) ∧
      ledger next = ledger server ++ [entry]

/-- A chain that returns stored metadata unchanged. -/
structure FaithfulChain {Server : Type} (env : Env Server) extends Chain env where
  history : ∀ hash server, Reports (env.http (.getTransactionHistory hash) server).1
    ((ledger server).find? fun entry => entry.hash = hash)

variable {Server : Type} {env : Env Server} (json : JsonLib) (chain : Chain env)

/-! What a call appends to the ledger. -/

/-- The ledger only grows, by entries with this property, and by no hash twice. -/
def adds (property : Entry → Prop) : Change (World Server) where
  rel start last := ∃ added, chain.ledger last.server = chain.ledger start.server ++ added ∧
    (∀ entry ∈ added, property entry) ∧
    (((chain.ledger start.server).map (·.hash)).Nodup →
      ((chain.ledger last.server).map (·.hash)).Nodup)
  refl _ := ⟨[], by simp, by simp, id⟩
  trans := by
    rintro first second third ⟨added, grown, good, distinct⟩ ⟨more, grown', good', distinct'⟩
    refine ⟨added ++ more, by rw [grown', grown, List.append_assoc], ?_, distinct' ∘ distinct⟩
    intro entry member
    rcases List.mem_append.mp member with old | new
    · exact good entry old
    · exact good' entry new

section Adds

variable {chain} {property : Entry → Prop}

theorem adds_same (start last : World Server)
    (same : chain.ledger last.server = chain.ledger start.server) :
    (adds chain property).rel start last :=
  ⟨[], by simp [same], by simp, fun distinct => by rwa [same]⟩

theorem callDb_adds {Value : Type} {fills : Sql → Database → List Buffer}
    (call : Sql → Database → Value × Database) :
    Within (adds chain property) (callDb env fills call) :=
  fun start => adds_same start _ rfl

theorem httpRequest_adds (request : Request)
    (quiet : ∀ content, request ≠ .submitTransaction content) :
    Within (adds chain property) (httpRequest env request) :=
  fun start => adds_same start _ (chain.quiet request start.server quiet)

theorem submit_adds (prv : PrivateKey) (sign_data blob : Bytes)
    (good : ∀ entry, chain.spells blob entry → property entry) :
    Within (adds chain property)
      (httpRequest env (.submitTransaction (submintTransaction prv sign_data blob))) := by
  intro start
  rcases chain.submit prv sign_data blob start.server with ⟨same, _⟩ | ⟨entry, spelled, fresh, grown⟩
  · exact adds_same start _ same
  · -- the chain gives a new transaction a hash that is not in use
    refine ⟨[entry], grown, by simpa using good entry spelled, fun distinct => ?_⟩
    show ((chain.ledger _).map _).Nodup
    rw [show chain.ledger (last (httpRequest env (.submitTransaction
      (submintTransaction prv sign_data blob))) start).server = _ from grown, List.map_append]
    exact List.nodup_append_comm.mp (List.nodup_cons.mpr ⟨fresh, distinct⟩)

theorem submitOnce_adds (prv : PrivateKey) (resq_tx : Json)
    (good : ∀ entry : Entry, entry.metadata = metadataOf resq_tx → property entry) :
    Within (adds chain property) (submitOnce env prv resq_tx) := by
  refine submitOnce_within env prv resq_tx (httpRequest_adds _ fun _ => Request.noConfusion) ?_
  intro server rep blob answered found
  apply submit_adds prv _ blob
  intro entry spelled
  exact good entry (chain.blob resq_tx server rep blob answered found entry spelled).1

/-- The payments of `EChain_ObtainAssetCode` carry no metadata. -/
theorem adds_covers (bare : ∀ entry : Entry, entry.metadata = none → property entry) :
    CoversPayment env (adds chain property) where
  ticks := fun start => adds_same start _ rfl
  request := httpRequest_adds
  database := fun call _ => callDb_adds call
  globals := fun _ _ start => adds_same start _ rfl
  submit := fun _ _ _ _ _ _ _ => submitOnce_adds _ _ bare

theorem submitLoop_adds (blockPrv : PrivateKey) (contractAddress hexInfo : Bytes)
    (good : ∀ entry : Entry, entry.metadata = some hexInfo → property entry) (fuel : Nat)
    (iNonceNum : Int32) :
    Within (adds chain property) (submitLoop env blockPrv contractAddress hexInfo fuel iNonceNum) := by
  induction fuel generalizing iNonceNum with
  | zero => exact within_throw _
  | succ fuel ih =>
      refine within_bind (submitOnce_adds _ _ good) fun submitted => ?_
      cases submitted with
      | none => exact within_pure _
      | some answer =>
          dsimp only
          split_ifs with accepted repeated
          · exact within_pure _
          · exact ih _
          all_goals exact within_pure _

theorem businessRounds_adds (blockPrv : PrivateKey) (contractAddress : Bytes)
    (document : Api Server (Option (List (String × Json))))
    (fills : Bytes → Sql → Database → List Buffer)
    (insert : Bytes → Sql → Database → Int × Database)
    (bare : ∀ entry : Entry, entry.metadata = none → property entry)
    (quiet : Within (adds chain property) document)
    (good : ∀ start blockJson state, document start = .ok (some blockJson) state →
      ∀ entry : Entry, entry.metadata = strToHex (json.toStyledString (.obj blockJson)) →
        property entry) (fuel : Nat) :
    Within (adds chain property)
      (businessRounds env json blockPrv contractAddress document fills insert fuel) := by
  induction fuel with
  | zero => exact within_throw _
  | succ fuel ih =>
      refine within_bind (httpRequest_adds _ fun _ => Request.noConfusion) fun reply =>
        within_bind (check_within _ _) fun iNonceNum => ?_
      dsimp only
      split_ifs
      · exact within_pure _
      · apply within_bind_of quiet
        intro start made state outcome
        cases made with
        | none => exact within_pure _ state
        | some blockJson =>
            -- styled text is never short enough for the placeholder document
            have long : ¬ (json.toStyledString (.obj blockJson)).length ≤ 1 := by
              have enough := json.styled_length (.obj blockJson)
              omega
            simp only [long, if_false]
            cases spelled : strToHex (json.toStyledString (.obj blockJson)) with
            | none => exact within_pure _ state
            | some hexInfo =>
                have stored : ∀ entry : Entry, entry.metadata = some hexInfo → property entry :=
                  fun entry same => good start blockJson state outcome entry (by rw [same, spelled])
                refine within_bind (submitLoop_adds _ _ _ stored fuel _)
                  (fun submitEnd => ?_) state
                cases submitEnd with
                | accepted strTxHash =>
                    exact within_bind (callDb_adds _) fun _ => within_pure _
                | restart => exact ih
                | obtain =>
                    refine within_bind (obtainAssetCode_within (adds_covers bare) _ _ _ _)
                      fun paid => ?_
                    split_ifs
                    · exact within_pure _
                    · exact ih
                | failed code => exact within_pure _

/-! What a call answers with. -/

abbrev grows (chain : Chain env) : Change (World Server) := adds chain fun _ => True

/-- The hash was not in use, and now it is that of a transaction with metadata. -/
def Puts (chain : Chain env) (start last : World Server) (hash : Bytes) : Prop :=
  hash ∉ (chain.ledger start.server).map (·.hash) ∧
    ∃ entry ∈ chain.ledger last.server, entry.hash = hash ∧ entry.metadata.isSome

def SubmitEnd.hash : SubmitEnd → Option Bytes
  | .accepted txHash => some txHash
  | _ => none

end Adds

end EChainLib.Node
