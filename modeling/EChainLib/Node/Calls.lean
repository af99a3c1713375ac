import EChainLib.Node.CreateAccount
import EChainLib.Node.Records
import EChainLib.Node.Submitters

/-! What the calls change, for every kind of change that covers their requests: each
call stays within it if its own insertion does. -/

namespace EChainLib.Node

open EChainLib.Keys (Bytes PrivateKey)
open EChainLib.Accounts (Database Sql Buffer)
open EChainLib.Effects

variable {Server : Type} {env : Env Server} {change : Change (World Server)}

/-- A kind of change that covers everything but the insertions into the tables. -/
structure CoversCalls (env : Env Server) (change : Change (World Server)) : Prop where
  ticks : Within change (tick : Api Server Nat)
  request : ∀ request, Within change (httpRequest env request)
  genesis : Within change (eChainGetGenesisInfo env)
  nonce : ∀ nonce : World Server → Int32,
    Within change (modify fun world => { world with g_genesisNonce := nonce world } : Api Server Unit)
  reads : ∀ {Value : Type} {fills : Sql → Database → List Buffer}
    (call : Sql → Database → Value × Database), (∀ sql db, (call sql db).2 = db) →
      Within change (callDb env fills call)
  record : ∀ (accepted : World Server → List NewAccount) (rounds : World Server → List Round),
    Within change (modify fun world => { world with
      accepted := accepted world, rounds := rounds world } : Api Server Unit)

/-! Payments by the genesis account. -/

theorem submitOnce_covered (covers : CoversCalls env change) (prv : PrivateKey) (resq_tx : Json) :
    Within change (submitOnce env prv resq_tx) :=
  submitOnce_within env prv resq_tx (covers.request _) fun _ _ _ _ _ => covers.request _

theorem rereadGenesisNonce_covered (covers : CoversCalls env change) :
    Within change (rereadGenesisNonce env) :=
  within_bind covers.genesis fun nonce =>
    within_bind (covers.nonce fun _ => nonce) fun _ => within_pure _

theorem genesisKey_covered (covers : CoversCalls env change) : Within change (genesisKey env) :=
  within_bind within_get fun _ => covers.reads _ fun sql db =>
    Accounts.getPrivateKey_db _ sql db

theorem obtainLoop_covered (covers : CoversCalls env change) (srcPrv : PrivateKey)
    (destAddress assetCode : Bytes) (assetAmount : Int) (fuel : Nat) :
    Within change (obtainLoop env srcPrv destAddress assetCode assetAmount fuel) := by
  induction fuel with
  | zero => exact within_throw _
  | succ fuel ih =>
      apply within_bind within_get
      intro world
      apply within_bind (submitOnce_covered covers _ _)
      intro submitted
      cases submitted with
      | none => exact within_pure _
      | some answer =>
          dsimp only
          split_ifs
          · exact within_pure _
          · exact within_bind (covers.nonce fun world => world.g_genesisNonce + 1) fun _ => ih
          · exact within_pure _

theorem obtainAssetCode_covered (covers : CoversCalls env change) (destAddress assetCode : Bytes)
    (assetAmount : Int) (fuel : Nat) :
    Within change (eChainObtainAssetCode env destAddress assetCode assetAmount fuel) := by
  apply within_bind (genesisKey_covered covers)
  intro key
  cases key with
  | none => exact within_pure _
  | some srcPrvKey =>
      exact within_bind (rereadGenesisNonce_covered covers) fun _ =>
        obtainLoop_covered covers _ _ _ _ _

/-! Accounts. -/

theorem createLoop_covered (covers : CoversCalls env change) (rereads : Bool)
    (genesPrv : PrivateKey) (account : NewAccount) (fuel : Nat) :
    Within change (createLoop env rereads genesPrv account fuel) := by
  induction fuel with
  | zero => exact within_throw _
  | succ fuel ih =>
      apply within_bind within_get
      intro world
      apply within_bind (submitOnce_covered covers _ _)
      intro submitted
      cases submitted with
      | none => exact within_pure _
      | some answer =>
          dsimp only
          split_ifs with accepted repeated behind
          · exact within_bind (covers.record (fun world => world.accepted ++ [account]) (·.rounds))
              fun _ => within_pure _
          · exact within_bind (covers.nonce fun world => world.g_genesisNonce + 1) fun _ => ih
          · apply within_bind (rereadGenesisNonce_covered covers)
            intro nonce
            split_ifs
            · exact within_pure _
            · exact ih
          · exact within_pure _

theorem accountRounds_covered (covers : CoversCalls env change) (rereads : Bool)
    (finish : NewAccount → Bytes → Api Server RoundEnd)
    (small : ∀ account txHash, Within change (finish account txHash)) (fuel : Nat) :
    Within change (accountRounds env rereads finish fuel) := by
  induction fuel with
  | zero => exact within_throw _
  | succ fuel ih =>
      apply within_bind (covers.request _)
      intro reply
      apply within_bind (check_within _ _)
      intro parsed
      cases parsed with
      | none => exact within_pure _
      | some account =>
          apply within_bind (genesisKey_covered covers)
          intro key
          cases key with
          | none => exact within_pure _
          | some genesPrvKey =>
              apply within_bind (rereadGenesisNonce_covered covers)
              intro nonce
              apply within_bind (createLoop_covered covers _ _ _ _)
              intro created
              cases created with
              | none => exact within_pure _
              | some txHash =>
                  apply within_bind (small account txHash)
                  intro roundEnd
                  cases roundEnd with
                  | returned code newAddress => exact within_pure _
                  | again => exact ih

theorem createAccount_covered (covers : CoversCalls env change)
    (stores : ∀ account taken, Within change (storeAccount env account taken
      (Accounts.insertAccountInfo2DB account.address account.privateKey account.publicKey)))
    (fuel : Nat) : Within change (eChainCreateAccount env fuel) := by
  apply within_bind (covers.record (fun _ => []) fun _ => [])
  intro _
  apply accountRounds_covered covers
  intro account txHash
  apply within_bind (stores account _)
  intro iRet
  split_ifs <;> exact within_pure _

theorem createAccountX_covered (covers : CoversCalls env change)
    (stores : ∀ account taken txHash, Within change (storeAccount env account taken
      (Accounts.insertPreAccountInfo2DB account.address account.privateKey account.publicKey
        txHash))) (fuel : Nat) : Within change (eChainCreateAccountX env fuel) := by
  apply within_bind (covers.record (fun _ => []) fun _ => [])
  intro _
  apply within_bind _ fun _ => within_pure _
  apply accountRounds_covered covers
  intro account txHash
  apply within_bind (obtainAssetCode_covered covers _ _ _ _)
  intro paid
  split_ifs
  · exact within_bind (covers.record (·.accepted) fun world => world.rounds ++ [_])
      fun _ => within_pure _
  · apply within_bind (stores account _ txHash)
    intro iRet
    split_ifs <;> exact within_pure _

theorem prepareLoop_covered {fuel : Nat} (small : Within change (eChainCreateAccountX env fuel))
    (missing : Nat) : Within change (prepareLoop env fuel missing) := by
  induction missing with
  | zero => exact within_pure _
  | succ missing ih =>
      apply within_bind small
      intro code
      split_ifs
      · exact within_pure _
      · exact ih

theorem accountPrepare_covered {fuel : Nat}
    (counts : Within change (callDb env (fun _ _ => []) countPreAccounts))
    (small : Within change (eChainCreateAccountX env fuel)) :
    Within change (eChainAccountPrepare env fuel) := by
  apply within_bind counts
  intro counted
  cases counted with
  | none => exact within_pure _
  | some iCount => exact prepareLoop_covered small _

/-! Business data. -/

theorem submitLoop_covered (covers : CoversCalls env change) (blockPrv : PrivateKey)
    (contractAddress hexInfo : Bytes) (fuel : Nat) (iNonceNum : Int32) :
    Within change (submitLoop env blockPrv contractAddress hexInfo fuel iNonceNum) := by
  induction fuel generalizing iNonceNum with
  | zero => exact within_throw _
  | succ fuel ih =>
      apply within_bind (submitOnce_covered covers _ _)
      intro submitted
      cases submitted with
      | none => exact within_pure _
      | some answer =>
          dsimp only
          split_ifs
          · exact within_pure _
          · exact ih _
          all_goals exact within_pure _

/-- What a round does once its submissions have ended. -/
theorem submitted_covered (covers : CoversCalls env change) (address : Bytes) (fuel : Nat)
    (store : Bytes → Api Server Int) (again : Api Server (Int × Option Bytes))
    (stores : ∀ txHash, Within change (store txHash)) (repeats : Within change again)
    (submitEnd : SubmitEnd) :
    Within change (match submitEnd with
      | .accepted txHash => do
          let _ ← store txHash
          return (1, some txHash)
      | .restart => again
      | .obtain => do
          let paid ← eChainObtainAssetCode env address g_assetCode 100 fuel
          if paid < 0 then return (-1, none) else again
      | .failed code => return (code, none)) := by
  cases submitEnd with
  | accepted txHash => exact within_bind (stores txHash) fun _ => within_pure _
  | restart => exact repeats
  | obtain =>
      apply within_bind (obtainAssetCode_covered covers _ _ _ _)
      intro paid
      split_ifs
      · exact within_pure _
      · exact repeats
  | failed code => exact within_pure _

theorem businessRounds_covered (covers : CoversCalls env change) (json : JsonLib)
    (blockPrv : PrivateKey) (contractAddress : Bytes)
    (document : Api Server (Option (List (String × Json))))
    (fills : Bytes → Sql → Database → List Buffer)
    (insert : Bytes → Sql → Database → Int × Database) (quiet : Within change document)
    (inserts : ∀ txHash, Within change (callDb env (fills txHash) (insert txHash))) (fuel : Nat) :
    Within change (businessRounds env json blockPrv contractAddress document fills insert fuel) := by
  induction fuel with
  | zero => exact within_throw _
  | succ fuel ih =>
      apply within_bind (covers.request _)
      intro reply
      apply within_bind (check_within _ _)
      intro iNonceNum
      dsimp only
      split_ifs
      · exact within_pure _
      · apply within_bind quiet
        intro made
        cases made with
        | none => exact within_pure _
        | some blockJson =>
            dsimp only
            split
            · exact within_pure _
            · apply within_bind (submitLoop_covered covers _ _ _ _ _)
              intro submitEnd
              exact submitted_covered covers contractAddress fuel _ _ inserts ih submitEnd

theorem contractKey_covered (covers : CoversCalls env change) (contractAddress : Bytes) :
    Within change (contractKey env contractAddress) :=
  covers.reads _ fun sql db => Accounts.getPrivateKey_db _ sql db

theorem parseMetaInfo_covered (covers : CoversCalls env change) (transactionHash : Bytes) :
    Within change (parseMetaInfoFromTransactionHash env transactionHash) := by
  apply within_bind (covers.request _)
  intro reply
  cases reply with
  | none => exact within_pure _
  | some rep => exact check_within _ _

theorem getCurTime_covered (covers : CoversCalls env change) :
    Within change (getCurTimeByString env) :=
  within_bind covers.ticks fun _ => within_pure _

theorem newDocument_covered (covers : CoversCalls env change) (json : JsonLib)
    (businessType : Int32) (dataHash dataPath descInfo : Bytes) :
    Within change (newDocument env json businessType dataHash dataPath descInfo) := by
  unfold newDocument
  split
  · exact within_pure _
  · exact within_bind (getCurTime_covered covers) fun _ => within_pure _

theorem businessDataStorage_covered (covers : CoversCalls env change) (json : JsonLib)
    (contractAddress : Bytes) (businessType : Int32) (dataHash dataPath descInfo : Bytes)
    (inserts : ∀ txHash, Within change (callDb env
      (Accounts.businessBuffers contractAddress ADDNEW businessType.toInt dataHash txHash)
      (Accounts.insertBusinessDataInfo2DB contractAddress ADDNEW businessType.toInt dataHash
        txHash))) (fuel : Nat) :
    Within change (eChainBusinessDataStorage env json contractAddress businessType dataHash
      dataPath descInfo fuel) := by
  apply within_bind (contractKey_covered covers _)
  intro key
  cases key with
  | none => exact within_pure _
  | some blockPrvKey =>
      exact businessRounds_covered covers _ _ _ _ _ _ (newDocument_covered covers _ _ _ _ _) inserts _

theorem businessDataUpdate_covered (covers : CoversCalls env change) (json : JsonLib)
    (contractAddress : Bytes) (updateType businessType : Int32)
    (preTranxHash dataHash dataPath descInfo : Bytes)
    (inserts : ∀ txHash, Within change (callDb env
      (Accounts.businessBuffers contractAddress updateType.toInt businessType.toInt dataHash txHash)
      (Accounts.insertBusinessDataInfo2DB contractAddress updateType.toInt businessType.toInt
        dataHash txHash))) (fuel : Nat) :
    Within change (eChainBusinessDataUpdate env json contractAddress updateType businessType
      preTranxHash dataHash dataPath descInfo fuel) := by
  apply within_bind (getCurTime_covered covers)
  intro szBarTime
  apply within_bind (parseMetaInfo_covered covers _)
  intro info
  dsimp only
  split_ifs
  · exact within_pure _
  · split
    · apply within_bind (check_within _ _)
      intro iVersion
      apply within_bind (contractKey_covered covers _)
      intro key
      cases key with
      | none => exact within_pure _
      | some blockPrvKey => exact businessRounds_covered covers _ _ _ _ _ _ (within_pure _) inserts _
    · exact within_pure _

theorem deleteLoop_covered (covers : CoversCalls env change) (json : JsonLib)
    (contractAddress descInfo : Bytes)
    (inserts : ∀ (businessType : Int32) (dataHash txHash : Bytes), Within change (callDb env
      (Accounts.businessBuffers contractAddress DELETE.toInt businessType.toInt dataHash txHash)
      (Accounts.insertBusinessDataInfo2DB contractAddress DELETE.toInt businessType.toInt dataHash
        txHash))) (fuel : Nat) (items : List BusinessDataItem) :
    Within change (deleteLoop env json contractAddress descInfo fuel items) := by
  induction items with
  | nil => exact within_pure _
  | cons item rest ih =>
      apply within_bind (businessDataUpdate_covered covers _ _ _ _ _ _ _ _ (inserts _ _) _)
      intro result
      dsimp only
      split_ifs
      · exact within_pure _
      · exact ih

theorem contractAddressDelete_covered (covers : CoversCalls env change) (json : JsonLib)
    (blockAddress contractAddress descInfo : Bytes)
    (selects : Within change (callDb env (deleteBuffers contractAddress)
      (selectForDelete contractAddress)))
    (inserts : ∀ (businessType : Int32) (dataHash txHash : Bytes), Within change (callDb env
      (Accounts.businessBuffers contractAddress DELETE.toInt businessType.toInt dataHash txHash)
      (Accounts.insertBusinessDataInfo2DB contractAddress DELETE.toInt businessType.toInt dataHash
        txHash))) (fuel : Nat) :
    Within change
      (eChainContractAddressDelete env json blockAddress contractAddress descInfo fuel) := by
  apply within_bind selects
  intro ended
  cases ended with
  | returned code => exact within_pure _
  | raised => exact within_throw _
  | undefined => exact within_pure _
  | selected items =>
      exact within_bind (deleteLoop_covered covers json contractAddress descInfo inserts fuel items)
        fun _ => within_pure _

/-! Users. -/

theorem userKey_covered (covers : CoversCalls env change) (blockAddress : Bytes) :
    Within change (userKey env blockAddress) :=
  covers.reads _ fun sql db => Accounts.getPrivateKey_db _ sql db

theorem insertCertification_db (sql : Sql) (db : Database) :
    (insertCertificationInfo2DB sql db).2 = db := by
  unfold insertCertificationInfo2DB
  dsimp only
  split_ifs <;> rfl

theorem certificationRounds_covered (covers : CoversCalls env change) (blockPrv : PrivateKey)
    (blockAddress userName certificationInfo : Bytes) (fuel : Nat) :
    Within change
      (certificationRounds env blockPrv blockAddress userName certificationInfo fuel) := by
  induction fuel with
  | zero => exact within_throw _
  | succ fuel ih =>
      apply within_bind (covers.request _)
      intro reply
      apply within_bind (check_within _ _)
      intro iNonceNum
      dsimp only
      split_ifs
      · exact within_pure _
      · split
        · exact within_pure _
        · apply within_bind (submitLoop_covered covers _ _ _ _ _)
          intro submitEnd
          exact submitted_covered covers blockAddress fuel _ _
            (fun _ => covers.reads _ insertCertification_db) ih submitEnd

theorem userCertification_covered (covers : CoversCalls env change)
    (blockAddress userName certificationInfo : Bytes) (fuel : Nat) :
    Within change (eChainUserCertification env blockAddress userName certificationInfo fuel) := by
  apply within_bind (userKey_covered covers _)
  intro key
  cases key with
  | none => exact within_pure _
  | some blockPrvKey => exact certificationRounds_covered covers _ _ _ _ _

theorem issueAssets_covered (covers : CoversCalls env change)
    (blockAddress issuerAddress hexInfo assetCode : Bytes) (assetAmount : Int32) :
    Within change (eChainIssueAssets env blockAddress issuerAddress hexInfo assetCode
      assetAmount) := by
  apply within_bind (userKey_covered covers _)
  intro key
  cases key with
  | none => exact within_pure _
  | some blockPrvKey =>
      apply within_bind (covers.request _)
      intro reply
      apply within_bind (check_within _ _)
      intro iNonceNum
      dsimp only
      split_ifs
      · exact within_pure _
      · apply within_bind (submitOnce_covered covers _ _)
        intro submitted
        cases submitted with
        | none => exact within_pure _
        | some answer =>
            dsimp only
            split_ifs <;> exact within_pure _

/-! Changes of the database. -/

section Database

variable {change : Change Database}

end Database

end EChainLib.Node
