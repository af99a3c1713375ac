import EChainLib.Node.BusinessData

/-! `EChain_UserCertification` and `EChain_IssueAssets`, the submitting calls on a
registered user's key. -/

namespace EChainLib.Node

open EChainLib.Keys (Bytes PrivateKey text)
open EChainLib.Accounts (Database Sql)

variable {Server : Type} (env : Env Server)

/-- `user_certification` is read by no function: its row leaves the other tables. -/
def insertCertificationInfo2DB (sql : Sql) (db : Database) : Int × Database :=
  let db := db.lock
  if sql.fails 0 then (-1, db.unlock)
  else (1, db.unlock)

/-- The label `ReStart`: the return value, and `transactionHash` where the
transaction was accepted. -/
def certificationRounds (blockPrv : PrivateKey) (blockAddress userName certificationInfo : Bytes) :
    Nat → Api Server (Int × Option Bytes)
  | 0 => throw .outOfFuel
  | fuel + 1 => do
      let iNonceNum := Int32.ofInt
        (← check (parseNonceNumFromJson (← httpRequest env (.getAccount blockAddress))))
      if iNonceNum < 0 then
        return (-6, none)
      else
        match strToHex certificationInfo with
        | none => return (0, none)
        | some hexInfo =>
            match ← submitLoop env blockPrv blockAddress hexInfo fuel iNonceNum with
            | .accepted transactionHash =>
                let _ ← callDb env
                  (Accounts.certificationBuffers blockAddress userName transactionHash)
                  insertCertificationInfo2DB
                return (1, some transactionHash)
            | .restart => certificationRounds blockPrv blockAddress userName certificationInfo fuel
            | .obtain =>
                let paid ← eChainObtainAssetCode env blockAddress g_assetCode 100 fuel
                if paid < 0 then
                  return (-1, none)
                else
                  certificationRounds blockPrv blockAddress userName certificationInfo fuel
            | .failed code => return (code, none)

def eChainUserCertification (blockAddress userName certificationInfo : Bytes) (fuel : Nat) :
    Api Server (Int × Option Bytes) := do
  match ← userKey env blockAddress with
  | none => return (-1, none)
  | some blockPrvKey =>
      let certificationInfo :=
        if certificationInfo.length ≤ 1 then text "\x7b\"certificationInfo\":null\x7d"
        else certificationInfo
      certificationRounds env (privateKeyOf env blockPrvKey) blockAddress userName certificationInfo
        fuel

def getIssueAssetJson (srcAddress hexInfo : Bytes) (nonce : Int32) (assetAmount : Int)
    (assetCode : Bytes) : Json :=
  let issueasset := Json.obj [("code", .str assetCode), ("amount", .int assetAmount)]
  let operation := Json.obj [("issue_asset", issueasset), ("type", .int 2)]
  .obj [("metadata", .str hexInfo), ("expr_condition", .str []),
    ("source_address", .str srcAddress), ("nonce", .int nonce.toInt),
    ("operations", .arr [operation])]

/-- The return value and `transferHash`. Every code but 0 returns before the branches
that would go back to `Loop` and `ReStart`. -/
def eChainIssueAssets (_blockAddress issuerAddress hexInfo assetCode : Bytes)
    (assetAmount : Int32) : Api Server (Int × Option Bytes) := do
  match ← userKey env issuerAddress with
  | none => return (-1, none)
  | some blockPrvKey =>
      let iNonceNum := Int32.ofInt
        (← check (parseNonceNumFromJson (← httpRequest env (.getAccount issuerAddress))))
      if iNonceNum < 0 then
        return (-6, none)
      else
        match ← submitOnce env (privateKeyOf env blockPrvKey) (getIssueAssetJson issuerAddress
          hexInfo (iNonceNum + 1) assetAmount.toInt assetCode) with
        | none => return (-6, none)
        | some (txHash, iResult) =>
            if iResult ≠ 0 then
              return (-6, some txHash)
            else
              return (1, some txHash)

end EChainLib.Node
