import EChainLib.Node.Protocol
import EChainLib.Node.ListChain

/-! The submitting calls against the nonce protocol: each of them follows it until a
reading of the genesis account fails, a nonce falls due that is no `int`, or an answer
comes at which it gives up. -/

namespace EChainLib.Node

open EChainLib.Keys (Bytes PrivateKey cString)
open EChainLib.Accounts (Database Sql Buffer AllHold)
open EChainLib.Effects

variable {Server : Type} {env : Env Server} {givesUp : Json → Int → Prop}

/-! Payments by the genesis account. -/

/-- The call has given up at its last answer. -/
def Stuck (givesUp : Json → Int → Prop) (world : World (Recorded Server)) : Prop :=
  ¬ Clean givesUp world ∧
    ∃ request code nonce, phaseOf world = .answered request code nonce ∧ (code = 3 ∨ code = 99)

def Accepted (world : World (Recorded Server)) : Prop :=
  ∃ request nonce, phaseOf world = .answered request 0 nonce

/-- The nonce has been read, or the reading has failed and the call goes on. -/
def Begun (givesUp : Json → Int → Prop) (world : World (Recorded Server)) : Prop :=
  Clean givesUp world ∧ Due (phaseOf world) world.g_genesisNonce ∨
    ¬ Clean givesUp world ∧ phaseOf world = .unread

inductive Submitter where
  | eChainCreateAccount (fuel : Nat)
  | eChainCreateAccountX (fuel : Nat)
  | eChainObtainAssetCode (destAddress assetCode : Bytes) (assetAmount : Int32) (fuel : Nat)
  | eChainUserCertification (blockAddress userName certificationInfo : Bytes) (fuel : Nat)
  | eChainBusinessDataStorage (contractAddress : Bytes) (businessType : Int32)
      (dataHash dataPath descInfo : Bytes) (fuel : Nat)
  | eChainBusinessDataUpdate (contractAddress : Bytes) (updateType businessType : Int32)
      (preTranxHash dataHash dataPath descInfo : Bytes) (fuel : Nat)
  | eChainIssueAssets (blockAddress issuerAddress hexInfo assetCode : Bytes) (assetAmount : Int32)

/-- The return value. -/
def Submitter.run (env : Env Server) (json : JsonLib) : Submitter → Api Server Int
  | .eChainCreateAccount fuel => Prod.fst <$> Node.eChainCreateAccount env fuel
  | .eChainCreateAccountX fuel => Node.eChainCreateAccountX env fuel
  | .eChainObtainAssetCode destAddress assetCode assetAmount fuel =>
      Node.eChainObtainAssetCode env destAddress assetCode assetAmount.toInt fuel
  | .eChainUserCertification blockAddress userName certificationInfo fuel =>
      Prod.fst <$> Node.eChainUserCertification env blockAddress userName certificationInfo fuel
  | .eChainBusinessDataStorage contractAddress businessType dataHash dataPath descInfo fuel =>
      Prod.fst <$> Node.eChainBusinessDataStorage env json contractAddress businessType dataHash
        dataPath descInfo fuel
  | .eChainBusinessDataUpdate contractAddress updateType businessType preTranxHash dataHash dataPath
      descInfo fuel =>
      Prod.fst <$> Node.eChainBusinessDataUpdate env json contractAddress updateType businessType
        preTranxHash dataHash dataPath descInfo fuel
  | .eChainIssueAssets blockAddress issuerAddress hexInfo assetCode assetAmount =>
      Prod.fst <$> Node.eChainIssueAssets env blockAddress issuerAddress hexInfo assetCode assetAmount

/-- The protocol: every submission carries the nonce that is due, none follows a failed
reading, what an answer asks for is done before the call ends, and a success follows an
accepted submission. A call that is stopped on its way still owes what it would do next. -/
def Follows : EStateM.Result Stop (World (Recorded Server)) Int → Prop
  | .ok code world => (phaseOf world).Settled ∧ (0 < code → Accepted world)
  | .error .thrown world => (phaseOf world).Settled
  | .error .outOfFuel world => phaseOf world ≠ .broken

variable (env) (json : JsonLib)

/-- The world that the call leaves behind, however it ends. -/
def Submitter.after (call : Submitter) (start : World Server) : World (Recorded Server) :=
  last (call.run env.recording json) start.recorded

variable {env} {json}

end EChainLib.Node
