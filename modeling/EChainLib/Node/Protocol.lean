import EChainLib.Support.Run
import EChainLib.Node.Exchanges

/-! The nonce protocol of the submitting calls, read off their exchanges with the
node. A submission begins with the request for its blob, which carries the nonce. -/

namespace EChainLib.Node

open EChainLib.Keys (Bytes PrivateKey)
open EChainLib.Accounts (Database Sql)
open EChainLib.Effects

/-- Where a call stands. -/
inductive Phase where
  | idle
  /-- The last reading of a nonce has failed or has raised. -/
  | unread
  /-- A reading asks for this nonce next; it is due after an answer 99. -/
  | ready (nonce : Int) (due : Bool)
  /-- The genesis account was reported without a nonce. -/
  | unknown
  | asked (request : Json) (nonce : Int)
  | answered (request : Json) (code : Int) (nonce : Int)
  | broken

def nonceOf : Json → Option Int
  | .obj members =>
      match members.lookup "nonce" with
      | some (.int nonce) => some nonce
      | _ => none
  | _ => none

/-- What a reading finds: nothing where it fails, and the nonce unless the genesis
account was reported without one. -/
abbrev Reading := Except Stop (Option (Option Int))

/-- A nonce whose successor is negative or no `int` counts as a failure, as it does for
the calls. -/
def genesisReading (reply : Option Json) : Reading := do
  match ← parseGenesInfoFromJson reply with
  | none => return none
  | some (_, none) => return some none
  | some (_, some nonce) =>
      return if nonce + 1 < 0 ∨ 2 ^ 31 ≤ nonce + 1 then none else some (some nonce)

def accountReading (reply : Option Json) : Reading := do
  let nonce ← parseNonceNumFromJson reply
  return if nonce < 0 then none else some (some nonce)

def Phase.renews : Phase → Bool
  | .answered _ code _ => code = 99
  | .ready _ due => due
  | _ => false

/-- Nothing may come between an answer 3 and the next submission. -/
def Phase.closed : Phase → Bool
  | .broken => true
  | .answered _ code _ => code = 3
  | _ => false

def Phase.afterReading (phase : Phase) (reading : Reading) : Phase :=
  if phase.closed then .broken
  else
    match reading with
    | .error _ => .unread
    | .ok none => .unread
    | .ok (some none) => .unknown
    | .ok (some (some nonce)) => .ready (nonce + 1) phase.renews

/-- The phase after the request for a blob. -/
def Phase.afterAsking (phase : Phase) (request : Json) : Phase :=
  match phase, nonceOf request with
  | .ready next _, some nonce => if nonce = next then .asked request nonce else .broken
  | .unknown, some nonce => .asked request nonce
  | .answered _ code last, some nonce =>
      if code ≠ 99 ∧ nonce = last + 1 then .asked request nonce else .broken
  | _, _ => .broken

def Phase.afterSubmission (phase : Phase) (reply : Option Json) : Phase :=
  match phase, reply.map Json.submitCode with
  | .asked request nonce, some (.ok code) => .answered request code nonce
  | .asked _ _, _ => .idle
  | _, _ => .broken

/-- The nonce of the submission that is due, where one is known. -/
def Phase.next : Phase → Option Int
  | .ready nonce _ => some nonce
  | .answered _ code last => if code = 99 then none else some (last + 1)
  | _ => none

def Phase.advance (phase : Phase) (exchange : Exchange) : Phase :=
  match exchange.request with
  | .getGenesisAccount => phase.afterReading (genesisReading exchange.reply)
  | .getAccount _ => phase.afterReading (accountReading exchange.reply)
  | .getTransactionBlob content => phase.afterAsking content
  | .submitTransaction _ => phase.afterSubmission exchange.reply
  | _ => phase

/-- A call may end here: no submission is wrong and none is owed. -/
def Phase.Settled : Phase → Prop
  | .broken => False
  | .answered _ code _ => code ≠ 3 ∧ code ≠ 99
  | .ready _ due => due = false
  | _ => True

/-- An exchange after which the call leaves the protocol: a reading of the genesis
account that fails and does not follow an answer 99, a submission that is due with a
nonce that is no `int`, or an answer at which the call gives up. -/
def Harmful (givesUp : Json → Int → Prop) (phase : Phase) (exchange : Exchange) : Prop :=
  match exchange.request with
  | .getGenesisAccount =>
      genesisReading exchange.reply = .ok none ∧ ∀ request nonce, phase ≠ .answered request 99 nonce
  | .getTransactionBlob _ => phase.next = some (2 ^ 31)
  | .submitTransaction _ =>
      ∃ request code nonce, phase.advance exchange = .answered request code nonce ∧
        givesUp request code
  | _ => False

variable {Server : Type} {env : Env Server} {givesUp : Json → Int → Prop}

def phaseOf (world : World (Recorded Server)) : Phase :=
  Run.final Phase.advance .idle world.exchanges

/-- No exchange so far was harmful. -/
def Clean (givesUp : Json → Int → Prop) (world : World (Recorded Server)) : Prop :=
  Run.Meets Phase.advance (fun phase exchange => ¬ Harmful givesUp phase exchange) .idle
    world.exchanges

/-! What is lost stays lost. -/

/-- The next submission carries `nonce`. -/
def Asks (phase : Phase) (nonce : Int) : Prop :=
  ∀ request, nonceOf request = some nonce → phase.afterAsking request = .asked request nonce

/-- The next submission carries `nonce`, unless the nonce that is due is no `int`. -/
def Due (phase : Phase) (nonce : Int32) : Prop :=
  Asks phase nonce.toInt ∨ phase.next = some (2 ^ 31)

end EChainLib.Node
