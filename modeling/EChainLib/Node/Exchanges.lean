import EChainLib.Node.Calls

/-! The same outside with every exchange with the node on record. -/

namespace EChainLib.Node

open EChainLib.Keys (Bytes)
open EChainLib.Effects

/-- A request and what `reader.parse` makes of the reply. -/
structure Exchange where
  request : Request
  reply : Option Json

/-- A node and the exchanges with it so far. -/
abbrev Recorded (Server : Type) := Server × List Exchange

variable {Server : Type}

def Env.recording (env : Env Server) : Env (Recorded Server) where
  lib := env.lib
  sign := env.sign
  http request server :=
    let (reply, next) := env.http request server.1
    (reply, next, server.2 ++ [⟨request, reply⟩])
  sql := env.sql
  barTime := env.barTime
  uninitialised := env.uninitialised

def World.exchanges (world : World (Recorded Server)) : List Exchange := world.server.2

/-- The start of a call, with nothing on record. -/
def World.recorded (world : World Server) : World (Recorded Server) :=
  { world with server := (world.server, []), buffers := [] }

theorem httpRequest_run (env : Env Server) (request : Request) (world : World Server) :
    httpRequest env request world =
      .ok (env.http request world.server).1
        { world with server := (env.http request world.server).2 } := rfl

/-- The reading of the genesis account as its reply determines it. -/
theorem genesisInfo_run (env : Env Server) (world : World Server) :
    eChainGetGenesisInfo env world =
      match parseGenesInfoFromJson (env.http .getGenesisAccount world.server).1 with
      | .error stop =>
          .error stop { world with server := (env.http .getGenesisAccount world.server).2 }
      | .ok none => .ok (-1) { world with server := (env.http .getGenesisAccount world.server).2 }
      | .ok (some (address, nonce)) =>
          .ok ((nonce.map Int32.ofInt).getD (env.uninitialised world.ticks) + 1) { world with
            server := (env.http .getGenesisAccount world.server).2
            ticks := world.ticks + 1
            g_genesisAddress := address } := by
  have asked := httpRequest_run env .getGenesisAccount world
  rw [eChainGetGenesisInfo, bind_of_ok asked]
  cases parsed : parseGenesInfoFromJson (env.http .getGenesisAccount world.server).1 with
  | error stop => rfl
  | ok found => cases found <;> rfl

/-! An address of the genesis account. -/

/-- A successful reading of the genesis account names an address. -/
def NamesAddress (exchange : Exchange) : Prop :=
  ∀ address nonce, exchange.request = .getGenesisAccount →
    parseGenesInfoFromJson exchange.reply = .ok (some (address, nonce)) → address ≠ []

/-- No exchange is taken back, and the address stays as long as every reading of the
genesis account names one. -/
def keepsAddress : Change (World (Recorded Server)) where
  rel start last := start.exchanges <+: last.exchanges ∧
    ((∀ exchange ∈ last.exchanges, NamesAddress exchange) →
      start.g_genesisAddress ≠ [] → last.g_genesisAddress ≠ [])
  refl start := ⟨List.prefix_refl _, fun _ kept => kept⟩
  trans first second third := by
    rintro ⟨grown, kept⟩ ⟨grown_on, kept_on⟩
    refine ⟨grown.trans grown_on, fun named filled => kept_on named (kept ?_ filled)⟩
    intro exchange member
    exact named exchange (grown_on.subset member)

theorem keepsAddress_of_same {start last : World (Recorded Server)}
    (exchanges : last.exchanges = start.exchanges)
    (address : last.g_genesisAddress = start.g_genesisAddress) :
    keepsAddress.rel start last := by
  constructor
  · rw [exchanges]
  · intro _ filled
    rwa [address]

theorem httpRequest_keepsAddress (env : Env Server) (request : Request) :
    Within keepsAddress (httpRequest env.recording request) := by
  intro start
  constructor
  · exact List.prefix_append _ _
  · exact fun _ filled => filled

theorem genesisInfo_keepsAddress (env : Env Server) :
    Within keepsAddress (eChainGetGenesisInfo env.recording) := by
  intro start
  rw [last, genesisInfo_run]
  cases parsed : parseGenesInfoFromJson (env.recording.http .getGenesisAccount start.server).1 with
  | error stop => exact httpRequest_keepsAddress env .getGenesisAccount start
  | ok found =>
      cases found with
      | none => exact httpRequest_keepsAddress env .getGenesisAccount start
      | some found =>
          constructor
          · exact List.prefix_append _ _
          · intro named _
            exact named _ (List.mem_append_right _ (List.mem_singleton_self _)) found.1 found.2 rfl
              parsed

theorem keepsAddress_covers (env : Env Server) : CoversCalls env.recording keepsAddress where
  ticks := fun _ => keepsAddress_of_same rfl rfl
  request := httpRequest_keepsAddress env
  genesis := genesisInfo_keepsAddress env
  nonce := fun _ _ => keepsAddress_of_same rfl rfl
  reads := fun _ _ _ => keepsAddress_of_same rfl rfl
  record := fun _ _ _ => keepsAddress_of_same rfl rfl

theorem callDb_keepsAddress {Value : Type} (env : Env Server)
    {fills : Accounts.Sql → Accounts.Database → List Accounts.Buffer}
    (call : Accounts.Sql → Accounts.Database → Value × Accounts.Database) :
    Within keepsAddress (callDb env.recording fills call) := fun _ => keepsAddress_of_same rfl rfl

end EChainLib.Node
