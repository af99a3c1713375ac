import EChainLib.Support.Run
import EChainLib.Config.Ini
import EChainLib.Node.Exchanges

/-! `EChain_InitSDK`, and the calls that are made after it. -/

namespace EChainLib.Node

open EChainLib.Keys (Bytes text)
open EChainLib.Config (IniFile SConfigPara readIni)
open EChainLib.Effects

/-- What an initialisation meets on the machine: its files, its network cards (as
`GetMacAddr` lists them) and the database server. -/
structure Machine where
  ini : Option IniFile
  logOpens : Bool
  /-- The content of `license.dat`. -/
  licence : Option Bytes
  macs : List Bytes
  md5 : Bytes → Bytes
  /-- Whether `mysql_real_connect` succeeds. -/
  connects : SConfigPara → Bool
  utf8 : Bool

/-- The globals. -/
structure Library (Server : Type) where
  config : SConfigPara
  world : World (Recorded Server)
  /-- Whether `g_mysql` is connected. -/
  connected : Bool
  /-- Whether the last licence check has passed, the address and the nonce of the last
  reply an initialisation has read, and whether one has returned 1. No function reads
  the three. -/
  licensed : Bool
  genesis : Option (Bytes × Int)
  initialised : Bool

inductive InitEnd where
  | returned (code : Int)
  | stopped (stop : Stop)
  | undefined

def ver_buf : Bytes := text "Miracles happen every day."

def md5End2 (digest : Bytes) : Bytes := Keys.binToHexString digest

def verifyCertificate (machine : Machine) : Bool :=
  match machine.licence with
  | none => false
  | some content =>
      if content.length < 32 then false
      else machine.macs.any fun mac =>
        md5End2 (machine.md5 (mac ++ ver_buf ++ mac)) = content.take 32

/-- The return value, and whether `g_mysql` is connected. -/
def initDataBasesConnection (machine : Machine) (config : SConfigPara) : Int × Bool :=
  if machine.connects config then (if machine.utf8 then 1 else 0, true)
  else (-1, false)

variable {Server : Type} (env : Env Server) (json : JsonLib)

def readGenesis (world : World (Recorded Server)) :
    Except Stop (Option (Bytes × Option Int)) :=
  parseGenesInfoFromJson (env.http .getGenesisAccount world.server.1).1

/-- The part after the connection. -/
def initGenesis (library : Library Server) : InitEnd × Library Server :=
  let genesis :=
    match readGenesis env library.world with
    | .ok (some (address, some nonce)) => some (address, nonce)
    | .ok (some (_, none)) => none
    | _ => library.genesis
  match eChainGetGenesisInfo env.recording library.world with
  | .error stop world => (.stopped stop, { library with world })
  | .ok nonce world =>
      let library := { library with world := { world with g_genesisNonce := nonce }, genesis }
      if nonce < 0 then (.returned (-1), library)
      else (.returned 1, { library with initialised := true })

def eChainInitSDK (machine : Machine) (library : Library Server) : InitEnd × Library Server :=
  match readIni machine.ini library.config with
  | none => (.undefined, library)
  | some (code, config) =>
      let library := { library with config }
      if code < 0 then (.returned (-1), library)
      else if config.m_DebugLog ≠ 1 then
        -- without the log nothing of what follows is done
        (.returned 1, { library with initialised := true })
      else if !machine.logOpens then (.returned (-1), library)
      else
        let library := { library with licensed := verifyCertificate machine }
        if !library.licensed then (.returned (-3), library)
        else
          let connection := initDataBasesConnection machine config
          let library := { library with connected := connection.2 }
          if connection.1 < 0 then (.returned (-1), library)
          else initGenesis env library

/-- What a success is to leave behind. -/
structure Usable (library : Library Server) : Prop where
  licensed : library.licensed = true
  connected : library.connected = true
  genesis : ∃ address nonce, library.genesis = some (address, nonce) ∧
    library.world.g_genesisAddress = address ∧ library.world.g_genesisNonce.toInt = nonce + 1

def ReadyOnSuccess (machine : Machine) (library : Library Server) : Prop :=
  (eChainInitSDK env machine library).1 = .returned 1 →
    Usable (eChainInitSDK env machine library).2

/-- The initialisation comes to read the genesis account. -/
def AsksGenesis (machine : Machine) (config : SConfigPara) : Prop :=
  machine.logOpens = true ∧ verifyCertificate machine = true ∧ machine.connects config = true

/-- An accepted configuration asks for the log, unless the library is usable already,
and a genesis account that is reported without a nonce is refused. -/
def SoundSetup (machine : Machine) (library : Library Server) : Prop :=
  ∀ code config, readIni machine.ini library.config = some (code, config) → 0 ≤ code →
    (config.m_DebugLog ≠ 1 → Usable library) ∧
    (config.m_DebugLog = 1 → AsksGenesis machine config → ∀ address,
      readGenesis env library.world = .ok (some (address, none)) →
        env.uninitialised library.world.ticks + 1 < 0)

variable {env}

theorem initDataBasesConnection_fails (machine : Machine) (config : SConfigPara) :
    (initDataBasesConnection machine config).1 < 0 ↔ machine.connects config = false := by
  unfold initDataBasesConnection
  split_ifs with connects encoded
  · simp [connects]
  · simp [connects]
  · simpa using connects

theorem initDataBasesConnection_connected (machine : Machine) (config : SConfigPara) :
    (initDataBasesConnection machine config).2 = machine.connects config := by
  unfold initDataBasesConnection
  cases machine.connects config <;> rfl

theorem initGenesis_ready_iff (env : Env Server) (library : Library Server)
    (licensed : library.licensed = true) (connected : library.connected = true) :
    ((initGenesis env library).1 = .returned 1 → Usable (initGenesis env library).2) ↔
      ∀ address, readGenesis env library.world = .ok (some (address, none)) →
        env.uninitialised library.world.ticks + 1 < 0 := by
  unfold initGenesis
  rw [genesisInfo_run]
  have same : parseGenesInfoFromJson
      (env.recording.http .getGenesisAccount library.world.server).1 =
        readGenesis env library.world := rfl
  rw [same]
  cases parsed : readGenesis env library.world with
  | error stop => simp
  | ok found =>
      rcases found with _ | ⟨address, _ | nonce⟩
      · simp
      -- a reply without a nonce: the number is whatever stood in the local
      · by_cases negative : env.uninitialised library.world.ticks + 1 < 0
        · simp [negative, Env.recording]
        · simp only [Option.map_none, Option.getD_none, Env.recording, negative, if_false]
          constructor
          · intro ready
            obtain ⟨_, _, held, _⟩ := (ready trivial).genesis
            cases held
          · intro sound
            exact absurd (sound address rfl) id
      · simp only [Option.map_some, Option.getD_some]
        constructor
        · intro _ other absent
          cases absent
        · intro _
          split_ifs with negative
          · exact fun absent => by cases absent
          · -- a nonce that counts up is no failure, and its successor is an `int`
            intro _
            obtain ⟨low, high⟩ := parseGenesInfoFromJson_range parsed
            rw [next_negative_iff, Int32.toInt_ofInt_of_le low high, not_or] at negative
            refine ⟨licensed, connected, address, nonce, rfl, rfl, ?_⟩
            show (Int32.ofInt nonce + 1).toInt = nonce + 1
            rw [next_toInt, Int32.toInt_ofInt_of_le low high, if_pos (not_le.mp negative.2)]

/-- The whole call, by the configuration. -/
theorem ready_on_success_iff (machine : Machine) (library : Library Server) :
    ReadyOnSuccess env machine library ↔ SoundSetup env machine library := by
  unfold ReadyOnSuccess SoundSetup eChainInitSDK
  cases accepted : readIni machine.ini library.config with
  | none => simp
  | some found =>
      obtain ⟨code, config⟩ := found
      by_cases refused : code < 0
      · simp [refused]
      -- the else branch of the log switch changes nothing and returns 1
      · by_cases silent : config.m_DebugLog ≠ 1
        · constructor
          · intro ready _ _ same _
            cases same
            refine ⟨fun _ => ?_, fun logged => absurd logged silent⟩
            have usable := ready (by simp [refused, silent])
            simp only [refused, if_false, silent, ne_eq, not_false_eq_true, if_true] at usable
            exact ⟨usable.licensed, usable.connected, usable.genesis⟩
          · intro sound _
            obtain ⟨usable, _⟩ := sound _ _ rfl (not_lt.mp refused)
            simp only [refused, if_false, silent, ne_eq, not_false_eq_true, if_true]
            exact ⟨(usable silent).licensed, (usable silent).connected, (usable silent).genesis⟩
        · have logged : config.m_DebugLog = 1 := not_not.mp silent
          simp only [refused, if_false, logged, ne_eq, not_true_eq_false]
          by_cases asks : AsksGenesis machine config
          · obtain ⟨opens, passes, connects⟩ := asks
            have last_part := initGenesis_ready_iff env
              { library with config, licensed := true, connected := true } rfl rfl
            simp only [opens, passes, initDataBasesConnection_fails,
              initDataBasesConnection_connected, connects, Bool.not_true, Bool.true_eq_false,
              Bool.false_eq_true, if_false]
            rw [last_part]
            constructor
            · intro sound _ _ same _
              cases same
              exact ⟨fun silent => absurd logged silent, fun _ _ => sound⟩
            · intro sound
              exact (sound _ _ rfl (not_lt.mp refused)).2 logged ⟨opens, passes, connects⟩
          -- a step before the genesis account's fails, and the call does not return 1
          · apply iff_of_true
            · intro success
              exfalso
              cases opens : machine.logOpens with
              | false => simp [opens] at success
              | true =>
                  cases passes : verifyCertificate machine with
                  | false => simp [opens, passes] at success
                  | true =>
                      cases connects : machine.connects config with
                      | false =>
                          simp [opens, passes, connects, initDataBasesConnection_fails] at success
                      | true => exact asks ⟨opens, passes, connects⟩
            · intro _ _ same _
              cases same
              exact ⟨fun silent => absurd logged silent, fun _ reached => absurd reached asks⟩

/-! Runs. -/

/-- The calls on the database or on the genesis account. -/
inductive ApiCall where
  | eChainCreateAccount (fuel : Nat)
  | eChainObtainAssetCode (destAddress assetCode : Bytes) (assetAmount : Int32) (fuel : Nat)
  | eChainCreateAccountX (fuel : Nat)
  | eChainAccountPrepare (fuel : Nat)
  | eChainUserRegister (userID : Bytes) (userType : Int32) (userInfo : Bytes)
  | eChainUserCertification (blockAddress userName certificationInfo : Bytes) (fuel : Nat)
  | eChainContractAddressCreate (userID classID : Bytes)
  | eChainBusinessDataStorage (contractAddress : Bytes) (businessType : Int32)
      (dataHash dataPath descInfo : Bytes) (fuel : Nat)
  | eChainBusinessDataUpdate (contractAddress : Bytes) (updateType businessType : Int32)
      (preTranxHash dataHash dataPath descInfo : Bytes) (fuel : Nat)
  | eChainContractAddressDelete (blockAddress contractAddress descInfo : Bytes) (fuel : Nat)
  | eChainQueryAddressRecord (blockAddress contractAddress startTime endTime : Bytes)
      (curPage numsPerPage : Int32)
  | eChainIssueAssets (blockAddress issuerAddress hexInfo assetCode : Bytes) (assetAmount : Int32)

def ApiCall.run (env : Env Server) (json : JsonLib) : ApiCall → Api (Recorded Server) Unit
  | .eChainCreateAccount fuel => discard (Node.eChainCreateAccount env.recording fuel)
  | .eChainObtainAssetCode destAddress assetCode assetAmount fuel =>
      discard (Node.eChainObtainAssetCode env.recording destAddress assetCode assetAmount.toInt fuel)
  | .eChainCreateAccountX fuel => discard (Node.eChainCreateAccountX env.recording fuel)
  | .eChainAccountPrepare fuel => discard (Node.eChainAccountPrepare env.recording fuel)
  | .eChainUserRegister userID userType userInfo =>
      callDb env.recording (Accounts.userBuffers userID userType.toInt userInfo) fun sql db =>
        ((), (Accounts.processUserRegisterInfo userID userType.toInt userInfo sql db).db)
  | .eChainUserCertification blockAddress userName certificationInfo fuel =>
      discard (Node.eChainUserCertification env.recording blockAddress userName certificationInfo fuel)
  | .eChainContractAddressCreate userID classID =>
      callDb env.recording (Accounts.contractBuffers userID classID) fun sql db =>
        ((), (Accounts.processContractAccountInfo userID classID sql db).db)
  | .eChainBusinessDataStorage contractAddress businessType dataHash dataPath descInfo fuel =>
      discard (Node.eChainBusinessDataStorage env.recording json contractAddress businessType
        dataHash dataPath descInfo fuel)
  | .eChainBusinessDataUpdate contractAddress updateType businessType preTranxHash dataHash
      dataPath descInfo fuel =>
      discard (Node.eChainBusinessDataUpdate env.recording json contractAddress updateType
        businessType preTranxHash dataHash dataPath descInfo fuel)
  | .eChainContractAddressDelete blockAddress contractAddress descInfo fuel =>
      discard (Node.eChainContractAddressDelete env.recording json blockAddress contractAddress
        descInfo fuel)
  | .eChainQueryAddressRecord blockAddress contractAddress startTime endTime curPage numsPerPage =>
      discard (Node.eChainQueryAddressRecord env.recording json blockAddress contractAddress
        startTime endTime curPage numsPerPage)
  | .eChainIssueAssets blockAddress issuerAddress hexInfo assetCode assetAmount =>
      discard (Node.eChainIssueAssets env.recording blockAddress issuerAddress hexInfo assetCode
        assetAmount)

theorem discard_keepsAddress {Value : Type} {call : Api (Recorded Server) Value}
    (kept : Within keepsAddress call) : Within keepsAddress (discard call) :=
  within_bind kept fun _ => within_pure _

theorem storeAccount_keepsAddress (account : NewAccount)
    (look : Accounts.Sql → Accounts.Database → Bool × List Accounts.SqlStatement)
    (insert : Accounts.Sql → Accounts.Database → Int × Accounts.Database) :
    Within keepsAddress (storeAccount env.recording account look insert) :=
  fun _ => keepsAddress_of_same rfl rfl

theorem createAccountX_keepsAddress (fuel : Nat) :
    Within keepsAddress (Node.eChainCreateAccountX env.recording fuel) :=
  createAccountX_covered (keepsAddress_covers env) (fun _ _ _ => storeAccount_keepsAddress _ _ _) _

theorem apiCall_keepsAddress (call : ApiCall) : Within keepsAddress (call.run env json) := by
  have covers := keepsAddress_covers env
  -- one case per call: its parts are covered, and nothing but a genesis reading sets the address
  cases call with
  | eChainCreateAccount fuel =>
      exact discard_keepsAddress (createAccount_covered covers
        (fun _ _ => storeAccount_keepsAddress _ _ _) _)
  | eChainObtainAssetCode destAddress assetCode assetAmount fuel =>
      exact discard_keepsAddress (obtainAssetCode_covered covers _ _ _ _)
  | eChainCreateAccountX fuel => exact discard_keepsAddress (createAccountX_keepsAddress _)
  | eChainAccountPrepare fuel =>
      exact discard_keepsAddress (accountPrepare_covered (callDb_keepsAddress env _)
        (createAccountX_keepsAddress _))
  | eChainUserRegister userID userType userInfo =>
      exact callDb_keepsAddress env fun sql db =>
        ((), (Accounts.processUserRegisterInfo userID userType.toInt userInfo sql db).db)
  | eChainUserCertification blockAddress userName certificationInfo fuel =>
      exact discard_keepsAddress (userCertification_covered covers _ _ _ _)
  | eChainContractAddressCreate userID classID =>
      exact callDb_keepsAddress env fun sql db =>
        ((), (Accounts.processContractAccountInfo userID classID sql db).db)
  | eChainBusinessDataStorage contractAddress businessType dataHash dataPath descInfo fuel =>
      exact discard_keepsAddress (businessDataStorage_covered covers _ _ _ _ _ _
        (fun _ => callDb_keepsAddress env _) _)
  | eChainBusinessDataUpdate contractAddress updateType businessType preTranxHash dataHash
      dataPath descInfo fuel =>
      exact discard_keepsAddress (businessDataUpdate_covered covers _ _ _ _ _ _ _ _
        (fun _ => callDb_keepsAddress env _) _)
  | eChainContractAddressDelete blockAddress contractAddress descInfo fuel =>
      exact discard_keepsAddress (contractAddressDelete_covered covers _ _ _ _
        (callDb_keepsAddress env _) (fun _ _ _ => callDb_keepsAddress env _) _)
  | eChainQueryAddressRecord blockAddress contractAddress startTime endTime curPage numsPerPage =>
      apply discard_keepsAddress
      apply within_bind (callDb_keepsAddress env _)
      intro ended
      cases ended with
      | answered code businessDataInfo => exact within_pure _
      | raised => exact within_throw _
      | undefined => exact within_pure _
  | eChainIssueAssets blockAddress issuerAddress hexInfo assetCode assetAmount =>
      exact discard_keepsAddress (issueAssets_covered covers _ _ _ _ _)

inductive SdkStep where
  | initSDK (machine : Machine)
  | call (call : ApiCall)

variable (env)

def sdkStep (library : Library Server) : SdkStep → Library Server
  | .initSDK machine => (eChainInitSDK env machine library).2
  | .call call => { library with world := last (call.run env json) library.world }

/-- A success leaves the library usable, and a call after one finds the connection and
an address of the genesis account, and leaves an address. -/
def KeepsPromise (library : Library Server) : SdkStep → Prop
  | .initSDK machine => ReadyOnSuccess env machine library
  | .call call => library.initialised = true →
      library.connected = true ∧ library.world.g_genesisAddress ≠ [] ∧
        (last (call.run env json) library.world).g_genesisAddress ≠ []

/-- The initialisation does not lose the connection of an earlier one. -/
def KeepsConnection (machine : Machine) (library : Library Server) : Prop :=
  library.initialised = true → ∀ code config,
    readIni machine.ini library.config = some (code, config) → 0 ≤ code →
      config.m_DebugLog = 1 → machine.logOpens = true → verifyCertificate machine = true →
        machine.connects config = true

/-- No reply of the node so far has an empty address for the genesis account. -/
def AddressesNamed (library : Library Server) : Prop :=
  ∀ exchange ∈ library.world.exchanges, NamesAddress exchange

def SoundStep (library : Library Server) (step : SdkStep) : Prop :=
  AddressesNamed (sdkStep env json library step) ∧
    match step with
    | .initSDK machine => SoundSetup env machine library ∧ KeepsConnection machine library
    | .call _ => True

/-- Nothing has been initialised yet. -/
structure Fresh (library : Library Server) : Prop where
  initialised : library.initialised = false
  genesis : library.genesis = none
  exchanges : library.world.exchanges = []

/-- The invariant of a run. -/
structure Prepared (library : Library Server) : Prop where
  address : library.initialised = true ∨ library.genesis.isSome → library.world.g_genesisAddress ≠ []
  connected : library.initialised = true → library.connected = true

variable {env} {json}

theorem initGenesis_prepared (library : Library Server) (prepared : Prepared library)
    (connected : library.connected = true)
    (named : AddressesNamed (initGenesis env library).2) : Prepared (initGenesis env library).2 := by
  unfold initGenesis at named ⊢
  rw [genesisInfo_run] at named ⊢
  have same : parseGenesInfoFromJson
      (env.recording.http .getGenesisAccount library.world.server).1 =
        readGenesis env library.world := rfl
  rw [same] at named ⊢
  cases parsed : readGenesis env library.world with
  | error stop => exact ⟨prepared.address, prepared.connected⟩
  | ok found =>
      rcases found with _ | ⟨address, nonce⟩
      · exact ⟨prepared.address, prepared.connected⟩
      · have held : address ≠ [] := by
          apply named ⟨.getGenesisAccount, (env.http .getGenesisAccount library.world.server.1).1⟩ _
            address nonce rfl parsed
          rw [parsed]
          dsimp only
          split_ifs <;> exact List.mem_append_right _ (List.mem_singleton_self _)
        dsimp only
        split_ifs
        · exact ⟨fun _ => held, prepared.connected⟩
        · exact ⟨fun _ => held, fun _ => connected⟩

/-- What an initialisation does before it reads the genesis account. -/
theorem initSDK_cases (env : Env Server) (machine : Machine) (library : Library Server) :
    (∃ config licensed, (eChainInitSDK env machine library).2 =
      { library with config, licensed }) ∨
    (∃ config, (eChainInitSDK env machine library).1 = .returned 1 ∧
      (eChainInitSDK env machine library).2 = { library with config, initialised := true }) ∨
    (∃ config licensed, ¬ KeepsConnection machine { library with initialised := true } ∧
      (eChainInitSDK env machine library).2 =
        { library with config, licensed, connected := false }) ∨
    (∃ config, eChainInitSDK env machine library =
      initGenesis env { library with config, licensed := true, connected := true }) := by
  unfold eChainInitSDK
  cases accepted : readIni machine.ini library.config with
  | none => exact .inl ⟨library.config, library.licensed, rfl⟩
  | some found =>
      obtain ⟨code, config⟩ := found
      dsimp only
      split_ifs with refused silent closed unlicensed unconnected
      · exact .inl ⟨config, library.licensed, rfl⟩
      · exact .inr (.inl ⟨config, rfl, rfl⟩)
      · exact .inl ⟨config, library.licensed, rfl⟩
      · exact .inl ⟨config, verifyCertificate machine, rfl⟩
      · rw [initDataBasesConnection_fails] at unconnected
        refine .inr (.inr (.inl ⟨config, verifyCertificate machine, ?_, ?_⟩))
        · intro keeps
          have connects := keeps rfl code config accepted (not_lt.mp refused) (not_not.mp silent)
            (by simpa using closed) (by simpa using unlicensed)
          rw [connects] at unconnected
          cases unconnected
        · simp [initDataBasesConnection_connected, unconnected]
      · rw [initDataBasesConnection_fails] at unconnected
        have passes : verifyCertificate machine = true := by simpa using unlicensed
        refine .inr (.inr (.inr ⟨config, ?_⟩))
        simp [initDataBasesConnection_connected, unconnected, passes]

/-- What a sound step keeps. -/
theorem sdkStep_prepared (library : Library Server) (step : SdkStep) (prepared : Prepared library)
    (sound : SoundStep env json library step) : Prepared (sdkStep env json library step) := by
  obtain ⟨named, sound⟩ := sound
  cases step with
  | initSDK machine =>
      obtain ⟨setup, keeps⟩ := sound
      rcases initSDK_cases env machine library with ⟨config, licensed, result⟩ |
        ⟨config, success, result⟩ | ⟨config, licensed, loses, result⟩ | ⟨config, result⟩
      · rw [sdkStep, result]
        exact ⟨prepared.address, prepared.connected⟩
      · have usable := (ready_on_success_iff machine library).mpr setup success
        obtain ⟨address, nonce, held, _⟩ := usable.genesis
        rw [result] at usable held
        rw [sdkStep, result]
        exact ⟨fun _ => prepared.address (.inr (by simp only at held; simp [held])),
          fun _ => usable.connected⟩
      · have absent : library.initialised = false := by
          by_contra before
          exact loses fun _ => keeps (by simpa using before)
        rw [sdkStep, result]
        exact ⟨prepared.address, fun initialised => by simp [absent] at initialised⟩
      · rw [sdkStep, result] at named ⊢
        exact initGenesis_prepared _ ⟨prepared.address, fun _ => rfl⟩ rfl named
  | call call =>
      constructor
      · intro held
        exact (apiCall_keepsAddress json call library.world).2 named (prepared.address held)
      · exact prepared.connected

theorem keeps_promise_of_sound (library : Library Server) (step : SdkStep)
    (prepared : Prepared library) (sound : SoundStep env json library step) :
    KeepsPromise env json library step := by
  cases step with
  | initSDK machine => exact (ready_on_success_iff machine library).mpr sound.2.1
  | call call =>
      intro initialised
      have address := prepared.address (.inl initialised)
      exact ⟨prepared.connected initialised, address,
        (apiCall_keepsAddress json call library.world).2 sound.1 address⟩

/-- A success leaves the library usable exactly where the setup is sound, and in a run
of sound steps no call after a success misses the connection or the address. -/
theorem usable_after_success_iff :
    (∀ (machine : Machine) (library : Library Server),
      ReadyOnSuccess env machine library ↔ SoundSetup env machine library) ∧
    ∀ (start : Library Server) (steps : List SdkStep), Fresh start →
      Run.Meets (sdkStep env json) (SoundStep env json) start steps →
        Run.Meets (sdkStep env json) (KeepsPromise env json) start steps := by
  refine ⟨ready_on_success_iff, fun start steps fresh sound => ?_⟩
  apply Run.meets_of_invariant _ _ _ Prepared sdkStep_prepared keeps_promise_of_sound start steps
    _ sound
  exact ⟨fun held => by simp [fresh.initialised, fresh.genesis] at held,
    fun initialised => by simp [fresh.initialised] at initialised⟩

/-- A complete configuration with the log switched off. -/
def quietMachine : Machine where
  ini := some ⟨text
    "[Config]\nDebugLog=0\n[MySQL]\nDBAddr=a\nDBPort=1\nDBUser=u\nDBPassWd=p\nDBName=d\n", []⟩
  logOpens := true
  licence := none
  macs := []
  md5 := fun _ => []
  connects := fun _ => true
  utf8 := true

def untouchedLibrary : Library (List (Option Json)) where
  config := ⟨0, [], 0, [], [], []⟩
  world := ⟨([], []), ⟨[], [], [], [], [], 0⟩, 0, [], 0, [], [], []⟩
  connected := false
  licensed := false
  genesis := none
  initialised := false

theorem quiet_log_skips_the_setup : ¬ ReadyOnSuccess scripted quietMachine untouchedLibrary := by
  rw [ready_on_success_iff]
  intro sound
  have accepted : readIni quietMachine.ini untouchedLibrary.config =
      some (1, ⟨0, text "a", 1, text "u", text "p", text "d"⟩) := by decide +kernel
  have usable := (sound _ _ accepted (by decide)).1 (by decide)
  exact Bool.false_ne_true usable.connected

end EChainLib.Node
