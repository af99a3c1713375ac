import EChainLib.Config.Bounds

/-! `ReadIni` against the file's own entries. -/

namespace EChainLib.Config

open EChainLib.Keys (Bytes cString text)

/-! The lines of any content. -/

/-- The first line, and the others. -/
def firstLines : Bytes → Bytes × List Bytes
  | [] => ([], [])
  | byte :: rest =>
      let (line, more) := firstLines rest
      if byte = chr '\n' then ([], line :: more) else (byte :: line, more)

def linesOf (content : Bytes) : List Bytes := (firstLines content).1 :: (firstLines content).2

theorem firstLines_join (content : Bytes) :
    (firstLines content).1 ++ tail (firstLines content).2 = content := by
  induction content with
  | nil => rfl
  | cons byte rest ih =>
      rw [firstLines]
      split_ifs with ends
      · rw [List.nil_append, tail, ih, ends]
      · rw [List.cons_append, ih]

theorem firstLines_clean (content : Bytes) : ∀ line ∈ linesOf content, chr '\n' ∉ line := by
  induction content with
  | nil => simp [linesOf, firstLines]
  | cons byte rest ih =>
      rw [linesOf, firstLines]
      split_ifs with ends
      · exact List.forall_mem_cons.mpr ⟨List.not_mem_nil, ih⟩
      · obtain ⟨first, others⟩ := List.forall_mem_cons.mp ih
        refine List.forall_mem_cons.mpr ⟨fun member => ?_, others⟩
        rcases List.mem_cons.mp member with same | inside
        · exact ends same.symm
        · exact first inside

/-! The keys. -/

def nameMySQL : Name := ⟨text "MySQL", by decide +kernel, by decide +kernel, by decide +kernel⟩

def nameConfig : Name := ⟨text "Config", by decide +kernel, by decide +kernel, by decide +kernel⟩

def keyDebugLog : Name := ⟨text "DebugLog", by decide +kernel, by decide +kernel, by decide +kernel⟩

def keyDBAddr : Name := ⟨text "DBAddr", by decide +kernel, by decide +kernel, by decide +kernel⟩

def keyDBPort : Name := ⟨text "DBPort", by decide +kernel, by decide +kernel, by decide +kernel⟩

def keyDBUser : Name := ⟨text "DBUser", by decide +kernel, by decide +kernel, by decide +kernel⟩

def keyDBPassWd : Name := ⟨text "DBPassWd", by decide +kernel, by decide +kernel, by decide +kernel⟩

def keyDBName : Name := ⟨text "DBName", by decide +kernel, by decide +kernel, by decide +kernel⟩

variable (content : Bytes)

/-- The value of the file's own entry. -/
def own (pSection pIdent : Name) : Option Bytes :=
  lookup pSection.bytes pIdent.bytes (linesOf content)

/-- The right-hand side of the entry that the lookup comes to. -/
def entry (pSection pIdent : Name) : Option Bytes :=
  seen pSection.bytes pIdent.bytes (visible pIdent.bytes (linesOf content))

theorem getIniString_entry (beyond : Bytes) (pSection pIdent : Name) :
    getIniString (some ⟨content, beyond⟩) pSection.bytes pIdent.bytes =
      outcome (entry content pSection pIdent) := by
  have joined : content = join (linesOf content) := (firstLines_join content).symm
  conv_lhs => rw [joined]
  exact getIniString_join beyond pSection pIdent (linesOf content) (firstLines_clean content)

/-! Numbers and texts. -/

def number (value : Bytes) : Int := if isHex value then toInt (strtol 16 value) else atoi value

/-- A right-hand side that is not made of blanks, and whose value fits a buffer of `size` bytes. -/
def Usable (size : Nat) (value : Bytes) : Prop :=
  (skipBlanks value = [] → value = []) ∧ (trimmed value).length < size

/-- The number read, 0 without an entry. -/
def numberRead (pSection pIdent : Name) : Int :=
  ((entry content pSection pIdent).map fun value => number (cString (trimmed value))).getD 0

/-- The text that `temp` holds after a lookup. -/
def lastRead (pIdent : Name) (temp : Bytes) : Bytes :=
  ((entry content nameMySQL pIdent).map fun value => cString (trimmed value)).getD temp

/-- What is copied of an entry that is found. -/
theorem copied_taken (size : Nat) (value : Bytes) {Value : Type} (read : Bytes → Value)
    (result : Value) :
    (match taken value with
      | .found value => (copied size value).map read
      | _ => none) = some result ↔
      Usable size value ∧ read (cString (trimmed value)) = result := by
  unfold taken Usable
  by_cases blank : skipBlanks value = [] ∧ value ≠ []
  · simp [blank]
  · have written : skipBlanks value = [] → value = [] := fun empty =>
      of_not_not fun there => blank ⟨empty, there⟩
    rw [if_neg blank]
    by_cases fits : (trimmed value).length < size
    · simp only [copied, if_pos fits, Option.map_some, Option.some.injEq]
      exact (and_iff_right ⟨written, fits⟩).symm
    · simp [copied, fits]

theorem getIniInteger_entry (beyond : Bytes) (pSection pIdent : Name) (result : Int) :
    getIniInteger (some ⟨content, beyond⟩) pSection.bytes pIdent.bytes = some result ↔
      (∀ value ∈ entry content pSection pIdent, Usable MAX_VALUE_BUFFER_SIZE value) ∧
        numberRead content pSection pIdent = result := by
  have converted : ∀ value, ((copied MAX_VALUE_BUFFER_SIZE value).bind fun szTempBuffer =>
      if 2 < szTempBuffer.length ∧ startsHex szTempBuffer then
        some (toInt (strtol 16 szTempBuffer))
      else some (atoi szTempBuffer)) = (copied MAX_VALUE_BUFFER_SIZE value).map number := by
    intro value
    cases copied MAX_VALUE_BUFFER_SIZE value with
    | none => rfl
    | some szTempBuffer =>
        simp only [Option.bind_some, Option.map_some, number, isHex, decide_eq_true_eq]
        split_ifs <;> rfl
  rw [getIniInteger, getIniString_entry, numberRead]
  cases entry content pSection pIdent with
  | none => simp [outcome]
  | some value =>
      have read := copied_taken MAX_VALUE_BUFFER_SIZE value number result
      simp only [outcome, Option.mem_some_iff, forall_eq', Option.map_some, Option.getD_some]
      rw [← read]
      cases found : taken value with
      | missing =>
          unfold taken at found
          split_ifs at found
      | negative => rfl
      | found value => exact (congrArg (· = some result) (converted value)).to_iff

theorem readTemp_entry (beyond : Bytes) (pIdent : Name) (ident : String)
    (spelled : text ident = pIdent.bytes) (temp result : Bytes) :
    readTemp (some ⟨content, beyond⟩) ident temp = some result ↔
      (∀ value ∈ entry content nameMySQL pIdent, Usable 1024 value) ∧
        lastRead content pIdent temp = result := by
  have section_spelled : text "MySQL" = nameMySQL.bytes := rfl
  rw [readTemp, spelled, section_spelled, getIniString_entry, lastRead]
  cases entry content nameMySQL pIdent with
  | none => simp [outcome]
  | some value =>
      have read := copied_taken 1024 value id result
      simp only [Option.map_id, id] at read
      simp only [outcome, Option.mem_some_iff, forall_eq', Option.map_some, Option.getD_some]
      rw [← read]
      cases found : taken value with
      | missing =>
          unfold taken at found
          split_ifs at found
      | negative => rfl
      | found value => rfl

/-! The configuration. -/

/-- The four texts are in the section with a value, and each field holds the value of its own
key, a missing number as 0. -/
structure HoldsOwn (config : SConfigPara) : Prop where
  debugLog : config.m_DebugLog = ((own content nameConfig keyDebugLog).map number).getD 0
  addr : own content nameMySQL keyDBAddr = some config.m_DBAddr ∧ config.m_DBAddr ≠ []
  port : config.m_DBPort = ((own content nameMySQL keyDBPort).map number).getD 0
  user : own content nameMySQL keyDBUser = some config.m_DBUser ∧ config.m_DBUser ≠ []
  passWd : own content nameMySQL keyDBPassWd = some config.m_DBPassWd ∧ config.m_DBPassWd ≠ []
  name : own content nameMySQL keyDBName = some config.m_DBName ∧ config.m_DBName ≠ []

/-- One of the four texts is not in the section, or has no value there. -/
def Lacks : Prop :=
  ∃ key ∈ [keyDBAddr, keyDBUser, keyDBPassWd, keyDBName], (own content nameMySQL key).getD [] = []

theorem holdsOwn_lacks {config : SConfigPara} (holds : HoldsOwn content config) :
    ¬ Lacks content := by
  rintro ⟨key, member, empty⟩
  simp only [List.mem_cons, List.not_mem_nil, or_false] at member
  rcases member with rfl | rfl | rfl | rfl
  · rw [holds.addr.1] at empty
    exact holds.addr.2 empty
  · rw [holds.user.1] at empty
    exact holds.user.2 empty
  · rw [holds.passWd.1] at empty
    exact holds.passWd.2 empty
  · rw [holds.name.1] at empty
    exact holds.name.2 empty

/-- The call returns 1 with the file's own values only, and -1 where a text is missing. -/
def Faithful : Option (Int × SConfigPara) → Prop
  | none => False
  | some (code, config) => (code = 1 → HoldsOwn content config) ∧ (Lacks content → code = -1)

theorem faithful_refused (config : SConfigPara) : Faithful content (some (-1, config)) :=
  ⟨fun refused => absurd refused (by decide), fun _ => rfl⟩

theorem faithful_accepted (config : SConfigPara) :
    Faithful content (some (1, config)) ↔ HoldsOwn content config :=
  ⟨fun faithful => faithful.1 rfl,
    fun holds => ⟨fun _ => holds, fun lacks => absurd lacks (holdsOwn_lacks content holds)⟩⟩

/-- A lookup, and a check of what it has read. -/
theorem faithful_lookup {Value : Type} {lookup : Option Value} {usable : Prop} {value : Value}
    (reads : ∀ result, lookup = some result ↔ usable ∧ value = result)
    (refused : Value → Prop) [DecidablePred refused]
    (config : Value → SConfigPara) (next : Value → Option (Int × SConfigPara)) :
    Faithful content (lookup.bind fun value =>
        if refused value then some (-1, config value) else next value) ↔
      usable ∧ (refused value ∨ Faithful content (next value)) := by
  cases lookup with
  | none =>
      refine iff_of_false id fun both => ?_
      cases (reads value).mpr ⟨both.1, rfl⟩
  | some found =>
      obtain ⟨fine, rfl⟩ := (reads found).mp rfl
      rw [Option.bind_some, and_iff_right fine]
      by_cases bad : refused value
      · rw [if_pos bad]
        exact iff_of_true (faithful_refused content _) (.inl bad)
      · rw [if_neg bad, or_iff_right bad]

/-- What a lookup comes to can be copied. -/
def Copies (size : Nat) (pSection pIdent : Name) : Prop :=
  ∀ value ∈ entry content pSection pIdent, Usable size value

/-- The entry that the lookup comes to has the number of the file's own entry; a missing one
counts as 0. -/
def NumberIsOwn (pSection pIdent : Name) : Prop :=
  match entry content pSection pIdent with
  | some value =>
      ((own content pSection pIdent).map number).getD 0 = number (cString (trimmed value))
  | none => ((own content pSection pIdent).map number).getD 0 = 0

/-- The entry that the lookup comes to is the file's own; without one, what `temp` holds is its
value. -/
def TextIsOwn (pIdent : Name) (temp : Bytes) : Prop :=
  match entry content nameMySQL pIdent with
  | some value => own content nameMySQL pIdent = some (cString (trimmed value))
  | none => own content nameMySQL pIdent = some temp

/-- Up to the first check that refuses what is read, every lookup comes to an entry that can be
copied; and where none refuses, each key's entry is the file's own. -/
def ReadsOwn : Prop :=
  let addr := lastRead content keyDBAddr []
  let user := lastRead content keyDBUser addr
  let passWd := lastRead content keyDBPassWd user
  let name := lastRead content keyDBName passWd
  Copies content MAX_VALUE_BUFFER_SIZE nameConfig keyDebugLog ∧
    (numberRead content nameConfig keyDebugLog < 0 ∨
    Copies content 1024 nameMySQL keyDBAddr ∧ (addr = [] ∨
    Copies content MAX_VALUE_BUFFER_SIZE nameMySQL keyDBPort ∧
      (numberRead content nameMySQL keyDBPort < 0 ∨
    Copies content 1024 nameMySQL keyDBUser ∧ (user = [] ∨
    Copies content 1024 nameMySQL keyDBPassWd ∧ (passWd = [] ∨
    Copies content 1024 nameMySQL keyDBName ∧ (name = [] ∨
      NumberIsOwn content nameConfig keyDebugLog ∧ TextIsOwn content keyDBAddr [] ∧
      NumberIsOwn content nameMySQL keyDBPort ∧ TextIsOwn content keyDBUser addr ∧
      TextIsOwn content keyDBPassWd user ∧ TextIsOwn content keyDBName passWd))))))

theorem numberIsOwn_iff (pSection pIdent : Name) :
    NumberIsOwn content pSection pIdent ↔
      numberRead content pSection pIdent = ((own content pSection pIdent).map number).getD 0 := by
  unfold NumberIsOwn numberRead
  cases entry content pSection pIdent with
  | none => exact eq_comm
  | some value => exact eq_comm

theorem textIsOwn_iff (pIdent : Name) (temp : Bytes) :
    TextIsOwn content pIdent temp ↔
      own content nameMySQL pIdent = some (lastRead content pIdent temp) := by
  unfold TextIsOwn lastRead
  cases entry content nameMySQL pIdent with
  | none => rfl
  | some value => rfl

/-- The values read are the file's own key by key. -/
theorem holdsOwn_iff {addr user passWd name : Bytes} (addressed : addr ≠ []) (used : user ≠ [])
    (passed : passWd ≠ []) (named : name ≠ []) (debugLog port : Int) :
    HoldsOwn content ⟨debugLog, addr, port, user, passWd, name⟩ ↔
      debugLog = ((own content nameConfig keyDebugLog).map number).getD 0 ∧
      own content nameMySQL keyDBAddr = some addr ∧
      port = ((own content nameMySQL keyDBPort).map number).getD 0 ∧
      own content nameMySQL keyDBUser = some user ∧
      own content nameMySQL keyDBPassWd = some passWd ∧
      own content nameMySQL keyDBName = some name := by
  constructor
  · rintro ⟨log, address, port, user, passWd, name⟩
    exact ⟨log, address.1, port, user.1, passWd.1, name.1⟩
  · rintro ⟨log, address, port, user, passWd, name⟩
    exact ⟨log, ⟨address, addressed⟩, port, ⟨user, used⟩, ⟨passWd, passed⟩, ⟨name, named⟩⟩

/-- `ReadIni` is faithful to the file exactly where it refuses in time, or comes to the
file's own entries. -/
theorem read_ini_iff (beyond : Bytes) (config : SConfigPara) :
    Faithful content (readIni (some ⟨content, beyond⟩) config) ↔ ReadsOwn content := by
  have debug_spelled : text "Config" = nameConfig.bytes := rfl
  have log_spelled : text "DebugLog" = keyDebugLog.bytes := rfl
  have section_spelled : text "MySQL" = nameMySQL.bytes := rfl
  have port_spelled : text "DBPort" = keyDBPort.bytes := rfl
  have temp (pIdent : Name) (ident : String) (spelled : text ident = pIdent.bytes) (last : Bytes) :=
    readTemp_entry content beyond pIdent ident spelled last
  unfold readIni ReadsOwn
  simp only [debug_spelled, log_spelled, section_spelled, port_spelled]
  refine (faithful_lookup content (getIniInteger_entry content beyond nameConfig keyDebugLog)
    (· < 0) _ _).trans ?_
  refine and_congr_right' (or_congr_right ?_)
  refine (faithful_lookup content (temp keyDBAddr "DBAddr" rfl []) (· = []) _ _).trans ?_
  refine and_congr_right' (or_congr_right' fun addressed => ?_)
  refine (faithful_lookup content (getIniInteger_entry content beyond nameMySQL keyDBPort)
    (· < 0) _ _).trans ?_
  refine and_congr_right' (or_congr_right ?_)
  refine (faithful_lookup content (temp keyDBUser "DBUser" rfl _) (· = []) _ _).trans ?_
  refine and_congr_right' (or_congr_right' fun used => ?_)
  refine (faithful_lookup content (temp keyDBPassWd "DBPassWd" rfl _) (· = []) _ _).trans ?_
  refine and_congr_right' (or_congr_right' fun passed => ?_)
  refine (faithful_lookup content (temp keyDBName "DBName" rfl _) (· = []) _ _).trans ?_
  refine and_congr_right' (or_congr_right' fun named => ?_)
  refine (faithful_accepted content _).trans ?_
  rw [holdsOwn_iff content addressed used passed named]
  simp only [numberIsOwn_iff, textIsOwn_iff]

/-- Without its own entries the address stands in for the user, the password and the name. -/
theorem missing_user_accepted :
    readIni (some ⟨text "[MySQL]\nDBAddr=a\n", []⟩) ⟨0, [], 0, [], [], []⟩ =
        some (1, ⟨0, text "a", 0, text "a", text "a", text "a"⟩) ∧
      ¬ Faithful (text "[MySQL]\nDBAddr=a\n")
        (readIni (some ⟨text "[MySQL]\nDBAddr=a\n", []⟩) ⟨0, [], 0, [], [], []⟩) := by
  have accepted : readIni (some ⟨text "[MySQL]\nDBAddr=a\n", []⟩) ⟨0, [], 0, [], [], []⟩ =
    some (1, ⟨0, text "a", 0, text "a", text "a", text "a"⟩) := by decide +kernel
  have absent : own (text "[MySQL]\nDBAddr=a\n") nameMySQL keyDBUser = none := by decide +kernel
  refine ⟨accepted, ?_⟩
  rw [accepted, faithful_accepted]
  intro holds
  have found := holds.user.1
  rw [absent] at found
  cases found

end EChainLib.Config
