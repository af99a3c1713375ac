import EChainLib.Support.CStrings
import EChainLib.Ca.Request

/-! The readers of extension values access by access: `CA::GetExtensionData` and the request
form of `CA::GetHDAndDA`. An octet string has a NUL behind its last octet. -/

namespace EChainLib.Ca

open Keys (Bytes cString)
open CStrings (Fault strlen strcpy)

variable (lib : OpenSsl)

/-- The memory from `&octet_str->data[2]` on. -/
def valueMemory (data : Bytes) : Bytes := (data ++ [0]).drop 2

def getExtensionDataAt (extensions : List Extension) (oid : Oid) (len : Nat) :
    Except Fault (Except Failure Bytes) :=
  match extensions.find? fun ext => ext.object = oid with
  | none => return .error (.refused ("not contain this extension (" ++ oid ++ ")"))
  | some ext => do
      let length ← strlen 0 2 (valueMemory ext.data)
      if len < length then return .error (.refused "the length of buffer is too small")
      let data ← strcpy 0 len 2 0 (valueMemory ext.data)
      return .ok data

/-- The `strcpy` of a request's extension, whose length is kept in a `uint32_t`. -/
def storeTextAt (len : Nat) (data : Bytes) (out : String) : Except Fault (Except Failure Bytes) := do
  let data_len := (← strlen 0 2 (valueMemory data)) % 2 ^ 32
  if len < data_len then return .error (.refused out)
  let text ← strcpy 0 len 2 0 (valueMemory data)
  return .ok text

def requestLoopAt (hard_len id_len : Nat) : List Extension → Bytes → Bytes →
    Except Fault (Except Failure (Bytes × Bytes))
  | [], hardware_address, node_id => return .ok (hardware_address, node_id)
  | ext :: rest, hardware_address, node_id =>
      if ext.object = nodeId then do
        match ← storeTextAt id_len ext.data "node id is invalid" with
        | .error failure => return .error failure
        | .ok node_id => requestLoopAt hard_len id_len rest hardware_address node_id
      else if ext.object = hardAddress then do
        match ← storeTextAt hard_len ext.data "hardware address is invalid" with
        | .error failure => return .error failure
        | .ok hardware_address => requestLoopAt hard_len id_len rest hardware_address node_id
      else requestLoopAt hard_len id_len rest hardware_address node_id

def getReqHDAndDAAt (req_get_pubkey : Bool) (req : X509Req lib.toKeyTypes) (hard_len id_len : Nat)
    (hardware_address node_id : Bytes) : Except Fault (Except Failure (Bytes × Bytes)) :=
  let i := lib.reqVerify req req.pubkey
  if !req_get_pubkey then return .error (.refused "unpack public key failed")
  else if i < 0 then return .error (.refused "signature verification problems")
  else if i = 0 then return .error (.refused "signature did not match the certificate request")
  else requestLoopAt hard_len id_len req.extensions hardware_address node_id

/-- Every access is inside, and a value that does not fit is refused. -/
structure InBounds {Value : Type} (call : Except Fault (Except Failure Value)) (fits : Prop) :
    Prop where
  inside : ∃ result, call = .ok result
  rejects : ¬ fits → ∃ failure, call = .ok (.error failure)

/-! What the readers do with one octet string. -/

/-- The text behind the presumed header. -/
def valueText (data : Bytes) : Bytes := cString (data.drop 2)

/-- The request's reader keeps the length in a `uint32_t`. -/
def TooLong (len : Nat) (data : Bytes) : Prop := len < (valueText data).length % 2 ^ 32

instance (len : Nat) (data : Bytes) : Decidable (TooLong len data) := Nat.decLt _ _

theorem valueMemory_short (data : Bytes) (short : data.length < 2) : valueMemory data = [] := by
  rw [valueMemory, List.drop_eq_nil_iff, List.length_append, List.length_singleton]
  omega

theorem valueMemory_eq (data : Bytes) (long : 2 ≤ data.length) :
    ∃ behind, valueMemory data = valueText data ++ 0 :: behind := by
  have start : valueMemory data = data.drop 2 ++ [0] := List.drop_append_of_le_length long
  have split : valueText data ++ (data.drop 2).dropWhile (· ≠ 0) = data.drop 2 :=
    List.takeWhile_append_dropWhile
  rw [start, ← split]
  cases rest : (data.drop 2).dropWhile (· ≠ 0) with
  | nil => exact ⟨[], by rw [List.append_nil]⟩
  | cons c behind =>
      have first := List.head?_dropWhile_not (fun c : UInt8 => decide (c ≠ 0)) (data.drop 2)
      rw [rest] at first
      obtain rfl : c = 0 := by simpa using first
      exact ⟨behind ++ [0], by rw [List.append_assoc, List.cons_append]⟩

theorem valueText_solid (data : Bytes) : (0 : UInt8) ∉ valueText data := Keys.cString_clean _

theorem strlen_value (data : Bytes) (long : 2 ≤ data.length) :
    strlen (0 : UInt8) 2 (valueMemory data) = .ok (valueText data).length := by
  obtain ⟨behind, memory⟩ := valueMemory_eq data long
  rw [memory, CStrings.strlen_eq _ _ (valueText_solid data)]

theorem strcpy_value (data : Bytes) (long : 2 ≤ data.length) (len : Nat) :
    strcpy (0 : UInt8) len 2 0 (valueMemory data) =
      if (valueText data).length < len then .ok (valueText data)
      else .error (.writeOutside len) := by
  obtain ⟨behind, memory⟩ := valueMemory_eq data long
  rw [memory]
  split_ifs with room
  · exact CStrings.strcpy_fits _ _ (valueText_solid data) len 2 0 (by omega)
  · exact CStrings.strcpy_overflows _ _ (valueText_solid data) len 2 0 (Nat.zero_le _) (by omega)

theorem storeTextAt_eq (len : Nat) (data : Bytes) (out : String) :
    storeTextAt len data out =
      if data.length < 2 then .error (.readOutside 2)
      else if TooLong len data then .ok (.error (.refused out))
      else if (valueText data).length < len then .ok (.ok (valueText data))
      else .error (.writeOutside len) := by
  by_cases short : data.length < 2
  · rw [if_pos short, storeTextAt, valueMemory_short data short]
    rfl
  · have length := strlen_value data (by omega)
    have copied := strcpy_value data (by omega) len
    rw [if_neg short, storeTextAt, length, copied]
    show (if TooLong len data then
      (.ok (.error (.refused out)) : Except Fault (Except Failure Bytes)) else _) = _
    split_ifs <;> rfl

theorem getExtensionDataAt_eq (extensions : List Extension) (oid : Oid) (len : Nat)
    (ext : Extension) (found : (extensions.find? fun ext => ext.object = oid) = some ext) :
    getExtensionDataAt extensions oid len =
      if ext.data.length < 2 then .error (.readOutside 2)
      else if len < (valueText ext.data).length then
        .ok (.error (.refused "the length of buffer is too small"))
      else if (valueText ext.data).length < len then .ok (.ok (valueText ext.data))
      else .error (.writeOutside len) := by
  rw [getExtensionDataAt, found]
  dsimp only
  by_cases short : ext.data.length < 2
  · rw [if_pos short, valueMemory_short ext.data short]
    rfl
  · have length := strlen_value ext.data (by omega)
    have copied := strcpy_value ext.data (by omega) len
    rw [if_neg short, length, copied]
    show (if len < (valueText ext.data).length then
      (.ok (.error (.refused "the length of buffer is too small")) :
        Except Fault (Except Failure Bytes)) else _) = _
    split_ifs <;> rfl

/-! The certificate's reader. -/

/-- The octet string has its header, and its text is not just as long as the buffer. -/
structure CopiedWhole (len : Nat) (data : Bytes) : Prop where
  header : 2 ≤ data.length
  exact : (valueText data).length ≠ len

theorem getExtensionData_inBounds_iff (extensions : List Extension) (oid : Oid) (len : Nat) :
    InBounds (getExtensionDataAt extensions oid len)
        (∀ ext, (extensions.find? fun ext => ext.object = oid) = some ext →
          (valueText ext.data).length < len) ↔
      ∀ ext, (extensions.find? fun ext => ext.object = oid) = some ext →
        CopiedWhole len ext.data := by
  cases found : extensions.find? fun ext => ext.object = oid with
  | none =>
      have refused : getExtensionDataAt extensions oid len =
          .ok (.error (.refused ("not contain this extension (" ++ oid ++ ")"))) := by
        rw [getExtensionDataAt, found]
        rfl
      exact iff_of_true ⟨⟨_, refused⟩, fun _ => ⟨_, refused⟩⟩ (by simp)
  | some ext =>
      have outcome := getExtensionDataAt_eq extensions oid len ext found
      simp only [Option.some.injEq, forall_eq']
      constructor
      · rintro ⟨⟨result, returned⟩, _⟩
        rw [outcome] at returned
        split_ifs at returned with short long room
        · exact ⟨by omega, by omega⟩
        · exact ⟨by omega, by omega⟩
      · rintro ⟨header, exactly⟩
        rw [if_neg (by omega)] at outcome
        by_cases long : len < (valueText ext.data).length
        · rw [if_pos long] at outcome
          exact ⟨⟨_, outcome⟩, fun _ => ⟨_, outcome⟩⟩
        · have room : (valueText ext.data).length < len := by omega
          rw [if_neg long, if_pos room] at outcome
          exact ⟨⟨_, outcome⟩, fun tight => absurd room tight⟩

/-! The request's reader. -/

/-- The buffer that the value under an OID goes to. -/
def bufferOf (hard_len id_len : Nat) (object : Oid) : Option Nat :=
  if object = nodeId then some id_len
  else if object = hardAddress then some hard_len
  else none

def refusedExtension (hard_len id_len : Nat) (ext : Extension) : Bool :=
  match bufferOf hard_len id_len ext.object with
  | none => false
  | some len => TooLong len ext.data

/-- The extensions up to the first that is refused, with which the loop ends. -/
def visited (hard_len id_len : Nat) : List Extension → List Extension
  | [] => []
  | ext :: rest =>
      if refusedExtension hard_len id_len ext then [ext] else ext :: visited hard_len id_len rest

/-- The octet string has its header, and its text is shorter than the buffer or refused. -/
structure StoredWhole (len : Nat) (data : Bytes) : Prop where
  header : 2 ≤ data.length
  room : (valueText data).length < len ∨ TooLong len data

variable {hard_len id_len : Nat}

theorem requestLoopAt_other (ext : Extension) (rest : List Extension)
    (hardware_address node_id : Bytes) (other : bufferOf hard_len id_len ext.object = none) :
    requestLoopAt hard_len id_len (ext :: rest) hardware_address node_id =
      requestLoopAt hard_len id_len rest hardware_address node_id := by
  unfold bufferOf at other
  split_ifs at other with node hard
  rw [requestLoopAt, if_neg node, if_neg hard]

/-- The two buffers are filled alike. -/
theorem requestLoopAt_value (ext : Extension) (rest : List Extension)
    (hardware_address node_id : Bytes) (len : Nat)
    (own : bufferOf hard_len id_len ext.object = some len) :
    ∃ out hard node, requestLoopAt hard_len id_len (ext :: rest) hardware_address node_id =
      if ext.data.length < 2 then .error (.readOutside 2)
      else if TooLong len ext.data then .ok (.error (.refused out))
      else if (valueText ext.data).length < len then requestLoopAt hard_len id_len rest hard node
      else .error (.writeOutside len) := by
  unfold bufferOf at own
  split_ifs at own with is_node is_hard
  · obtain rfl := Option.some.inj own
    refine ⟨"node id is invalid", hardware_address, valueText ext.data, ?_⟩
    rw [requestLoopAt, if_pos is_node, storeTextAt_eq]
    split_ifs <;> rfl
  · obtain rfl := Option.some.inj own
    refine ⟨"hardware address is invalid", valueText ext.data, node_id, ?_⟩
    rw [requestLoopAt, if_neg is_node, if_pos is_hard, storeTextAt_eq]
    split_ifs <;> rfl

/-- Without a fault the loop has met no octet string that it cannot handle. -/
theorem requestLoopAt_inside_iff (exts : List Extension) (hardware_address node_id : Bytes) :
    (∃ result, requestLoopAt hard_len id_len exts hardware_address node_id = .ok result) ↔
      ∀ ext ∈ visited hard_len id_len exts, ∀ len, bufferOf hard_len id_len ext.object = some len →
        StoredWhole len ext.data := by
  induction exts generalizing hardware_address node_id with
  | nil => exact iff_of_true ⟨_, rfl⟩ (by simp [visited])
  | cons ext rest ih =>
      cases own : bufferOf hard_len id_len ext.object with
      | none =>
          have passed : refusedExtension hard_len id_len ext = false := by
            simp [refusedExtension, own]
          rw [requestLoopAt_other ext rest _ _ own, ih, visited, if_neg (by simp [passed])]
          simp [own]
      | some len =>
          obtain ⟨out, hard, node, step⟩ :=
            requestLoopAt_value ext rest hardware_address node_id len own
          have refused : refusedExtension hard_len id_len ext = true ↔ TooLong len ext.data := by
            simp [refusedExtension, own]
          rw [step]
          by_cases short : ext.data.length < 2
          · have here : ext ∈ visited hard_len id_len (ext :: rest) := by
              rw [visited]
              split_ifs <;> simp
            rw [if_pos short]
            refine iff_of_false (by simp) fun all => ?_
            have header := (all ext here len own).header
            omega
          · rw [if_neg short]
            by_cases long : TooLong len ext.data
            · have whole : StoredWhole len ext.data := ⟨by omega, .inr long⟩
              rw [if_pos long, visited, if_pos (refused.mpr long)]
              exact iff_of_true ⟨_, rfl⟩ (by simp [own, whole])
            · rw [if_neg long, visited, if_neg (fun stopped => long (refused.mp stopped))]
              by_cases room : (valueText ext.data).length < len
              · have whole : StoredWhole len ext.data := ⟨by omega, .inl room⟩
                rw [if_pos room, ih]
                simp [own, whole]
              · rw [if_neg room]
                refine iff_of_false (by simp) fun all => ?_
                exact (all ext List.mem_cons_self len own).room.elim room long

/-- Success is that every value fits. -/
theorem requestLoopAt_fits (exts : List Extension) (hardware_address node_id : Bytes)
    (texts : Bytes × Bytes)
    (success : requestLoopAt hard_len id_len exts hardware_address node_id = .ok (.ok texts)) :
    ∀ ext ∈ exts, ∀ len, bufferOf hard_len id_len ext.object = some len →
      (valueText ext.data).length < len := by
  induction exts generalizing hardware_address node_id with
  | nil => simp
  | cons ext rest ih =>
      cases own : bufferOf hard_len id_len ext.object with
      | none =>
          rw [requestLoopAt_other ext rest _ _ own] at success
          simpa [own] using ih _ _ success
      | some len =>
          obtain ⟨out, hard, node, step⟩ :=
            requestLoopAt_value ext rest hardware_address node_id len own
          rw [step] at success
          split_ifs at success with short long room
          · cases success
          · simpa [own, room] using ih _ _ success

variable (hard_len id_len)

theorem getReqHDAndDA_inBounds_iff (req_get_pubkey : Bool) (req : X509Req lib.toKeyTypes)
    (hardware_address node_id : Bytes) :
    InBounds (getReqHDAndDAAt lib req_get_pubkey req hard_len id_len hardware_address node_id)
        (∀ ext ∈ req.extensions, ∀ len, bufferOf hard_len id_len ext.object = some len →
          (valueText ext.data).length < len) ↔
      req_get_pubkey = false ∨ lib.reqVerify req req.pubkey ≤ 0 ∨
        ∀ ext ∈ visited hard_len id_len req.extensions, ∀ len,
          bufferOf hard_len id_len ext.object = some len → StoredWhole len ext.data := by
  rw [← requestLoopAt_inside_iff req.extensions hardware_address node_id]
  rw [← or_assoc]
  by_cases unverified : req_get_pubkey = false ∨ lib.reqVerify req req.pubkey ≤ 0
  · have refused : ∃ failure, getReqHDAndDAAt lib req_get_pubkey req hard_len id_len
        hardware_address node_id = .ok (.error failure) := by
      simp only [getReqHDAndDAAt]
      split_ifs
      · exact ⟨_, rfl⟩
      · exact ⟨_, rfl⟩
      · exact ⟨_, rfl⟩
      · rcases unverified with packed | refused
        · simp [packed] at *
        · omega
    obtain ⟨failure, returned⟩ := refused
    exact iff_of_true ⟨⟨_, returned⟩, fun _ => ⟨failure, returned⟩⟩ (.inl unverified)
  · have looped : getReqHDAndDAAt lib req_get_pubkey req hard_len id_len hardware_address node_id =
        requestLoopAt hard_len id_len req.extensions hardware_address node_id := by
      simp only [not_or, Bool.not_eq_false, not_le] at unverified
      simp only [getReqHDAndDAAt, unverified.1, Bool.not_true, Bool.false_eq_true, if_false]
      rw [if_neg (by omega), if_neg (by omega)]
    rw [looped]
    constructor
    · exact fun bounded => .inr bounded.inside
    · rintro (stopped | ⟨result, returned⟩)
      · exact absurd stopped unverified
      · refine ⟨⟨result, returned⟩, fun tight => ?_⟩
        cases result with
        | error failure => exact ⟨failure, returned⟩
        | ok texts => exact absurd (requestLoopAt_fits _ _ _ texts returned) tight

/-- Extension values are copied in bounds as far as their octet strings have two octets at
least and no text is just as long as its buffer. -/
theorem extension_values_bounded_iff (extensions : List Extension) (oid : Oid) (len : Nat)
    (req_get_pubkey : Bool) (req : X509Req lib.toKeyTypes) (hardware_address node_id : Bytes) :
    (InBounds (getExtensionDataAt extensions oid len)
        (∀ ext, (extensions.find? fun ext => ext.object = oid) = some ext →
          (valueText ext.data).length < len) ↔
      ∀ ext, (extensions.find? fun ext => ext.object = oid) = some ext →
        CopiedWhole len ext.data) ∧
    (InBounds (getReqHDAndDAAt lib req_get_pubkey req hard_len id_len hardware_address node_id)
        (∀ ext ∈ req.extensions, ∀ len, bufferOf hard_len id_len ext.object = some len →
          (valueText ext.data).length < len) ↔
      req_get_pubkey = false ∨ lib.reqVerify req req.pubkey ≤ 0 ∨
        ∀ ext ∈ visited hard_len id_len req.extensions, ∀ len,
          bufferOf hard_len id_len ext.object = some len → StoredWhole len ext.data) :=
  ⟨getExtensionData_inBounds_iff extensions oid len,
    getReqHDAndDA_inBounds_iff lib hard_len id_len req_get_pubkey req hardware_address node_id⟩

/-- Ten characters for the `char ca_status[10]` of `GetCAEnabled`, and an empty octet string. -/
theorem terminator_written_outside :
    getExtensionDataAt [⟨useCa, false, 0x16 :: 0x0a :: List.replicate 10 0x74⟩] useCa 10 =
        .error (.writeOutside 10) ∧
      getExtensionDataAt [⟨useCa, false, []⟩] useCa 10 = .error (.readOutside 2) ∧
      ¬ InBounds (getExtensionDataAt [⟨useCa, false, []⟩] useCa 10) True := by
  have outside : getExtensionDataAt [⟨useCa, false, []⟩] useCa 10 = .error (.readOutside 2) := by
    decide
  refine ⟨by decide, outside, ?_⟩
  rintro ⟨⟨result, returned⟩, _⟩
  rw [outside] at returned
  cases returned

variable {lib hard_len id_len}

/-! The readers that issuing and checking certificates use say `undefined` for a fault. -/

theorem getExtensionData_at (x509 : X509 lib.toKeyTypes) (oid : Oid) (len : Nat) :
    getExtensionData x509 oid len =
      match getExtensionDataAt x509.extensions oid len with
      | .ok result => result
      | .error _ => .error .undefined := by
  unfold getExtensionData
  cases found : x509.extensions.find? fun ext => ext.object = oid with
  | none =>
      rw [getExtensionDataAt, found]
      rfl
  | some ext =>
      rw [getExtensionDataAt_eq _ oid len ext found]
      dsimp only
      rw [commentValue, ← valueText]
      by_cases short : ext.data.length < 2
      · rw [if_pos short, if_pos short]
      · rw [if_neg short, if_neg short]
        dsimp only
        by_cases long : len < (valueText ext.data).length
        · rw [if_pos long, if_pos long]
        · rw [if_neg long, if_neg long]
          by_cases room : (valueText ext.data).length < len
          · rw [if_neg (by omega), if_pos room]
          · rw [if_pos (by omega), if_neg room]

/-- Octet strings below 2^32 octets, as an `int` counts them. -/
theorem storeText_at (len : Nat) (data : Bytes) (out : String) (counted : data.length < 2 ^ 32) :
    (storeText len data out).map Subtype.val =
      match storeTextAt len data out with
      | .ok result => result
      | .error _ => .error .undefined := by
  have shorter : (valueText data).length < 2 ^ 32 := by
    have taken := (List.takeWhile_sublist (fun c : UInt8 => decide (c ≠ 0))
      (l := data.drop 2)).length_le
    rw [List.length_drop] at taken
    have text : (valueText data).length ≤ data.length - 2 := taken
    omega
  have long : TooLong len data ↔ len < (valueText data).length := by
    rw [TooLong, Nat.mod_eq_of_lt shorter]
  rw [storeTextAt_eq, storeText]
  by_cases short : data.length < 2
  · rw [if_pos short, if_pos short]
    rfl
  · rw [if_neg short, if_neg short]
    by_cases refused : len < (cString (data.drop 2)).length
    · rw [if_pos refused, if_pos (long.mpr refused)]
      rfl
    · rw [if_neg refused, if_neg fun other => refused (long.mp other)]
      by_cases room : (cString (data.drop 2)).length < len
      · have fits : (valueText data).length < len := room
        rw [dif_pos room, if_pos fits]
        rfl
      · have tight : ¬ (valueText data).length < len := room
        rw [dif_neg room, if_neg tight]
        rfl

end EChainLib.Ca
