import EChainLib.Support.LineBlock
import EChainLib.Node.Statements

/-! The bytes `HttpClient::http_request` writes to the socket, and a message as HTTP/1 reads it:
lines that end with CRLF, a header field on each, an empty line and the body. -/

namespace EChainLib.Http

open EChainLib.Keys (Bytes text text_eq text_append)
open EChainLib.Accounts (decimal)
open EChainLib.Strings (findIn)
open EChainLib.LineBlock (lines block Line)

/-- `HTTP_REQUEST`. -/
inductive SendType where
  | httpPost
  | httpGet
  deriving DecidableEq

/-- `request_data`. Only an `ip_` that `from_string` takes for an address comes so far. -/
def requestData (sendtype : SendType) (ip_ path content : Bytes) : Bytes :=
  match sendtype with
  | .httpPost =>
      text "POST " ++ path ++ text " HTTP/1.1\r\n" ++
      (text "Host: " ++ ip_ ++ text "\r\n") ++
      (text "Accept: " ++ text "*/*" ++ text "\r\n") ++
      -- this one ends without CRLF
      text "User-Agent: Mozilla/4.0 (compatible; MSIE 6.0; Windows NT 5.1; SV1)" ++
      text "Content-Type: application/json\r\n" ++
      (text "Content-Length: " ++ decimal content.length ++ text "\r\n") ++
      text "Connection: close\r\n" ++
      text "\r\n" ++
      content
  | .httpGet =>
      text "GET " ++ path ++ text " HTTP/1.0\r\n" ++
      (text "Host: " ++ ip_ ++ text "\r\n") ++
      text "Accept: */*\r\n" ++
      text "Connection: close\r\n\r\n"

/-! Messages. -/

structure Message where
  line : Bytes
  fields : List (Bytes × Bytes)
  body : Bytes
  deriving DecidableEq

def crlf : Bytes := text "\r\n"

def colon : Bytes := text ": "

/-- A name and a value. -/
def readField (line : Bytes) : Option (Bytes × Bytes) :=
  (findIn colon line).map fun ahead => (line.take ahead, line.drop (ahead + colon.length))

def readFields : List Bytes → Option (List (Bytes × Bytes))
  | [] => some []
  | line :: later => do return (← readField line) :: (← readFields later)

def readMessage (bytes : Bytes) : Option Message :=
  match lines crlf bytes with
  | some (line :: headers, body) => (readFields headers).map fun fields => ⟨line, fields, body⟩
  | _ => none

def agent : Bytes := text "Mozilla/4.0 (compatible; MSIE 6.0; Windows NT 5.1; SV1)"

/-- The message that is meant. -/
def message (sendtype : SendType) (ip_ path content : Bytes) : Message :=
  match sendtype with
  | .httpPost => {
      line := text "POST " ++ path ++ text " HTTP/1.1"
      fields := [(text "Host", ip_), (text "Accept", text "*/*"), (text "User-Agent", agent),
        (text "Content-Type", text "application/json"),
        (text "Content-Length", decimal content.length), (text "Connection", text "close")]
      body := content }
  | .httpGet => {
      line := text "GET " ++ path ++ text " HTTP/1.0"
      fields := [(text "Host", ip_), (text "Accept", text "*/*"), (text "Connection", text "close")]
      body := [] }

/-! Reading back what is written. -/

def fieldLine (field : Bytes × Bytes) : Bytes := field.1 ++ (colon ++ field.2)

def Message.bytes (m : Message) : Bytes := block crlf (m.line :: m.fields.map fieldLine) m.body

/-- Every line ends at its own CRLF, and every name at its own colon. -/
structure Message.Sound (m : Message) : Prop where
  line : Line crlf m.line
  fields : ∀ field ∈ m.fields, Line crlf (fieldLine field) ∧ ¬ colon <:+: field.1

theorem crlf_bytes : crlf = [13, 10] := by
  rw [crlf, text_eq]
  rfl

theorem colon_bytes : colon = [58, 32] := by
  rw [colon, text_eq]
  rfl

theorem crlf_unbordered : Separator.Unbordered crlf := by
  rw [crlf_bytes]
  decide

theorem colon_unbordered : Separator.Unbordered colon := by
  rw [colon_bytes]
  decide

theorem crlf_filled : crlf ≠ [] := by
  rw [crlf_bytes]
  decide

theorem colon_filled : colon ≠ [] := by
  rw [colon_bytes]
  decide

theorem readField_eq_some_iff (line : Bytes) (field : Bytes × Bytes) :
    readField line = some field ↔ line = fieldLine field ∧ ¬ colon <:+: field.1 := by
  constructor
  · intro read
    obtain ⟨ahead, found, rfl⟩ := Option.map_eq_some_iff.mp read
    obtain ⟨rest, begins⟩ := Strings.findIn_begins found
    refine ⟨?_, LineBlock.findIn_clean colon_filled found⟩
    rw [fieldLine, ← List.drop_drop, ← begins, List.drop_left, begins, List.take_append_drop]
  · rintro ⟨rfl, clean⟩
    have place := LineBlock.findIn_line colon_unbordered colon_filled field.1 field.2 clean
    rw [readField, fieldLine, place, Option.map_some, List.take_left, ← List.drop_drop,
      List.drop_left, List.drop_left]

theorem readFields_eq_some_iff (headers : List Bytes) (fields : List (Bytes × Bytes)) :
    readFields headers = some fields ↔
      headers = fields.map fieldLine ∧ ∀ field ∈ fields, ¬ colon <:+: field.1 := by
  induction headers generalizing fields with
  | nil => cases fields <;> simp [readFields]
  | cons line later ih =>
      constructor
      · intro read
        obtain ⟨field, first, continued⟩ := Option.bind_eq_some_iff.mp read
        obtain ⟨rest, others, shape⟩ := Option.bind_eq_some_iff.mp continued
        cases shape
        obtain ⟨line_shape, clean⟩ := (readField_eq_some_iff _ _).mp first
        obtain ⟨later_shape, cleans⟩ := (ih rest).mp others
        exact ⟨by rw [line_shape, later_shape, List.map_cons],
          List.forall_mem_cons.mpr ⟨clean, cleans⟩⟩
      · rintro ⟨shape, clean⟩
        cases fields with
        | nil => cases shape
        | cons field rest =>
            obtain ⟨line_shape, later_shape⟩ := List.cons.inj shape
            obtain ⟨first_clean, rest_clean⟩ := List.forall_mem_cons.mp clean
            have first := (readField_eq_some_iff _ _).mpr ⟨line_shape, first_clean⟩
            have others := (ih rest).mpr ⟨later_shape, rest_clean⟩
            rw [readFields, first, others]
            rfl

/-- The bytes that read as a message are the ones that it is written with. -/
theorem readMessage_eq_some_iff (bytes : Bytes) (m : Message) :
    readMessage bytes = some m ↔ bytes = m.bytes ∧ m.Sound := by
  have split := LineBlock.lines_eq_some_iff crlf_unbordered crlf_filled bytes
  constructor
  · intro read
    unfold readMessage at read
    split at read
    · rename_i line headers body cut
      obtain ⟨fields, read_fields, rfl⟩ := Option.map_eq_some_iff.mp read
      obtain ⟨whole, proper⟩ := (split _ _).mp cut
      obtain ⟨rfl, clean⟩ := (readFields_eq_some_iff _ _).mp read_fields
      exact ⟨whole, proper line (by simp), fun field member =>
        ⟨proper _ (List.mem_cons_of_mem _ (List.mem_map_of_mem member)), clean field member⟩⟩
    · cases read
  · rintro ⟨whole, sound⟩
    have cut := (split (m.line :: m.fields.map fieldLine) m.body).mpr
      ⟨whole, List.forall_mem_cons.mpr ⟨sound.line, fun line member => by
        obtain ⟨field, inside, rfl⟩ := List.mem_map.mp member
        exact (sound.fields field inside).1⟩⟩
    have read_fields := (readFields_eq_some_iff (m.fields.map fieldLine) m.fields).mpr
      ⟨rfl, fun field member => (sound.fields field member).2⟩
    simp only [readMessage, cut, read_fields, Option.map_some]

/-! The two requests. -/

/-- A line that begins without CR holds CRLF only behind that beginning. -/
theorem crlf_behind (front rest : Bytes) (absent : 13 ∉ front) :
    crlf <:+: front ++ rest ↔ crlf <:+: rest := by
  rw [← Strings.findIn_isSome_iff crlf_filled, ← Strings.findIn_isSome_iff crlf_filled, crlf_bytes,
    Strings.findIn_append 13 [10] front rest absent, Option.isSome_map]

/-- A text without CR, and not empty, is a line. -/
theorem line_of_plain {line : Bytes} (filled : line ≠ []) (plain : 13 ∉ line) : Line crlf line where
  filled := filled
  clean := by
    have inside := (crlf_behind line [] plain).not
    rw [List.append_nil] at inside
    exact inside.mpr fun nothing => crlf_filled (List.infix_nil.mp nothing)

theorem decimal_plain (value : Int) : 13 ∉ decimal value := fun member => by
  have kinds := Accounts.decimal_bytes value 13 member
  revert kinds
  decide

theorem fieldLine_plain {field : Bytes × Bytes} (name : 13 ∉ field.1) (value : 13 ∉ field.2) :
    Line crlf (fieldLine field) := by
  have mark : 13 ∉ colon := by
    rw [colon_bytes]
    decide
  have some_mark : colon ≠ [] := colon_filled
  refine line_of_plain (by simp [fieldLine, some_mark]) ?_
  simp only [fieldLine, List.mem_append, not_or]
  exact ⟨name, mark, value⟩

/-- With everything else plain, only the host can spoil a message. -/
theorem sound_iff (m : Message) (ip_ : Bytes) (others : List (Bytes × Bytes))
    (line : Line crlf m.line) (fields : m.fields = (text "Host", ip_) :: others)
    (plain : ∀ field ∈ others, Line crlf (fieldLine field) ∧ ¬ colon <:+: field.1) :
    m.Sound ↔ ¬ crlf <:+: ip_ := by
  have no_colon : ¬ colon <:+: text "Host" := by
    rw [colon_bytes, text_eq]
    decide
  have front : 13 ∉ text "Host" ++ colon := by
    rw [colon_bytes, text_eq]
    decide
  have host : fieldLine (text "Host", ip_) = text "Host" ++ colon ++ ip_ :=
    (List.append_assoc _ _ _).symm
  have filled : fieldLine (text "Host", ip_) ≠ [] := by
    simp [fieldLine, colon_filled]
  have clean := crlf_behind (text "Host" ++ colon) ip_ front
  rw [← host] at clean
  constructor
  · intro sound
    have first := (sound.fields (text "Host", ip_) (by simp [fields])).1.clean
    exact clean.not.mp first
  · intro absent
    refine ⟨line, fun field member => ?_⟩
    rw [fields, List.mem_cons] at member
    rcases member with rfl | later
    · exact ⟨⟨filled, clean.not.mpr absent⟩, no_colon⟩
    · exact plain field later

/-- The fields that do not depend on the request. -/
def literals : List (Bytes × Bytes) :=
  [(text "Accept", text "*/*"),
    (text "User-Agent", agent ++ text "Content-Type: application/json"),
    (text "Connection", text "close")]

theorem literals_sound : ∀ field ∈ literals,
    Line crlf (fieldLine field) ∧ ¬ colon <:+: field.1 := by
  have plain : ∀ field ∈ literals, 13 ∉ field.1 ∧ 13 ∉ field.2 ∧ ¬ colon <:+: field.1 := by
    decide +kernel
  intro field member
  obtain ⟨name, value, no_colon⟩ := plain field member
  exact ⟨fieldLine_plain name value, no_colon⟩

/-- What a POST request reads as: the type of the content is part of the agent. -/
def posted (ip_ path content : Bytes) : Message := {
  line := text "POST " ++ path ++ text " HTTP/1.1"
  fields := [(text "Host", ip_), (text "Accept", text "*/*"),
    (text "User-Agent", agent ++ text "Content-Type: application/json"),
    (text "Content-Length", decimal content.length), (text "Connection", text "close")]
  body := content }

theorem request_line {front back path : Bytes} (filled : front ≠ []) (plain_front : 13 ∉ front)
    (plain_back : 13 ∉ back) (plain : 13 ∉ path) : Line crlf (front ++ path ++ back) := by
  refine line_of_plain (by simp [filled]) ?_
  simp only [List.mem_append, not_or]
  exact ⟨⟨plain_front, plain⟩, plain_back⟩

section Written

variable (ip_ path content : Bytes)

/-- The field ends of the literals, written as the reader sees them. -/
theorem requestData_post :
    requestData .httpPost ip_ path content = (posted ip_ path content).bytes := by
  have line_end : text " HTTP/1.1\r\n" = text " HTTP/1.1" ++ crlf := text_append " HTTP/1.1" "\r\n"
  have host : text "Host: " = text "Host" ++ colon := text_append "Host" ": "
  have accept : text "Accept: " = text "Accept" ++ colon := text_append "Accept" ": "
  have user_agent : text "User-Agent: Mozilla/4.0 (compatible; MSIE 6.0; Windows NT 5.1; SV1)" =
      text "User-Agent" ++ colon ++ agent := by
    simp only [colon, agent, ← text_append, String.reduceAppend]
  have content_type : text "Content-Type: application/json\r\n" =
      text "Content-Type: application/json" ++ crlf :=
    text_append "Content-Type: application/json" "\r\n"
  have content_length : text "Content-Length: " = text "Content-Length" ++ colon :=
    text_append "Content-Length" ": "
  have connection : text "Connection: close\r\n" =
      text "Connection" ++ colon ++ text "close" ++ crlf := by
    simp only [colon, crlf, ← text_append, String.reduceAppend]
  have field_end : text "\r\n" = crlf := rfl
  rw [requestData, line_end, host, accept, user_agent, content_type, content_length, connection,
    field_end]
  simp [Message.bytes, posted, block, fieldLine]

theorem requestData_get :
    requestData .httpGet ip_ path content = (message .httpGet ip_ path content).bytes := by
  have line_end : text " HTTP/1.0\r\n" = text " HTTP/1.0" ++ crlf := text_append " HTTP/1.0" "\r\n"
  have host : text "Host: " = text "Host" ++ colon := text_append "Host" ": "
  have accept : text "Accept: */*\r\n" = text "Accept" ++ colon ++ text "*/*" ++ crlf := by
    simp only [colon, crlf, ← text_append, String.reduceAppend]
  have connection : text "Connection: close\r\n\r\n" =
      text "Connection" ++ colon ++ text "close" ++ crlf ++ crlf := by
    simp only [colon, crlf, ← text_append, String.reduceAppend]
  have field_end : text "\r\n" = crlf := rfl
  rw [requestData, line_end, host, accept, connection, field_end]
  simp [Message.bytes, message, block, fieldLine]

/-- The line break that a POST request lacks. -/
theorem length_message_post :
    (message .httpPost ip_ path content).bytes.length =
      (requestData .httpPost ip_ path content).length + crlf.length := by
  have mark : text "Content-Type: application/json" =
      text "Content-Type" ++ colon ++ text "application/json" := by
    simp only [colon, ← text_append, String.reduceAppend]
  rw [requestData_post]
  simp only [Message.bytes, message, posted, block, fieldLine, mark, List.map_cons, List.map_nil,
    List.flatMap_cons, List.flatMap_nil, List.length_append]
  omega

variable {ip_ path content}

theorem message_get_sound (plain : 13 ∉ path) :
    (message .httpGet ip_ path content).Sound ↔ ¬ crlf <:+: ip_ := by
  have front : text "GET " ≠ [] ∧ 13 ∉ text "GET " ∧ 13 ∉ text " HTTP/1.0" := by
    rw [text_eq, text_eq]
    decide
  refine sound_iff _ ip_ _ (request_line front.1 front.2.1 front.2.2 plain) rfl ?_
  intro field member
  rcases List.mem_cons.mp member with rfl | later
  · exact literals_sound _ (by simp [literals])
  · rw [List.mem_singleton.mp later]
    exact literals_sound _ (by simp [literals])

theorem posted_sound (plain : 13 ∉ path) :
    (posted ip_ path content).Sound ↔ ¬ crlf <:+: ip_ := by
  have front : text "POST " ≠ [] ∧ 13 ∉ text "POST " ∧ 13 ∉ text " HTTP/1.1" := by
    rw [text_eq, text_eq]
    decide
  have length_name : 13 ∉ text "Content-Length" ∧ ¬ colon <:+: text "Content-Length" := by
    rw [colon_bytes, text_eq]
    decide
  refine sound_iff _ ip_ _ (request_line front.1 front.2.1 front.2.2 plain) rfl ?_
  intro field member
  simp only [List.mem_cons, List.not_mem_nil, or_false] at member
  rcases member with rfl | rfl | rfl | rfl
  · exact literals_sound _ (by simp [literals])
  · exact literals_sound _ (by simp [literals])
  · exact ⟨fieldLine_plain length_name.1 (decimal_plain _), length_name.2⟩
  · exact literals_sound _ (by simp [literals])

/-- A POST request reads as one header line less, with the body whole. -/
theorem readMessage_post (plain : 13 ∉ path) (host : ¬ crlf <:+: ip_) :
    readMessage (requestData .httpPost ip_ path content) = some (posted ip_ path content) :=
  (readMessage_eq_some_iff _ _).mpr
    ⟨requestData_post ip_ path content, (posted_sound plain).mpr host⟩

end Written

/-- A request reads as the message that is meant exactly when it is a GET request to a host that
holds no CRLF. -/
theorem request_well_formed_iff (sendtype : SendType) (ip_ path content : Bytes)
    (plain : 13 ∉ path ∧ 10 ∉ path) :
    readMessage (requestData sendtype ip_ path content) =
        some (message sendtype ip_ path content) ↔
      sendtype = .httpGet ∧ ¬ crlf <:+: ip_ := by
  rw [readMessage_eq_some_iff]
  cases sendtype with
  | httpPost =>
      constructor
      -- the text is shorter than the message by one line break
      · rintro ⟨same, -⟩
        have longer := length_message_post ip_ path content
        have mark := List.length_pos_iff.mpr crlf_filled
        rw [← same] at longer
        omega
      · rintro ⟨get, -⟩
        cases get
  | httpGet =>
      rw [message_get_sound plain.1]
      exact ⟨fun read => ⟨rfl, read.2⟩, fun get => ⟨requestData_get ip_ path content, get.2⟩⟩

theorem history_request_well_formed :
    readMessage (requestData .httpGet (text "127.0.0.1") (text "getTransactionHistory?hash=00") []) =
      some (message .httpGet (text "127.0.0.1") (text "getTransactionHistory?hash=00") []) :=
  (request_well_formed_iff .httpGet _ _ _ ⟨by decide +kernel, by decide +kernel⟩).mpr
    ⟨rfl, by decide +kernel⟩

/-- A POST request has no header line for the type of its content. -/
theorem post_without_content_type :
    readMessage (requestData .httpPost (text "127.0.0.1") (text "submitTransaction") (text "1")) =
        some (posted (text "127.0.0.1") (text "submitTransaction") (text "1")) ∧
      posted (text "127.0.0.1") (text "submitTransaction") (text "1") ≠
        message .httpPost (text "127.0.0.1") (text "submitTransaction") (text "1") := by
  refine ⟨readMessage_post (by decide +kernel) (by decide +kernel), fun same => ?_⟩
  have count := congrArg (fun m : Message => m.fields.length) same
  cases count

end EChainLib.Http
