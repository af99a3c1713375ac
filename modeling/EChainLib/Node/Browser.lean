import EChainLib.Support.Windows
import EChainLib.Support.Effects
import EChainLib.Node.Pages
import EChainLib.Node.ListChain

/-! `EChain_QueryBlockBrowserInfo`, which lists the blocks of the chain from the highest
one down, page by page. -/

namespace EChainLib.Node.Browser

open EChainLib.Keys (Bytes cString text)
open EChainLib.Windows (window pages)
open EChainLib.Effects (bind_of_ok ok_of_bind)

/-- The GET paths of the call. -/
inductive Request where
  | getModulesStatus
  | getLedger (seq : Int)
  | getTransactionHistory (ledger_seq : Int)

/-- The node and what the call uses of the machine. A response is the `context` of the
message. -/
structure Outside (Server : Type) where
  http : Request → Server → Bytes × Server
  json : JsonLib
  /-- `asDouble`, and `transTimeToString` on the number: `none` where `localtime_r` does
  not know the time, and the text is left as it was. -/
  closeTime : Json → Except Stop (Option Bytes)

/-- How the call ends, other than by returning 1. -/
inductive End where
  | returned (code : Int)
  | thrown (stop : Stop)
  | undefined

abbrev Call (Server : Type) := EStateM End Server

variable {Server : Type} (outside : Outside Server)

def httpRequest (request : Request) : Call Server Bytes := do
  let (context, server) := outside.http request (← get)
  set server
  return context

def check {Value : Type} : Except Stop Value → Call Server Value
  | .ok value => return value
  | .error stop => throw (.thrown stop)

def inInt {Value : Type} : Option Value → Call Server Value
  | some value => return value
  | none => throw .undefined

/-- `reader.parse(rec.context.c_str(), rep)`. -/
def parse (code : Int) (context : Bytes) : Call Server Json :=
  match outside.json.parse (cString context) with
  | some rep => return rep
  | none => throw (.returned code)

def parseBlockHeightFromJson (context : Bytes) : Call Server Int := do
  let rep ← parse outside (-1) context
  if ← check (rep.isMember "ledger_manager") then
    check do (← (← rep.get "ledger_manager").get "ledger_sequence").asInt
  else
    throw (.returned (-1))

/-- The first and the last block of the page, and the number of pages. -/
def pageBounds (iBlockHeight curPage numsPerPage : Int) : Option (Int × Int × Int) := do
  let iStartSeq ← int32 (iBlockHeight - (← int32 ((← int32 (curPage - 1)) * numsPerPage)))
  let iEndSeq ←
    if iStartSeq ≥ numsPerPage then
      int32 ((← int32 (iBlockHeight - (← int32 (curPage * numsPerPage)))) + 1)
    else some 1
  let iTotalPage ←
    if numsPerPage = 0 then none
    else int32 ((← int32 (iBlockHeight - 1)).tdiv numsPerPage + 1)
  return (iStartSeq, iEndSeq, iTotalPage)

structure Block where
  ledgerSeq : Int
  blockAge : Bytes
  blockhash : Json
  blockSize : Int32

/-- `blockHash` and `szCloseTime`, which the rounds of the loop share. -/
structure Carried where
  blockHash : Json
  szCloseTime : Bytes

def BLOCKHEADER : Int32 := 686

/-- `rep["result"]["header"][key]`. -/
def headerField (key : String) (rep : Json) : Except Stop Json := do
  (← (← rep.get "result").get "header").get key

/-- The fields of a response to `getLedger`; without a header the variables stay. -/
def readHeader (rep : Json) (carried : Carried) : Except Stop Carried := do
  if ← rep.hasResult "header" then
    let blockHash ← (← headerField "hash" rep).asString
    let time ← outside.closeTime (← headerField "close_time" rep)
    return ⟨.str blockHash, time.getD carried.szCloseTime⟩
  else
    return carried

/-- One round of the loop. -/
def blockRound (i : Int) (carried : Carried) : Call Server (Block × Carried) := do
  let rep ← parse outside (-6) (← httpRequest outside (.getLedger i))
  let (present, code) ← check rep.errorCode
  if present ∧ code = 0 then
    let carried ← check (readHeader outside rep carried)
    let context ← httpRequest outside (.getTransactionHistory i)
    let rep ← parse outside (-6) context
    let (present, code) ← check rep.errorCode
    let iBlockSize :=
      if present ∧ code = 0 then Int32.ofNat context.length + BLOCKHEADER else BLOCKHEADER
    return (⟨i, carried.szCloseTime, carried.blockHash, iBlockSize⟩, carried)
  else
    throw (.returned (-6))

/-- The loop from `i` down, over as many blocks as are left. -/
def blockLoop : Nat → Int → Carried → Call Server (List Block)
  | 0, _, _ => return []
  | left + 1, i, carried => do
      let (block, carried) ← blockRound outside i carried
      let rest ← blockLoop left (i - 1) carried
      return block :: rest

def blockJson (curPage numsPerPage : Int32) (iBlockHeight iTotalPage : Int)
    (blocks : List Block) : Bytes :=
  let item (block : Block) : Json := .obj
    [("ledgerSeq", .int block.ledgerSeq), ("blockAge", .str block.blockAge),
      ("blockhash", block.blockhash), ("blockSize", .int block.blockSize.toInt)]
  outside.json.toStyledString (.obj
    [("curPage", .int curPage.toInt), ("numsPerPage", .int numsPerPage.toInt),
      ("totalNums", .int iBlockHeight), ("totalPage", .int iTotalPage),
      ("list", if blocks.isEmpty then .null else .arr (blocks.map item)), ("result", .int 1)])

/-- The listed blocks and the text, where the call returns 1. -/
def eChainQueryBlockBrowserInfo (curPage numsPerPage : Int32) :
    Call Server (List Block × Bytes) := do
  let iBlockHeight ← parseBlockHeightFromJson outside (← httpRequest outside .getModulesStatus)
  let (iStartSeq, iEndSeq, iTotalPage) ←
    inInt (pageBounds iBlockHeight curPage.toInt numsPerPage.toInt)
  let blocks ← blockLoop outside (iStartSeq + 1 - iEndSeq).toNat iStartSeq ⟨.null, []⟩
  return (blocks, blockJson outside curPage numsPerPage iBlockHeight iTotalPage blocks)

/-! The blocks of a page. -/

/-- The blocks from `height` down to 1. -/
def chain (height : Nat) : List Int :=
  (List.range height).map fun index : Nat => (height : Int) - (index : Int)

/-- The blocks of a page, counted from 1. -/
def pageBlocks (height : Nat) (curPage numsPerPage : Int32) : List Int :=
  window numsPerPage.toInt.toNat (curPage.toInt - 1).toNat (chain height)

/-- So many blocks from `i` down. -/
def blocksFrom : Nat → Int → List Int
  | 0, _ => []
  | left + 1, i => i :: blocksFrom left (i - 1)

theorem blocksFrom_window (height left start : Nat) (inside : start + left ≤ height) :
    blocksFrom left (height - start : Int) = ((chain height).drop start).take left := by
  induction left generalizing start with
  | zero => simp [blocksFrom]
  | succ left ih =>
      have next : ((height : Int) - start - 1) = (height : Int) - (start + 1 : Nat) := by omega
      have here : start < (chain height).length := by
        rw [chain, List.length_map, List.length_range]
        omega
      rw [blocksFrom, next, ih (start + 1) (by omega), List.drop_eq_getElem_cons here,
        List.take_succ_cons]
      simp [chain]

/-- The bounds of a page whose offset can be counted. -/
theorem pageBounds_eq (height : Nat) (curPage numsPerPage : Int32) (some_blocks : 1 ≤ height)
    (few : height < 2 ^ 31) (page : 1 ≤ curPage.toInt) (size : 1 ≤ numsPerPage.toInt)
    (offset : (curPage.toInt - 1) * numsPerPage.toInt < 2 ^ 31) :
    ∃ iStartSeq iEndSeq, pageBounds height curPage.toInt numsPerPage.toInt =
        some (iStartSeq, iEndSeq, ((pages numsPerPage.toInt.toNat height : Nat) : Int)) ∧
      blocksFrom (iStartSeq + 1 - iEndSeq).toNat iStartSeq = pageBlocks height curPage numsPerPage := by
  have page_high := curPage.toInt_lt
  have size_high := numsPerPage.toInt_lt
  have offset_low : 0 ≤ (curPage.toInt - 1) * numsPerPage.toInt := mul_nonneg (by omega) (by omega)
  have product : curPage.toInt * numsPerPage.toInt =
    (curPage.toInt - 1) * numsPerPage.toInt + numsPerPage.toInt := by ring
  have total : ((height : Int) - 1).tdiv numsPerPage.toInt + 1 =
      ((pages numsPerPage.toInt.toNat height : Nat) : Int) :=
    Windows.pages_tdiv _ _ size some_blocks
  have total_small := Int.tdiv_le_self (a := (height : Int) - 1) numsPerPage.toInt (by omega)
  have total_low := Int.tdiv_nonneg (a := (height : Int) - 1) (b := numsPerPage.toInt) (by omega)
    (by omega)
  have previous : IsInt32 (curPage.toInt - 1) := ⟨by omega, by omega⟩
  have skipped : IsInt32 ((curPage.toInt - 1) * numsPerPage.toInt) := ⟨by omega, offset⟩
  have start : IsInt32 (height - (curPage.toInt - 1) * numsPerPage.toInt) := ⟨by omega, by omega⟩
  have last : IsInt32 ((height : Int) - 1) := ⟨by omega, by omega⟩
  have count : IsInt32 ((pages numsPerPage.toInt.toNat height : Nat) : Int) :=
    ⟨by omega, by omega⟩
  obtain ⟨begins, begins_eq⟩ := Int.eq_ofNat_of_zero_le offset_low
  have begins_at : (curPage.toInt - 1).toNat * numsPerPage.toInt.toNat = begins := by
    zify
    rw [Int.toNat_of_nonneg (by omega), Int.toNat_of_nonneg (by omega), begins_eq]
  unfold pageBounds
  simp only [int32_of_inside previous, int32_of_inside skipped, int32_of_inside start,
    int32_of_inside last, int32_of_inside count, if_neg (show numsPerPage.toInt ≠ 0 by omega), bind,
    Option.bind_some, total]
  rw [pageBlocks, window, begins_at]
  -- a page that is full, the last one that is not, or one behind the first block
  by_cases full : (height : Int) - (curPage.toInt - 1) * numsPerPage.toInt ≥ numsPerPage.toInt
  · have ends : IsInt32 (curPage.toInt * numsPerPage.toInt) := ⟨by omega, by omega⟩
    have before : IsInt32 (height - curPage.toInt * numsPerPage.toInt) := ⟨by omega, by omega⟩
    have low : IsInt32 (height - curPage.toInt * numsPerPage.toInt + 1) := ⟨by omega, by omega⟩
    simp only [if_pos full, int32_of_inside ends, int32_of_inside before, int32_of_inside low,
      Option.bind_some]
    refine ⟨_, _, rfl, ?_⟩
    have left : (height - (curPage.toInt - 1) * numsPerPage.toInt + 1 -
      (height - curPage.toInt * numsPerPage.toInt + 1)).toNat = numsPerPage.toInt.toNat := by omega
    rw [left, begins_eq]
    exact blocksFrom_window height numsPerPage.toInt.toNat begins (by omega)
  · simp only [if_neg full]
    refine ⟨_, _, rfl, ?_⟩
    rw [begins_eq]
    by_cases inside : begins ≤ height
    · have left : ((height : Int) - begins + 1 - 1).toNat = height - begins := by omega
      rw [left, blocksFrom_window height (height - begins) begins (by omega)]
      have length : ((chain height).drop begins).length = height - begins := by simp [chain]
      rw [List.take_of_length_le length.le, List.take_of_length_le (by omega)]
    · have left : ((height : Int) - begins + 1 - 1).toNat = 0 := by omega
      rw [left, List.drop_eq_nil_of_le (by simp [chain]; omega), List.take_nil, blocksFrom]

theorem pageBounds_overflow (height curPage numsPerPage : Int)
    (overflow : 2 ^ 31 ≤ (curPage - 1) * numsPerPage) :
    pageBounds height curPage numsPerPage = none := by
  have outside_int : int32 ((curPage - 1) * numsPerPage) = none :=
    if_neg fun inside => absurd inside.2 (not_lt.mpr overflow)
  unfold pageBounds
  cases previous : int32 (curPage - 1) with
  | none => rfl
  | some page =>
      obtain ⟨rfl, _⟩ := (int32_eq_some _ _).mp previous
      simp only [outside_int, bind, Option.bind_some, Option.bind_none]

/-! The responses of a run. -/

/-- The responses to the two requests for each block, in the order in which they come. -/
def responses : List Int → Server → List (Bytes × Bytes)
  | [], _ => []
  | seq :: rest, server =>
      let (ledger, server) := outside.http (.getLedger seq) server
      let (history, server) := outside.http (.getTransactionHistory seq) server
      (ledger, history) :: responses rest server

/-- A response with `error_code` 0. -/
def Accepted (context : Bytes) : Prop :=
  ∃ rep, outside.json.parse (cString context) = some rep ∧ rep.errorCode = .ok (true, 0)

/-- The hash and the time of a block are those of the response. -/
def FromResponse (response : Bytes × Bytes) (block : Block) : Prop :=
  ∃ rep hash time, outside.json.parse (cString response.1) = some rep ∧
    rep.hasResult "header" = .ok true ∧
    (do (← headerField "hash" rep).asString) = Except.ok hash ∧ block.blockhash = .str hash ∧
    (do outside.closeTime (← headerField "close_time" rep)) = Except.ok (some time) ∧
      block.blockAge = time

/-- The response has a header, with a hash and a time. -/
def HasHeader (response : Bytes × Bytes) : Prop :=
  ∃ rep hash time, outside.json.parse (cString response.1) = some rep ∧
    rep.hasResult "header" = .ok true ∧
    (do (← headerField "hash" rep).asString) = Except.ok hash ∧
    (do outside.closeTime (← headerField "close_time" rep)) = Except.ok (some time)

theorem readHeader_own {rep : Json} {hash : Bytes} {time : Option Bytes}
    (header : rep.hasResult "header" = .ok true)
    (hashed : (do (← headerField "hash" rep).asString) = Except.ok hash)
    (timed : (do outside.closeTime (← headerField "close_time" rep)) = Except.ok time)
    (carried : Carried) :
    readHeader outside rep carried = .ok ⟨.str hash, time.getD carried.szCloseTime⟩ := by
  cases hash_field : headerField "hash" rep with
  | error stop =>
      rw [hash_field] at hashed
      cases hashed
  | ok hash_value =>
      cases time_field : headerField "close_time" rep with
      | error stop =>
          rw [time_field] at timed
          cases timed
      | ok time_value =>
          rw [hash_field] at hashed
          rw [time_field] at timed
          replace hashed : hash_value.asString = .ok hash := hashed
          replace timed : outside.closeTime time_value = .ok time := timed
          simp only [readHeader, header, hash_field, time_field, bind, Except.bind, hashed, timed]
          rfl

theorem parse_found {context : Bytes} {rep : Json}
    (parsed : outside.json.parse (cString context) = some rep) (code : Int) (server : Server) :
    parse outside code context server = .ok rep server := by
  rw [parse, parsed]
  rfl

theorem check_found {Value : Type} {result : Except Stop Value} {value : Value}
    (found : result = .ok value) (server : Server) :
    (check result : Call Server Value) server = .ok value server := by
  rw [found]
  rfl

/-- The server after the two requests for a block. -/
def afterBlock (seq : Int) (server : Server) : Server :=
  (outside.http (.getTransactionHistory seq) (outside.http (.getLedger seq) server).2).2

/-- The responses to the two requests for a block. -/
def ofBlock (seq : Int) (server : Server) : Bytes × Bytes :=
  ((outside.http (.getLedger seq) server).1,
    (outside.http (.getTransactionHistory seq) (outside.http (.getLedger seq) server).2).1)

theorem responses_cons (seq : Int) (rest : List Int) (server : Server) :
    responses outside (seq :: rest) server =
      ofBlock outside seq server :: responses outside rest (afterBlock outside seq server) := rfl

/-- A round whose responses are accepted lists the block of its own response, where that
has a header, whatever the variables hold. -/
theorem blockRound_own (seq : Int) (carried : Carried) (server : Server)
    (ledger : Accepted outside (ofBlock outside seq server).1)
    (history : Accepted outside (ofBlock outside seq server).2)
    (header : HasHeader outside (ofBlock outside seq server)) :
    ∃ block next, blockRound outside seq carried server =
        .ok (block, next) (afterBlock outside seq server) ∧
      block.ledgerSeq = seq ∧ FromResponse outside (ofBlock outside seq server) block := by
  obtain ⟨rep, parsed, code⟩ := ledger
  obtain ⟨other, history_parsed, history_code⟩ := history
  obtain ⟨same, hash, time, same_parsed, present, hashed, timed⟩ := header
  obtain rfl : rep = same := Option.some.inj (parsed.symm.trans same_parsed)
  have read := readHeader_own outside present hashed timed carried
  refine ⟨⟨seq, time, .str hash, Int32.ofNat (ofBlock outside seq server).2.length + BLOCKHEADER⟩,
    ⟨.str hash, time⟩, ?_, rfl, rep, hash, time, parsed, present, hashed, rfl, timed, rfl⟩
  rw [blockRound]
  refine (bind_of_ok (rfl : httpRequest outside (.getLedger seq) server =
    .ok (ofBlock outside seq server).1 (outside.http (.getLedger seq) server).2) _).trans ?_
  refine (bind_of_ok (parse_found outside parsed (-6) _) _).trans ?_
  refine (bind_of_ok (check_found code _) _).trans ?_
  simp only [and_self, if_true]
  refine (bind_of_ok (check_found read _) _).trans ?_
  refine (bind_of_ok (rfl : httpRequest outside (.getTransactionHistory seq) _ =
    .ok (ofBlock outside seq server).2 (afterBlock outside seq server)) _).trans ?_
  refine (bind_of_ok (parse_found outside history_parsed (-6) _) _).trans ?_
  refine (bind_of_ok (check_found history_code _) _).trans ?_
  simp only [and_self, if_true, Option.getD_some]
  rfl

-- Induction on the number of blocks left: every round leaves the server of the next one.
theorem blockLoop_own (left : Nat) (i : Int) (carried : Carried) (server : Server)
    (accepted : ∀ response ∈ responses outside (blocksFrom left i) server,
      Accepted outside response.1 ∧ Accepted outside response.2)
    (headers : ∀ response ∈ responses outside (blocksFrom left i) server,
      HasHeader outside response) :
    ∃ blocks last, blockLoop outside left i carried server = .ok blocks last ∧
      blocks.map (·.ledgerSeq) = blocksFrom left i ∧
      List.Forall₂ (FromResponse outside) (responses outside (blocksFrom left i) server) blocks := by
  induction left generalizing i carried server with
  | zero => exact ⟨[], server, rfl, rfl, .nil⟩
  | succ left ih =>
      rw [blocksFrom, responses_cons] at accepted headers ⊢
      obtain ⟨⟨ledger, history⟩, rest_accepted⟩ := List.forall_mem_cons.mp accepted
      obtain ⟨header, rest_headers⟩ := List.forall_mem_cons.mp headers
      obtain ⟨block, next, round, numbered, own⟩ :=
        blockRound_own outside i carried server ledger history header
      obtain ⟨blocks, last, looped, rest_numbered, rest_own⟩ :=
        ih (i - 1) next (afterBlock outside i server) rest_accepted rest_headers
      refine ⟨block :: blocks, last, ?_, by rw [List.map_cons, numbered, rest_numbered],
        .cons own rest_own⟩
      rw [blockLoop, bind_of_ok round]
      exact bind_of_ok looped _

/-- A list whose blocks all come from their responses needs a header in each of them. -/
theorem headers_of_own {replies : List (Bytes × Bytes)} {blocks : List Block}
    (own : List.Forall₂ (FromResponse outside) replies blocks) :
    ∀ response ∈ replies, HasHeader outside response := by
  induction own with
  | nil => simp
  | cons first _ ih =>
      obtain ⟨rep, hash, time, parsed, present, hashed, _, timed, _⟩ := first
      exact List.forall_mem_cons.mpr ⟨⟨rep, hash, time, parsed, present, hashed, timed⟩, ih⟩

/-! Pages. -/

/-- The call returns 1 and lists the blocks of the page, each from its own response. -/
def ListsBlocks (height : Nat) (curPage numsPerPage : Int32) (server : Server) : Prop :=
  ∃ blocks last,
    eChainQueryBlockBrowserInfo outside curPage numsPerPage server =
      .ok (blocks, blockJson outside curPage numsPerPage height
        ((pages numsPerPage.toInt.toNat height : Nat) : Int) blocks) last ∧
    blocks.map (·.ledgerSeq) = pageBlocks height curPage numsPerPage ∧
    List.Forall₂ (FromResponse outside)
      (responses outside (pageBlocks height curPage numsPerPage)
        (outside.http .getModulesStatus server).2) blocks

/-- A node of this height that answers every request of the page with `error_code` 0. -/
structure Answers (height : Nat) (curPage numsPerPage : Int32) (server : Server) : Prop where
  some_blocks : 1 ≤ height
  status : ∀ state, parseBlockHeightFromJson outside (outside.http .getModulesStatus server).1
    state = .ok height state
  accepted : ∀ response ∈ responses outside (pageBlocks height curPage numsPerPage)
      (outside.http .getModulesStatus server).2,
    Accepted outside response.1 ∧ Accepted outside response.2

/-- The offset of the page is an `int`, and no response lacks its header. -/
structure PageAnswered (height : Nat) (curPage numsPerPage : Int32) (server : Server) : Prop where
  offset : (curPage.toInt - 1) * numsPerPage.toInt < 2 ^ 31
  headers : ∀ response ∈ responses outside (pageBlocks height curPage numsPerPage)
    (outside.http .getModulesStatus server).2, HasHeader outside response

/-- The call behind the reading of the height. -/
theorem call_run (height : Int) (curPage numsPerPage : Int32) (server : Server)
    (status : ∀ state, parseBlockHeightFromJson outside (outside.http .getModulesStatus server).1
      state = .ok height state) :
    eChainQueryBlockBrowserInfo outside curPage numsPerPage server =
      (do
        let (iStartSeq, iEndSeq, iTotalPage) ←
          inInt (pageBounds height curPage.toInt numsPerPage.toInt)
        let blocks ← blockLoop outside (iStartSeq + 1 - iEndSeq).toNat iStartSeq ⟨.null, []⟩
        return (blocks, blockJson outside curPage numsPerPage height iTotalPage blocks))
      (outside.http .getModulesStatus server).2 := by
  rw [eChainQueryBlockBrowserInfo]
  refine (bind_of_ok (rfl : httpRequest outside .getModulesStatus server = .ok _ _) _).trans ?_
  exact bind_of_ok (status _) _

theorem listsBlocks_iff (height : Nat) (curPage numsPerPage : Int32) (server : Server)
    (few : height < 2 ^ 31) (answers : Answers outside height curPage numsPerPage server)
    (page : 1 ≤ curPage.toInt) (size : 1 ≤ numsPerPage.toInt) :
    ListsBlocks outside height curPage numsPerPage server ↔
      PageAnswered outside height curPage numsPerPage server := by
  obtain ⟨some_blocks, status, accepted⟩ := answers
  unfold ListsBlocks
  rw [call_run outside height curPage numsPerPage server status]
  constructor
  · rintro ⟨blocks, last, called, _, own⟩
    refine ⟨?_, headers_of_own outside own⟩
    by_contra overflow
    rw [pageBounds_overflow height _ _ (not_lt.mp overflow)] at called
    cases called
  · rintro ⟨offset, headers⟩
    obtain ⟨iStartSeq, iEndSeq, bounds, listed⟩ :=
      pageBounds_eq height curPage numsPerPage some_blocks few page size offset
    rw [← listed] at accepted headers
    obtain ⟨blocks, last, looped, numbered, own⟩ := blockLoop_own outside
      (iStartSeq + 1 - iEndSeq).toNat iStartSeq ⟨.null, []⟩ _ accepted headers
    rw [listed] at numbered own
    refine ⟨blocks, last, ?_, numbered, own⟩
    rw [bounds]
    exact bind_of_ok looped _

theorem chain_length (height : Nat) : (chain height).length = height := by simp [chain]

/-- The pages from the first to the last list the blocks from the highest one down to 1. -/
theorem pages_tile_chain (height : Nat) (few : height < 2 ^ 31) (numsPerPage : Int32)
    (size : 1 ≤ numsPerPage.toInt) :
    ((List.range (pages numsPerPage.toInt.toNat height)).flatMap fun index =>
      pageBlocks height (pageNumber index) numsPerPage) = chain height := by
  have total := Nat.div_le_self (height - 1) numsPerPage.toInt.toNat
  have each : ∀ index ∈ List.range (pages numsPerPage.toInt.toNat height),
      pageBlocks height (pageNumber index) numsPerPage =
        window numsPerPage.toInt.toNat index (chain height) := by
    intro index member
    have inside := List.mem_range.mp member
    rw [pages] at inside
    rw [pageBlocks, pageNumber_toInt (by omega)]
    congr 1
    omega
  rw [List.flatMap_congr each]
  apply Windows.windows_tile
  rw [chain_length]
  exact Windows.pages_cover _ _ (by omega)

theorem page_behind (height : Nat) (curPage numsPerPage : Int32) (size : 1 ≤ numsPerPage.toInt)
    (past : (pages numsPerPage.toInt.toNat height : Int) < curPage.toInt) :
    pageBlocks height curPage numsPerPage = [] := by
  apply Windows.window_past
  rw [chain_length]
  exact Windows.page_past _ _ _ (by omega) (by omega)

/-- A page lists its blocks, each from its own response, exactly where its offset is an
`int` and no response lacks its header. The pages tile the chain, and there is nothing
behind them. -/
theorem block_pages_iff (height : Nat) (few : height < 2 ^ 31) (numsPerPage : Int32)
    (size : 1 ≤ numsPerPage.toInt) :
    (∀ (curPage : Int32) (server : Server), 1 ≤ curPage.toInt →
      Answers outside height curPage numsPerPage server →
      (ListsBlocks outside height curPage numsPerPage server ↔
        PageAnswered outside height curPage numsPerPage server)) ∧
    ((List.range (pages numsPerPage.toInt.toNat height)).flatMap fun index =>
      pageBlocks height (pageNumber index) numsPerPage) = chain height ∧
    ∀ curPage : Int32, (pages numsPerPage.toInt.toNat height : Int) < curPage.toInt →
      pageBlocks height curPage numsPerPage = [] :=
  ⟨fun curPage server page answers =>
    listsBlocks_iff outside height curPage numsPerPage server few answers page size,
    pages_tile_chain height few numsPerPage size,
    fun curPage => page_behind height curPage numsPerPage size⟩

/-! A node of two blocks, whose three responses are told apart by one byte. -/

def blockReply : Json :=
  okReply [("header", .obj [("hash", .str (text "5f")), ("close_time", .int 0)])]

def bareBlockReply : Json := okReply []

def statusReply : Json := .obj [("ledger_manager", .obj [("ledger_sequence", .int 2)])]

def parseReply (input : Bytes) : Option Json :=
  if input = [1] then some blockReply
  else if input = [2] then some bareBlockReply
  else if input = [3] then some statusReply
  else markLib.parse input

/-- The styled texts are longer than the three responses. -/
theorem parseReply_long {input : Bytes} (long : 2 ≤ input.length) :
    parseReply input = markLib.parse input := by
  have short (byte : UInt8) : input ≠ [byte] := by
    rintro rfl
    simp at long
  rw [parseReply, if_neg (short 1), if_neg (short 2), if_neg (short 3)]

def replyLib : JsonLib where
  parse := parseReply
  toStyledString := markLib.toStyledString
  parse_empty := markLib.parse_empty
  parse_blank := by
    have different : text " " ≠ [1] ∧ text " " ≠ [2] ∧ text " " ≠ [3] := by decide +kernel
    rw [parseReply, if_neg different.1, if_neg different.2.1, if_neg different.2.2]
    exact markLib.parse_blank
  styled_length := markLib.styled_length
  styled_text := markLib.styled_text
  reads_back := by
    intro members
    rw [parseReply_long (markLib.styled_length _)]
    exact markLib.reads_back members

/-- The response to `getLedger` for the lower block is `lower`. -/
def twoBlocks (lower : UInt8) : Outside Unit where
  http request server :=
    match request with
    | .getModulesStatus => ([3], server)
    | .getLedger seq => ([if seq = 1 then lower else 1], server)
    | .getTransactionHistory _ => ([2], server)
  json := replyLib
  closeTime _ := .ok (some (text "1970-01-01 08:00:00"))

theorem twoBlocks_accepts (lower : UInt8) (known : lower = 1 ∨ lower = 2) (seq : Int) :
    Accepted (twoBlocks lower) (ofBlock (twoBlocks lower) seq ()).1 ∧
      Accepted (twoBlocks lower) (ofBlock (twoBlocks lower) seq ()).2 := by
  refine ⟨?_, bareBlockReply, rfl, rfl⟩
  by_cases lowest : seq = 1
  · rcases known with rfl | rfl
    · exact ⟨blockReply, by simp only [ofBlock, twoBlocks, if_pos lowest]; rfl, rfl⟩
    · exact ⟨bareBlockReply, by simp only [ofBlock, twoBlocks, if_pos lowest]; rfl, rfl⟩
  · exact ⟨blockReply, by simp only [ofBlock, twoBlocks, if_neg lowest]; rfl, rfl⟩

theorem twoBlocks_answers (lower : UInt8) (known : lower = 1 ∨ lower = 2) :
    Answers (twoBlocks lower) 2 1 2 () where
  some_blocks := by decide
  status := fun _ => rfl
  accepted := by
    intro response member
    have listed : pageBlocks 2 1 2 = [2, 1] := by decide
    rw [listed] at member
    rcases List.mem_cons.mp member with rfl | member
    · exact twoBlocks_accepts lower known 2
    · obtain rfl := List.mem_singleton.mp member
      exact twoBlocks_accepts lower known 1

theorem block_pages_iff_applies :
    (ListsBlocks (twoBlocks 1) 2 1 2 () ↔ PageAnswered (twoBlocks 1) 2 1 2 ()) ∧
      ((List.range (pages 2 2)).flatMap fun index => pageBlocks 2 (pageNumber index) 2) = [2, 1] := by
  have exact_pages := block_pages_iff (twoBlocks 1) 2 (by decide) 2 (by decide)
  exact ⟨exact_pages.1 1 () (by decide) (twoBlocks_answers 1 (.inl rfl)), exact_pages.2.1⟩

/-- The lower block's response has no header: it is listed under the hash of the block above. -/
theorem block_without_header_takes_the_last :
    Answers (twoBlocks 2) 2 1 2 () ∧ ¬ ListsBlocks (twoBlocks 2) 2 1 2 () := by
  have answers := twoBlocks_answers 2 (.inr rfl)
  refine ⟨answers, fun lists => ?_⟩
  rw [listsBlocks_iff _ 2 1 2 () (by decide) answers (by decide) (by decide)] at lists
  have listed : pageBlocks 2 1 2 = [2, 1] := by decide
  obtain ⟨rep, hash, time, parsed, present, _⟩ := lists.headers
    (ofBlock (twoBlocks 2) 1 ()) (by rw [listed]; exact .tail _ (.head _))
  cases parsed
  cases present

end EChainLib.Node.Browser
