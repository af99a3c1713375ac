import EChainLib.Node.BusinessData

/-! `EChain_ContractAddressDelete` and `EChain_QueryAddressRecord`, which read the
rows of a contract in `business_data`. -/

namespace EChainLib.Node

open EChainLib.Keys (Bytes cString text)
open EChainLib.Accounts (Database Sql BusinessRow Buffer copied)

/-- The rows of a result set in the order the server chooses. -/
def arranged {Row : Type*} (order : Nat) (rows : List Row) : List Row :=
  rows.permutations'.getD (order % rows.permutations'.length) rows

theorem arranged_perm {Row : Type*} (order : Nat) (rows : List Row) :
    (arranged order rows).Perm rows := by
  rw [arranged, List.getD_eq_getElem?_getD]
  cases found : rows.permutations'[order % rows.permutations'.length]? with
  | none => exact List.Perm.refl rows
  | some chosen => exact List.mem_permutations'.mp (List.mem_of_getElem? found)

structure BusinessDataItem where
  RecordType : Int32
  BusinessType : Int32
  DataHsh : Bytes
  TransactionHash : Bytes
  DateTime : Bytes
  deriving DecidableEq

/-- The item after `memset`. -/
def BusinessDataItem.zero : BusinessDataItem := ⟨0, 0, [], [], []⟩

def rowsOf (contractAddress : Bytes) (db : Database) : List BusinessRow :=
  db.business_data.filter fun row => row.contractaddress = contractAddress

variable {Server : Type} (env : Env Server) (json : JsonLib)

/-! Deleting. -/

def DELETE : Int32 := 3

/-- The rows that the statement of the deletion returns. -/
def selectedRows (contractAddress : Bytes) (sql : Sql) (db : Database) : List BusinessRow :=
  sql.take (Accounts.selectBusinessData contractAddress) Database.business_data
    (List.filter fun row => row.contractaddress = contractAddress) db

/-- How the part of the deletion that holds the lock ends. -/
inductive SelectEnd where
  | returned (code : Int)
  | selected (items : List BusinessDataItem)
  /-- `operator new[]` raises for a negative count, and nothing unlocks on the way. -/
  | raised
  /-- More rows are fetched than there are items. -/
  | undefined

/-- The columns `businesstype`, `datahash` and `transactionhash` of the rows, as many as
an `int` makes of their number. -/
def selectForDelete (contractAddress : Bytes) (sql : Sql) (db : Database) : SelectEnd × Database :=
  let db := db.lock
  if sql.fails 0 then (.returned (-8), db.unlock)
  else
    let rows := arranged (sql.order 0) (selectedRows contractAddress sql db)
    let iRecordItems := (Int32.ofNat rows.length).toInt
    if iRecordItems = 0 then (.returned (-1), db.unlock)
    else if iRecordItems < 0 then (.raised, db)
    else if iRecordItems < rows.length then (.undefined, db)
    else
      let items := rows.map fun row =>
        { BusinessDataItem.zero with
          BusinessType := Int32.ofInt row.businesstype
          DataHsh := cString row.datahash
          TransactionHash := cString row.transactionhash }
      (.selected items, db.unlock)

/-- The arrays that are filled by then: `SQLCmd`, and `DataHsh` and `TransactionHash` of every
item. -/
def deleteBuffers (contractAddress : Bytes) (sql : Sql) (db : Database) : List Buffer :=
  let rows := selectedRows contractAddress sql db
  (Accounts.selectBusinessData contractAddress).printed ::
    if sql.fails 0 ∨ (Int32.ofNat rows.length).toInt ≤ 0 then []
    else rows.flatMap fun row => [copied 88 row.datahash, copied 88 row.transactionhash]

def deleteLoop (contractAddress descInfo : Bytes) (fuel : Nat) :
    List BusinessDataItem → Api Server Int
  | [] => return 1
  | item :: rest => do
      let (code, _) ← eChainBusinessDataUpdate env json contractAddress DELETE item.BusinessType
        item.TransactionHash item.DataHsh [] descInfo fuel
      if code < 0 then
        return -1
      else
        deleteLoop contractAddress descInfo fuel rest

/-- What follows the select: `none` where the call neither returns nor raises. -/
def deleteSelected (contractAddress descInfo : Bytes) (fuel : Nat) :
    SelectEnd → Api Server (Option Int)
  | .returned code => return some code
  | .raised => throw .thrown
  | .undefined => return none
  | .selected items => do
      return some (← deleteLoop env json contractAddress descInfo fuel items)

def eChainContractAddressDelete (_blockAddress contractAddress descInfo : Bytes) (fuel : Nat) :
    Api Server (Option Int) := do
  deleteSelected env json contractAddress descInfo fuel
    (← callDb env (deleteBuffers contractAddress) (selectForDelete contractAddress))

/-- The rows of a statement that is rendered are those of the contract. -/
theorem selectedRows_rendered (contractAddress : Bytes) (sql : Sql) (db : Database)
    (rendered : (Accounts.selectBusinessData contractAddress).Rendered) :
    selectedRows contractAddress sql db = rowsOf contractAddress db :=
  sql.take_rendered _ _ _ db rendered

/-- The number of rows counts as 0, or below 0. -/
def NeverDeletes (records : Nat) : Prop := records % 2 ^ 32 = 0 ∨ 2 ^ 31 ≤ records % 2 ^ 32

theorem toInt_ofNat_zero (records : Nat) :
    (Int32.ofNat records).toInt = 0 ↔ records % 2 ^ 32 = 0 := by
  rw [Int32.toInt_ofNat', show Int32.size = 2 ^ 32 from rfl, Int.bmod_def]
  omega

theorem toInt_ofNat_negative (records : Nat) :
    (Int32.ofNat records).toInt < 0 ↔ 2 ^ 31 ≤ records % 2 ^ 32 := by
  rw [Int32.toInt_ofNat', show Int32.size = 2 ^ 32 from rfl, Int.bmod_def]
  omega

theorem toInt_ofNat_less (records : Nat) (counted : records % 2 ^ 32 < 2 ^ 31) :
    (Int32.ofNat records).toInt < records ↔ 2 ^ 32 ≤ records := by
  rw [Int32.toInt_ofNat', show Int32.size = 2 ^ 32 from rfl, Int.bmod_def]
  omega

/-- Every end of the select, by the number of the rows that it finds. -/
theorem selectForDelete_cases (contractAddress : Bytes) (sql : Sql) (db : Database) :
    let result := selectForDelete contractAddress sql db
    let rows := selectedRows contractAddress sql db
    (sql.fails 0 = true ∧ result = (.returned (-8), db)) ∨
    (sql.fails 0 = false ∧ rows.length % 2 ^ 32 = 0 ∧ result = (.returned (-1), db)) ∨
    (sql.fails 0 = false ∧ 2 ^ 31 ≤ rows.length % 2 ^ 32 ∧ result = (.raised, db.lock)) ∨
    (sql.fails 0 = false ∧ ¬ NeverDeletes rows.length ∧ 2 ^ 32 ≤ rows.length ∧
      result = (.undefined, db.lock)) ∨
    (sql.fails 0 = false ∧ ¬ NeverDeletes rows.length ∧ rows.length < 2 ^ 31 ∧
      ∃ items, result = (.selected items, db) ∧ items ≠ [] ∧
        (items.map (·.TransactionHash)).Perm (rows.map fun row => cString row.transactionhash)) := by
  have locked : selectedRows contractAddress sql db.lock = selectedRows contractAddress sql db := rfl
  unfold selectForDelete NeverDeletes
  dsimp only
  rw [locked]
  have perm := arranged_perm (sql.order 0) (selectedRows contractAddress sql db)
  rw [perm.length_eq]
  generalize selectedRows contractAddress sql db = rows at *
  cases failed : sql.fails 0 with
  | true => exact .inl ⟨rfl, rfl⟩
  | false =>
      rw [if_neg Bool.false_ne_true]
      by_cases zero : rows.length % 2 ^ 32 = 0
      · rw [if_pos ((toInt_ofNat_zero _).mpr zero)]
        exact .inr (.inl ⟨rfl, zero, rfl⟩)
      · rw [if_neg (mt (toInt_ofNat_zero _).mp zero)]
        by_cases negative : 2 ^ 31 ≤ rows.length % 2 ^ 32
        · rw [if_pos ((toInt_ofNat_negative _).mpr negative)]
          exact .inr (.inr (.inl ⟨rfl, negative, rfl⟩))
        · rw [if_neg (mt (toInt_ofNat_negative _).mp negative)]
          -- the loop over the result set is bounded by the int, so a wrapped count cuts it short
          have less := toInt_ofNat_less rows.length (by omega)
          have deletes : ¬ (rows.length % 2 ^ 32 = 0 ∨ 2 ^ 31 ≤ rows.length % 2 ^ 32) :=
            not_or.mpr ⟨zero, negative⟩
          by_cases many : 2 ^ 32 ≤ rows.length
          · rw [if_pos (less.mpr many)]
            exact .inr (.inr (.inr (.inl ⟨rfl, deletes, many, rfl⟩)))
          · rw [if_neg (mt less.mp many)]
            have few : rows.length < 2 ^ 31 := by omega
            refine .inr (.inr (.inr (.inr ⟨rfl, deletes, few, _, rfl, ?_, ?_⟩)))
            · rw [Ne, List.map_eq_nil_iff, ← List.length_eq_zero_iff, perm.length_eq]
              rintro empty
              rw [empty] at zero
              exact zero rfl
            · rw [List.map_map]
              exact perm.map _

/-- The call as its select determines it. -/
theorem contractAddressDelete_run (blockAddress contractAddress descInfo : Bytes) (fuel : Nat)
    (world : World Server) (ended : SelectEnd) (db : Database)
    (found : selectForDelete contractAddress (env.sql world.ticks) world.db = (ended, db)) :
    eChainContractAddressDelete env json blockAddress contractAddress descInfo fuel world =
      deleteSelected env json contractAddress descInfo fuel ended
        { world with
          ticks := world.ticks + 1
          db
          buffers := world.buffers ++ deleteBuffers contractAddress (env.sql world.ticks) world.db } := by
  have asked := callDb_eq env (deleteBuffers contractAddress) (selectForDelete contractAddress) world
  rw [found] at asked
  exact EChainLib.Effects.bind_of_ok asked _

/-! Querying a page. -/

def IsInt32 (value : Int) : Prop := -2 ^ 31 ≤ value ∧ value < 2 ^ 31

instance : DecidablePred IsInt32 := fun value =>
  inferInstanceAs (Decidable (-2 ^ 31 ≤ value ∧ value < 2 ^ 31))

/-- The result of an arithmetic step on `int`s. A signed overflow has no meaning,
nor has a division by zero: `none`, and nothing is promised about what follows. -/
def int32 (value : Int) : Option Int := if IsInt32 value then some value else none

structure Page where
  iTotalPage : Int
  iStartRecord : Int
  iEndRecord : Int
  iNeedRecord : Int

def pageOf (iRecordItems curPage numsPerPage : Int) : Option Page :=
  if numsPerPage = 0 then none
  else do
    let iTotalPage ← int32 ((← int32 (iRecordItems - 1)).tdiv numsPerPage + 1)
    let iStartRecord ← int32 ((← int32 (curPage - 1)) * numsPerPage)
    let beyond ← int32 (iStartRecord + numsPerPage)
    if iRecordItems < beyond then
      let iNeedRecord ← int32 (iRecordItems - iStartRecord)
      return ⟨iTotalPage, iStartRecord, iRecordItems - 1, iNeedRecord⟩
    else
      let iEndRecord ← int32 (beyond - 1)
      return ⟨iTotalPage, iStartRecord, iEndRecord, numsPerPage⟩

/-- The column `recordtype` comes second and is read into `BusinessType`, the column
`businesstype` third and into `RecordType`. -/
def BusinessDataItem.ofRow (row : BusinessRow) : BusinessDataItem where
  BusinessType := Int32.ofInt row.updatetype
  RecordType := Int32.ofInt row.businesstype
  DataHsh := cString row.datahash
  TransactionHash := cString row.transactionhash
  DateTime := cString row.barTime

/-- The loop over `mysql_fetch_row`: `none` where it counts the rows beyond an `int`
or writes outside the items. -/
def fetchLoop (iStartRecord iEndRecord : Int) :
    List BusinessRow → Int → Nat → List BusinessDataItem → Option (List BusinessDataItem)
  | [], _, _, items => some items
  | row :: rest, iRecordSeq, iCounts, items =>
      match int32 (iRecordSeq + 1) with
      | none => none
      | some next =>
          if iStartRecord ≤ iRecordSeq ∧ iRecordSeq ≤ iEndRecord then
            if iCounts < items.length then
              fetchLoop iStartRecord iEndRecord rest next (iCounts + 1)
                (items.set iCounts (.ofRow row))
            else none
          else fetchLoop iStartRecord iEndRecord rest next iCounts items

/-- The rows that the statement asks for. The period counts when `startTime` is
longer than one character. -/
def askedRows (contractAddress startTime endTime : Bytes) (db : Database) : List BusinessRow :=
  (rowsOf contractAddress db).filter fun row =>
    startTime.length ≤ 1 ∨ startTime ≤ row.barTime ∧ row.barTime ≤ endTime

/-- `order by createtime desc`. -/
def latestFirst (rows : List BusinessRow) : List BusinessRow :=
  rows.insertionSort fun left right => right.barTime ≤ left.barTime

def selectRecords (contractAddress startTime endTime : Bytes) (order : Nat) (db : Database) :
    List BusinessRow :=
  latestFirst (arranged order (askedRows contractAddress startTime endTime db))

def recordItem (item : BusinessDataItem) : Json :=
  .obj [("recordType", .int item.RecordType.toInt), ("businessType", .int item.BusinessType.toInt),
    ("dataHash", .str item.DataHsh), ("transactionHash", .str item.TransactionHash),
    ("txTime", .str item.DateTime)]

def history (blockAddress contractAddress : Bytes) (curPage numsPerPage : Int32)
    (totalNums totalPage : Int) (items : List BusinessDataItem) (result : Int) : Bytes :=
  json.toStyledString (.obj
    [("blockAddress", .str blockAddress), ("contractAddress", .str contractAddress),
      ("curPage", .int curPage.toInt), ("numsPerPage", .int numsPerPage.toInt),
      ("totalNums", .int totalNums), ("totalPage", .int totalPage),
      ("businessInfo", if items = [] then .null else .arr (items.map recordItem)),
      ("result", .int result)])

/-- How the part of the call that holds the lock ends. -/
inductive QueryEnd where
  | answered (code : Int) (businessDataInfo : Bytes)
  /-- `operator new[]` raises for a negative count, and nothing unlocks on the way. -/
  | raised
  /-- A step without a meaning, the process being killed by a division by zero. -/
  | undefined

def queryAddressRecord (blockAddress contractAddress startTime endTime : Bytes)
    (curPage numsPerPage : Int32) (sql : Sql) (db : Database) : QueryEnd × Database :=
  let history := history json blockAddress contractAddress curPage numsPerPage
  let db := db.lock
  if sql.fails 0 then (.answered (-8) (history 0 0 [] (-1)), db.unlock)
  else
    let rows := selectRecords contractAddress startTime endTime (sql.order 0) db
    let iRecordItems := (Int32.ofNat rows.length).toInt
    if iRecordItems = 0 then (.answered 1 (history 0 0 [] 1), db.unlock)
    else
      match pageOf iRecordItems curPage.toInt numsPerPage.toInt with
      | none => (.undefined, db)
      | some page =>
          if page.iNeedRecord < 0 then (.raised, db)
          else
            match fetchLoop page.iStartRecord page.iEndRecord rows 0 0
              (List.replicate page.iNeedRecord.toNat .zero) with
            | none => (.undefined, db)
            | some items => (.answered 1 (history iRecordItems page.iTotalPage items 1), db.unlock)

/-- The statement in `SQLCmd` and, where the period counts, the one in `szCondition`. A
`sprintf` onto its own argument is taken to append. -/
def queryTexts (contractAddress startTime endTime : Bytes) : List Buffer :=
  let select := text "select contractaddress, recordtype, businesstype, datahash, transactionhash, createtime from business_data where 1=1 and contractAddress = '" ++
    cString contractAddress ++ text "'"
  let szCondition := text "(createtime>='" ++ cString startTime ++ text "' and createtime<='" ++
    cString endTime ++ text "')"
  let ordered := text " order by createtime desc;"
  if startTime.length ≤ 1 then [⟨2048, select.length⟩, ⟨2048, (select ++ ordered).length⟩]
  else
    let both := select ++ text " and " ++ szCondition
    [⟨2048, select.length⟩, ⟨256, szCondition.length⟩, ⟨2048, both.length⟩,
      ⟨2048, (both ++ ordered).length⟩]

/-- The copies of the loop: `szBlockAddress` of the first row, and the texts of the items. -/
def pageBuffers (iStartRecord iEndRecord : Int) : List BusinessRow → Int → List Buffer
  | [], _ => []
  | row :: rest, iRecordSeq =>
      let address := if iRecordSeq = 0 then [copied 64 row.contractaddress] else []
      let item :=
        if iStartRecord ≤ iRecordSeq ∧ iRecordSeq ≤ iEndRecord then
          [copied 88 row.datahash, copied 88 row.transactionhash, copied 32 row.barTime]
        else []
      address ++ item ++ pageBuffers iStartRecord iEndRecord rest (iRecordSeq + 1)

def queryCopies (contractAddress startTime endTime : Bytes) (curPage numsPerPage : Int32)
    (sql : Sql) (db : Database) : List Buffer :=
  let rows := selectRecords contractAddress startTime endTime (sql.order 0) db
  let iRecordItems := (Int32.ofNat rows.length).toInt
  if sql.fails 0 ∨ iRecordItems = 0 then []
  else
    match pageOf iRecordItems curPage.toInt numsPerPage.toInt with
    | none => []
    | some page =>
        if page.iNeedRecord < 0 then []
        else pageBuffers page.iStartRecord page.iEndRecord rows 0

/-- The arrays that the query fills. -/
def queryBuffers (contractAddress startTime endTime : Bytes) (curPage numsPerPage : Int32)
    (sql : Sql) (db : Database) : List Buffer :=
  queryTexts contractAddress startTime endTime ++
    queryCopies contractAddress startTime endTime curPage numsPerPage sql db

/-- `none` where the call neither returns nor raises. -/
def eChainQueryAddressRecord (blockAddress contractAddress startTime endTime : Bytes)
    (curPage numsPerPage : Int32) : Api Server (Option (Int × Bytes)) := do
  match ← callDb env (queryBuffers contractAddress startTime endTime curPage numsPerPage)
    (queryAddressRecord json blockAddress contractAddress startTime endTime curPage numsPerPage) with
  | .answered code businessDataInfo => return some (code, businessDataInfo)
  | .raised => throw .thrown
  | .undefined => return none

/-! Which pages can be counted and filled. -/

theorem int32_eq_some (value result : Int) :
    int32 value = some result ↔ value = result ∧ IsInt32 value := by
  by_cases inside : IsInt32 value
  · rw [int32, if_pos inside, Option.some.injEq, and_iff_left inside]
  · simp [int32, inside]

theorem int32_of_inside {value : Int} (inside : IsInt32 value) : int32 value = some value :=
  (int32_eq_some value value).mpr ⟨rfl, inside⟩

/-- A page has records to show or starts right behind the last one, and its bounds
are `int`s. -/
structure PageInRange (records curPage numsPerPage : Int) : Prop where
  some_per_page : 0 < numsPerPage
  starts_low : -2 ^ 31 ≤ (curPage - 1) * numsPerPage
  starts_inside : (curPage - 1) * numsPerPage ≤ records
  ends_high : (curPage - 1) * numsPerPage + numsPerPage < 2 ^ 31

/-- The last record of the page and the number of its records. -/
structure Page.Counts (page : Page) (records curPage numsPerPage : Int) : Prop where
  start : page.iStartRecord = (curPage - 1) * numsPerPage
  last_page : records < page.iStartRecord + numsPerPage →
    page.iEndRecord = records - 1 ∧ page.iNeedRecord = records - page.iStartRecord
  full_page : page.iStartRecord + numsPerPage ≤ records →
    page.iEndRecord = page.iStartRecord + numsPerPage - 1 ∧ page.iNeedRecord = numsPerPage

theorem pageOf_counts (records curPage numsPerPage : Int) (page : Page)
    (counted : pageOf records curPage numsPerPage = some page) :
    page.Counts records curPage numsPerPage ∧ numsPerPage ≠ 0 ∧
      IsInt32 page.iStartRecord ∧ IsInt32 (page.iStartRecord + numsPerPage) := by
  unfold pageOf at counted
  split_ifs at counted with divides
  simp only [bind, Option.bind_eq_some_iff, int32_eq_some] at counted
  obtain ⟨_, ⟨rfl, _⟩, total, _, _, ⟨rfl, _⟩, start, ⟨starts, low⟩, beyond, ⟨ends, high⟩, rest⟩ :=
    counted
  split_ifs at rest with partial_page
  · simp only [pure, Option.bind_eq_some_iff, int32_eq_some, Option.some.injEq] at rest
    obtain ⟨need, ⟨needs, _⟩, rfl⟩ := rest
    exact ⟨⟨starts.symm, fun _ => ⟨rfl, needs.symm⟩, fun full => by simp only at full; omega⟩,
      divides, starts ▸ low, ends ▸ high⟩
  · simp only [pure, Option.bind_eq_some_iff, int32_eq_some, Option.some.injEq] at rest
    obtain ⟨last, ⟨lasts, _⟩, rfl⟩ := rest
    exact ⟨⟨starts.symm, fun short => by simp only at short; omega, fun _ => ⟨by simp only; omega, rfl⟩⟩,
      divides, starts ▸ low, ends ▸ high⟩

theorem pageOf_of_range (records curPage numsPerPage : Int) (counted : IsInt32 records)
    (some_records : 0 < records) (current : IsInt32 curPage) (per_page : IsInt32 numsPerPage)
    (range : PageInRange records curPage numsPerPage) :
    ∃ page, pageOf records curPage numsPerPage = some page := by
  obtain ⟨positive, low, inside, high⟩ := range
  unfold IsInt32 at counted current per_page
  have before : IsInt32 (records - 1) := ⟨by omega, by omega⟩
  have pages : IsInt32 ((records - 1).tdiv numsPerPage + 1) := by
    have small := Int.tdiv_le_self (a := records - 1) numsPerPage (by omega)
    have nonneg := Int.tdiv_nonneg (a := records - 1) (b := numsPerPage) (by omega) (by omega)
    exact ⟨by omega, by omega⟩
  have previous : IsInt32 (curPage - 1) := by
    -- a page number that low would start the page below the range
    have : -2 ^ 31 ≤ curPage - 1 := by nlinarith
    exact ⟨this, by omega⟩
  have starts : IsInt32 ((curPage - 1) * numsPerPage) := ⟨low, by omega⟩
  have ends : IsInt32 ((curPage - 1) * numsPerPage + numsPerPage) := ⟨by omega, high⟩
  simp only [pageOf, if_neg (by omega : numsPerPage ≠ 0), int32_of_inside before,
    int32_of_inside pages, int32_of_inside previous, int32_of_inside starts, int32_of_inside ends,
    bind, Option.bind_some]
  split_ifs with short
  · have needs : IsInt32 (records - (curPage - 1) * numsPerPage) := ⟨by omega, by omega⟩
    exact ⟨_, by rw [int32_of_inside needs]; rfl⟩
  · have lasts : IsInt32 ((curPage - 1) * numsPerPage + numsPerPage - 1) := ⟨by omega, by omega⟩
    exact ⟨_, by rw [int32_of_inside lasts]; rfl⟩

/-- The count of a page's records is not negative for the pages in range only. -/
theorem page_counted_iff (records curPage numsPerPage : Int) (counted : IsInt32 records)
    (some_records : 0 < records) (current : IsInt32 curPage) (per_page : IsInt32 numsPerPage) :
    (∃ page, pageOf records curPage numsPerPage = some page ∧ 0 ≤ page.iNeedRecord) ↔
      PageInRange records curPage numsPerPage := by
  constructor
  · rintro ⟨page, made, needs⟩
    obtain ⟨⟨start, last_page, full_page⟩, divides, low, high⟩ :=
      pageOf_counts records curPage numsPerPage page made
    unfold IsInt32 at low high
    rw [start] at *
    rcases lt_or_ge records ((curPage - 1) * numsPerPage + numsPerPage) with short | full
    · have needed := (last_page short).2
      exact ⟨by omega, low.1, by omega, high.2⟩
    · have needed := (full_page full).2
      exact ⟨by omega, low.1, by omega, high.2⟩
  · intro range
    obtain ⟨page, made⟩ :=
      pageOf_of_range records curPage numsPerPage counted some_records current per_page range
    obtain ⟨⟨start, last_page, full_page⟩, _⟩ :=
      pageOf_counts records curPage numsPerPage page made
    obtain ⟨positive, _, inside, _⟩ := range
    rw [start] at *
    refine ⟨page, made, ?_⟩
    rcases lt_or_ge records ((curPage - 1) * numsPerPage + numsPerPage) with short | full
    · have needed := (last_page short).2
      omega
    · have needed := (full_page full).2
      omega

end EChainLib.Node
