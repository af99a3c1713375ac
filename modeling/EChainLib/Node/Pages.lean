import EChainLib.Support.Windows
import EChainLib.Node.Records
import EChainLib.Node.ListChain

/-! Which rows `EChain_QueryAddressRecord` lists on a page. -/

namespace EChainLib.Node

open EChainLib.Keys (Bytes cString text)
open EChainLib.Accounts (Database Sql BusinessRow AllHold allHold_nil allHold_cons
  allHold_append copied)
open EChainLib.Windows (window pages)

/-- `strcpy` into an array of `size` characters. -/
def StrcpyFits (size : Nat) (value : Bytes) : Prop := (cString value).length < size

instance (size : Nat) (value : Bytes) : Decidable (StrcpyFits size value) :=
  inferInstanceAs (Decidable ((cString value).length < size))

/-- The texts of a row fit in the arrays of a `BusinessDataItem`. -/
structure ItemFits (row : BusinessRow) : Prop where
  dataHash : StrcpyFits 88 row.datahash
  transactionHash : StrcpyFits 88 row.transactionhash
  dateTime : StrcpyFits 32 row.barTime

instance (row : BusinessRow) : Decidable (ItemFits row) :=
  decidable_of_iff (StrcpyFits 88 row.datahash ∧ StrcpyFits 88 row.transactionhash ∧
      StrcpyFits 32 row.barTime)
    ⟨fun fits => ⟨fits.1, fits.2.1, fits.2.2⟩, fun fits =>
      ⟨fits.dataHash, fits.transactionHash, fits.dateTime⟩⟩

/-- The loop over `mysql_fetch_row` with its copies: `none` where it counts beyond an
`int`, writes outside the items, or copies a text that does not fit. The address of the
first row goes to `szBlockAddress`. -/
def copyLoop (iStartRecord iEndRecord : Int) :
    List BusinessRow → Int → Nat → List BusinessDataItem → Option (List BusinessDataItem)
  | [], _, _, items => some items
  | row :: rest, iRecordSeq, iCounts, items =>
      match int32 (iRecordSeq + 1) with
      | none => none
      | some next =>
          if iRecordSeq = 0 ∧ ¬ StrcpyFits 64 row.contractaddress then none
          else if iStartRecord ≤ iRecordSeq ∧ iRecordSeq ≤ iEndRecord then
            if iCounts < items.length ∧ ItemFits row then
              copyLoop iStartRecord iEndRecord rest next (iCounts + 1)
                (items.set iCounts (.ofRow row))
            else none
          else copyLoop iStartRecord iEndRecord rest next iCounts items

variable (json : JsonLib)

/-- `queryAddressRecord` with the sizes of the texts that it copies. -/
def queryPage (blockAddress contractAddress startTime endTime : Bytes)
    (curPage numsPerPage : Int32) (sql : Sql) (db : Database) : QueryEnd × Database :=
  let history := history json blockAddress contractAddress curPage numsPerPage
  let db := db.lock
  if sql.fails 0 then (.answered (-8) (history 0 0 [] (-1)), db.unlock)
  else
    let rows := selectRecords contractAddress startTime endTime (sql.order 0) db
    let iRecordItems := (Int32.ofNat rows.length).toInt
    if iRecordItems = 0 then (.answered 1 (history 0 0 [] 1), db.unlock)
    else
      match pageOf iRecordItems curPage.toInt numsPerPage.toInt with
      | none => (.undefined, db)
      | some page =>
          if page.iNeedRecord < 0 then (.raised, db)
          else
            match copyLoop page.iStartRecord page.iEndRecord rows 0 0
              (List.replicate page.iNeedRecord.toNat .zero) with
            | none => (.undefined, db)
            | some items => (.answered 1 (history iRecordItems page.iTotalPage items 1), db.unlock)

/-! The loop. -/

/-- The rows that the loop keeps, by their numbers. -/
def keptRows (iStartRecord iEndRecord : Int) : List BusinessRow → Int → List BusinessRow
  | [], _ => []
  | row :: rest, iRecordSeq =>
      let kept := keptRows iStartRecord iEndRecord rest (iRecordSeq + 1)
      if iStartRecord ≤ iRecordSeq ∧ iRecordSeq ≤ iEndRecord then row :: kept else kept

theorem keptRows_window (iStartRecord iEndRecord : Int) (rows : List BusinessRow)
    (iRecordSeq : Int) :
    keptRows iStartRecord iEndRecord rows iRecordSeq =
      (rows.drop (iStartRecord - iRecordSeq).toNat).take
        (iEndRecord + 1 - max iStartRecord iRecordSeq).toNat := by
  induction rows generalizing iRecordSeq with
  | nil => simp [keptRows]
  | cons row rest ih =>
      rw [keptRows, ih]
      by_cases before : iRecordSeq < iStartRecord
      · have skip : (iStartRecord - iRecordSeq).toNat =
            (iStartRecord - (iRecordSeq + 1)).toNat + 1 := by omega
        have same : max iStartRecord (iRecordSeq + 1) = max iStartRecord iRecordSeq := by omega
        rw [if_neg (by omega), skip, List.drop_succ_cons, same]
      · have started : (iStartRecord - iRecordSeq).toNat = 0 := by omega
        have on : (iStartRecord - (iRecordSeq + 1)).toNat = 0 := by omega
        have here : max iStartRecord iRecordSeq = iRecordSeq := by omega
        have next : max iStartRecord (iRecordSeq + 1) = iRecordSeq + 1 := by omega
        rw [started, on, here, next, List.drop_zero, List.drop_zero]
        by_cases listed : iRecordSeq ≤ iEndRecord
        · have more : (iEndRecord + 1 - iRecordSeq).toNat =
              (iEndRecord + 1 - (iRecordSeq + 1)).toNat + 1 := by omega
          rw [if_pos ⟨by omega, listed⟩, more, List.take_succ_cons]
        · have stop : (iEndRecord + 1 - iRecordSeq).toNat = 0 := by omega
          have done : (iEndRecord + 1 - (iRecordSeq + 1)).toNat = 0 := by omega
          rw [if_neg (by omega), stop, done, List.take_zero, List.take_zero]

/-- An item behind the filled ones is written. -/
theorem filled_set (items : List BusinessDataItem) (iCounts more : Nat) (item : BusinessDataItem)
    (free : iCounts < items.length) :
    (items.set iCounts item).take (iCounts + 1) = items.take iCounts ++ [item] ∧
      (items.set iCounts item).drop (iCounts + 1 + more) = items.drop (iCounts + (more + 1)) := by
  constructor
  · rw [List.take_add_one, List.take_set_of_le le_rfl, List.getElem?_set_self free]
    rfl
  · rw [List.drop_set_of_lt (by omega), Nat.add_assoc, Nat.add_comm 1 more]

/-- What the loop leaves in the items, when the rows can be counted, and where it writes
outside them. -/
theorem copyLoop_eq (iStartRecord iEndRecord : Int) (rows : List BusinessRow) (iRecordSeq : Int)
    (iCounts : Nat) (items : List BusinessDataItem) (counting : 0 ≤ iRecordSeq)
    (countable : iRecordSeq + rows.length < 2 ^ 31)
    (room : iCounts + (keptRows iStartRecord iEndRecord rows iRecordSeq).length ≤ items.length) :
    copyLoop iStartRecord iEndRecord rows iRecordSeq iCounts items =
      if (iRecordSeq = 0 → ∀ row ∈ rows.head?, StrcpyFits 64 row.contractaddress) ∧
          ∀ row ∈ keptRows iStartRecord iEndRecord rows iRecordSeq, ItemFits row then
        some (items.take iCounts ++
          (keptRows iStartRecord iEndRecord rows iRecordSeq).map BusinessDataItem.ofRow ++
          items.drop (iCounts + (keptRows iStartRecord iEndRecord rows iRecordSeq).length))
      else none := by
  -- on the rows that are left; `iCounts` items are filled, and the next row of the page takes the
  -- first of the others
  induction rows generalizing iRecordSeq iCounts items with
  | nil => simp [copyLoop, keptRows]
  | cons row rest ih =>
      simp only [List.length_cons, Nat.cast_add, Nat.cast_one] at countable
      have inside : IsInt32 (iRecordSeq + 1) := ⟨by omega, by omega⟩
      have later : ¬ iRecordSeq + 1 = 0 := by omega
      have rest_of := fun counts others => ih (iRecordSeq + 1) counts others (by omega) (by omega)
      simp only [later, false_imp_iff, true_and] at rest_of
      simp only [copyLoop, int32_of_inside inside]
      by_cases addressed : iRecordSeq = 0 ∧ ¬ StrcpyFits 64 row.contractaddress
      · rw [if_pos addressed, if_neg]
        rintro ⟨fits, _⟩
        exact addressed.2 (fits addressed.1 row rfl)
      · have fits_address : iRecordSeq = 0 → ∀ first ∈ (row :: rest).head?,
            StrcpyFits 64 first.contractaddress := by
          rintro first _ ⟨rfl⟩
          exact not_not.mp fun long => addressed ⟨first, long⟩
        rw [if_neg addressed]
        by_cases listed : iStartRecord ≤ iRecordSeq ∧ iRecordSeq ≤ iEndRecord
        · simp only [keptRows, listed, and_self, if_true, List.length_cons] at room ⊢
          have free : iCounts < items.length := by omega
          by_cases fits : ItemFits row
          · obtain ⟨taken, dropped⟩ := filled_set items iCounts
              (keptRows iStartRecord iEndRecord rest (iRecordSeq + 1)).length (.ofRow row) free
            rw [if_pos ⟨free, fits⟩, rest_of (iCounts + 1) _ (by rw [List.length_set]; omega),
              taken, dropped]
            simp only [and_iff_right fits_address, List.forall_mem_cons, fits, true_and,
              List.map_cons, List.append_assoc, List.cons_append, List.nil_append]
          · rw [if_neg fun room => fits room.2, if_neg fun all => fits (all.2 row (by simp))]
        · simp only [keptRows, listed, if_false] at room ⊢
          rw [rest_of iCounts items room]
          simp only [and_iff_right fits_address]

/-! Pages. -/

/-- The rows numbered from `(curPage-1)*numsPerPage` on, as many as a page has. -/
def pageRows (rows : List BusinessRow) (curPage numsPerPage : Int32) : List BusinessRow :=
  window numsPerPage.toInt.toNat (curPage.toInt - 1).toNat rows

/-- The number of pages of a result set, with no page for no rows. -/
def totalPage (rows : List BusinessRow) (numsPerPage : Int32) : Nat :=
  if rows = [] then 0 else pages numsPerPage.toInt.toNat rows.length

/-- The call answers with the rows of the page and gives the lock back. -/
def ListsPage (blockAddress contractAddress startTime endTime : Bytes)
    (curPage numsPerPage : Int32) (sql : Sql) (db : Database) : Prop :=
  let rows := selectRecords contractAddress startTime endTime (sql.order 0) db
  queryPage json blockAddress contractAddress startTime endTime curPage numsPerPage sql db =
    (.answered 1 (history json blockAddress contractAddress curPage numsPerPage rows.length
      (totalPage rows numsPerPage) ((pageRows rows curPage numsPerPage).map BusinessDataItem.ofRow)
      1), db)

/-- The texts that are copied fit in their arrays. -/
structure TextsFit (rows : List BusinessRow) (curPage numsPerPage : Int32) : Prop where
  first : ∀ row ∈ rows.head?, StrcpyFits 64 row.contractaddress
  listed : ∀ row ∈ pageRows rows curPage numsPerPage, ItemFits row

/-- The page does not begin behind the row after the last one. -/
structure PageListed (rows : List BusinessRow) (curPage numsPerPage : Int32) : Prop where
  starts : (curPage.toInt - 1) * numsPerPage.toInt ≤ rows.length
  fits : TextsFit rows curPage numsPerPage

/-- Pages counted from 1, of at least one row, with all their numbers in an `int`. -/
structure PageNumbers (rows : List BusinessRow) (curPage numsPerPage : Int32) : Prop where
  page : 1 ≤ curPage.toInt
  size : 1 ≤ numsPerPage.toInt
  ends : curPage.toInt * numsPerPage.toInt < 2 ^ 31
  few : rows.length < 2 ^ 31

theorem page_in_range {rows : List BusinessRow} {curPage numsPerPage : Int32}
    (numbers : PageNumbers rows curPage numsPerPage)
    (starts : (curPage.toInt - 1) * numsPerPage.toInt ≤ rows.length) :
    PageInRange rows.length curPage.toInt numsPerPage.toInt := by
  obtain ⟨page, size, ends, few⟩ := numbers
  have low : 0 ≤ (curPage.toInt - 1) * numsPerPage.toInt :=
    mul_nonneg (by omega) (by omega)
  have high : (curPage.toInt - 1) * numsPerPage.toInt + numsPerPage.toInt =
    curPage.toInt * numsPerPage.toInt := by ring
  exact ⟨by omega, by omega, starts, by omega⟩

/-- A page that can be counted is the window of its rows, and the items are as many. -/
theorem keptRows_page {rows : List BusinessRow} {curPage numsPerPage : Int32} {page : Page}
    (numbers : PageNumbers rows curPage numsPerPage)
    (starts : (curPage.toInt - 1) * numsPerPage.toInt ≤ rows.length)
    (counts : page.Counts rows.length curPage.toInt numsPerPage.toInt) :
    keptRows page.iStartRecord page.iEndRecord rows 0 = pageRows rows curPage numsPerPage ∧
      (pageRows rows curPage numsPerPage).length = page.iNeedRecord.toNat := by
  obtain ⟨start, last_page, full_page⟩ := counts
  obtain ⟨first, size, _, _⟩ := numbers
  obtain ⟨begins, begins_eq⟩ : ∃ begins : Nat, (begins : Int) = page.iStartRecord :=
    ⟨_, Int.toNat_of_nonneg (by rw [start]; exact mul_nonneg (by omega) (by omega))⟩
  have begins_at : (curPage.toInt - 1).toNat * numsPerPage.toInt.toNat = begins := by
    zify
    rw [Int.toNat_of_nonneg (by omega), Int.toNat_of_nonneg (by omega), begins_eq, start]
  rw [← start] at starts
  rw [keptRows_window, pageRows, window, begins_at, ← begins_eq, List.length_take,
    List.length_drop]
  have from_start : ((begins : Int) - 0).toNat = begins := by omega
  have from_max : max (begins : Int) 0 = begins := by omega
  rw [from_start, from_max]
  rcases lt_or_ge (rows.length : Int) (page.iStartRecord + numsPerPage.toInt) with short | full
  · obtain ⟨ends, needs⟩ := last_page short
    constructor
    · rw [List.take_of_length_le (by rw [List.length_drop]; omega),
        List.take_of_length_le (by rw [List.length_drop]; omega)]
    · omega
  · obtain ⟨ends, needs⟩ := full_page full
    constructor
    · congr 1
      omega
    · omega

theorem pageOf_total {rows : List BusinessRow} {curPage numsPerPage : Int32} {page : Page}
    (numbers : PageNumbers rows curPage numsPerPage) (some_rows : rows ≠ [])
    (made : pageOf rows.length curPage.toInt numsPerPage.toInt = some page) :
    page.iTotalPage = totalPage rows numsPerPage := by
  have size := numbers.size
  have count := List.length_pos_iff.mpr some_rows
  have pages_eq : ((rows.length : Int) - 1).tdiv numsPerPage.toInt + 1 =
      totalPage rows numsPerPage := by
    rw [totalPage, if_neg some_rows]
    exact Windows.pages_tdiv _ _ size count
  unfold pageOf at made
  rw [if_neg (by omega)] at made
  simp only [bind, Option.bind_eq_some_iff, int32_eq_some] at made
  obtain ⟨_, ⟨rfl, _⟩, total, ⟨totals, _⟩, _, _, _, _, _, _, rest⟩ := made
  rw [pages_eq] at totals
  split_ifs at rest with short
  · simp only [pure, Option.bind_eq_some_iff, Option.some.injEq] at rest
    obtain ⟨_, _, rfl⟩ := rest
    exact totals.symm
  · simp only [pure, Option.bind_eq_some_iff, Option.some.injEq] at rest
    obtain ⟨_, _, rfl⟩ := rest
    exact totals.symm

/-- The loop on a page that begins inside the rows. -/
theorem copyLoop_page {rows : List BusinessRow} {curPage numsPerPage : Int32} {page : Page}
    (numbers : PageNumbers rows curPage numsPerPage)
    (starts : (curPage.toInt - 1) * numsPerPage.toInt ≤ rows.length)
    (made : pageOf rows.length curPage.toInt numsPerPage.toInt = some page) :
    (TextsFit rows curPage numsPerPage →
      copyLoop page.iStartRecord page.iEndRecord rows 0 0
        (List.replicate page.iNeedRecord.toNat .zero) =
          some ((pageRows rows curPage numsPerPage).map BusinessDataItem.ofRow)) ∧
    (¬ TextsFit rows curPage numsPerPage →
      copyLoop page.iStartRecord page.iEndRecord rows 0 0
        (List.replicate page.iNeedRecord.toNat .zero) = none) := by
  obtain ⟨counts, _⟩ := pageOf_counts _ _ _ page made
  obtain ⟨kept, length⟩ := keptRows_page numbers starts counts
  have few := numbers.few
  have copied := copyLoop_eq page.iStartRecord page.iEndRecord rows 0 0
    (List.replicate page.iNeedRecord.toNat .zero) le_rfl (by omega)
    (by rw [kept, length, List.length_replicate, Nat.zero_add])
  rw [kept, length] at copied
  rw [copied]
  constructor
  · intro fits
    rw [if_pos ⟨fun _ => fits.first, fits.listed⟩]
    simp
  · intro long
    rw [if_neg]
    exact fun fits => long ⟨fits.1 rfl, fits.2⟩

/-- A page is listed as it should be exactly where there are no rows at all, or it does
not begin behind the row after the last one and its texts fit. -/
theorem lists_page_iff (blockAddress contractAddress startTime endTime : Bytes)
    (curPage numsPerPage : Int32) (sql : Sql) (db : Database) (answered : sql.fails 0 = false)
    (numbers : PageNumbers (selectRecords contractAddress startTime endTime (sql.order 0) db)
      curPage numsPerPage) :
    ListsPage json blockAddress contractAddress startTime endTime curPage numsPerPage sql db ↔
      selectRecords contractAddress startTime endTime (sql.order 0) db = [] ∨
        PageListed (selectRecords contractAddress startTime endTime (sql.order 0) db) curPage
          numsPerPage := by
  have same : selectRecords contractAddress startTime endTime (sql.order 0) db.lock =
    selectRecords contractAddress startTime endTime (sql.order 0) db := rfl
  unfold ListsPage queryPage
  simp only [answered, Bool.false_eq_true, if_false, same]
  generalize selectRecords contractAddress startTime endTime (sql.order 0) db = rows at *
  have counted : (Int32.ofNat rows.length).toInt = rows.length :=
    Int32.toInt_ofNat_of_lt numbers.few
  rw [counted]
  by_cases empty : rows = []
  · subst empty
    refine iff_of_true ?_ (.inl rfl)
    simp [pageRows, window, totalPage]
  · have some_rows : 0 < rows.length := List.length_pos_iff.mpr empty
    have records := page_counted_iff rows.length curPage.toInt numsPerPage.toInt
      ⟨by omega, by have := numbers.few; omega⟩ (by omega) ⟨curPage.le_toInt, curPage.toInt_lt⟩
      ⟨numsPerPage.le_toInt, numsPerPage.toInt_lt⟩
    rw [if_neg (by omega), or_iff_right empty]
    by_cases starts : (curPage.toInt - 1) * numsPerPage.toInt ≤ rows.length
    · obtain ⟨page, made, needs⟩ := records.mpr (page_in_range numbers starts)
      obtain ⟨listed, unlisted⟩ := copyLoop_page numbers starts made
      simp only [made, if_neg (not_lt.mpr needs)]
      by_cases fits : TextsFit rows curPage numsPerPage
      · rw [listed fits]
        refine iff_of_true ?_ ⟨starts, fits⟩
        rw [pageOf_total numbers empty made]
        rfl
      · rw [unlisted fits]
        refine iff_of_false ?_ fun page => fits page.fits
        rintro ⟨⟩
    -- the page begins behind the rows: the count overflows, or `new[]` raises
    · refine iff_of_false ?_ fun page => starts page.starts
      intro ended
      cases made : pageOf rows.length curPage.toInt numsPerPage.toInt with
      | none =>
          rw [made] at ended
          cases ended
      | some page =>
          have negative : page.iNeedRecord < 0 :=
            not_le.mp fun needs => starts (records.mp ⟨page, made, needs⟩).starts_inside
          simp only [made, if_pos negative] at ended
          cases ended

/-! The arrays that the call fills. -/

theorem pageBuffers_hold_iff (iStartRecord iEndRecord : Int) (row : BusinessRow)
    (rest : List BusinessRow) (iRecordSeq : Int) :
    AllHold (pageBuffers iStartRecord iEndRecord (row :: rest) iRecordSeq) ↔
      (iRecordSeq = 0 → StrcpyFits 64 row.contractaddress) ∧
        (iStartRecord ≤ iRecordSeq ∧ iRecordSeq ≤ iEndRecord → ItemFits row) ∧
          AllHold (pageBuffers iStartRecord iEndRecord rest (iRecordSeq + 1)) := by
  have address : AllHold [copied 64 row.contractaddress] ↔ StrcpyFits 64 row.contractaddress :=
    List.forall_mem_singleton
  have item : AllHold [copied 88 row.datahash, copied 88 row.transactionhash,
      copied 32 row.barTime] ↔ ItemFits row := by
    rw [allHold_cons, allHold_cons, allHold_cons]
    constructor
    · rintro ⟨dataHash, transactionHash, dateTime, _⟩
      exact ⟨dataHash, transactionHash, dateTime⟩
    · rintro ⟨dataHash, transactionHash, dateTime⟩
      exact ⟨dataHash, transactionHash, dateTime, allHold_nil⟩
  simp only [pageBuffers, allHold_append, and_assoc]
  apply and_congr
  · split_ifs with first
    · simp [address, first]
    · simp [first]
  · apply and_congr_left
    intro _
    split_ifs with listed
    · simp [item, listed]
    · simp [listed]

theorem pageBuffers_hold (iStartRecord iEndRecord : Int) (rows : List BusinessRow)
    (iRecordSeq : Int) (fits : ∀ row ∈ rows, StrcpyFits 64 row.contractaddress ∧ ItemFits row) :
    AllHold (pageBuffers iStartRecord iEndRecord rows iRecordSeq) := by
  induction rows generalizing iRecordSeq with
  | nil => exact allHold_nil
  | cons row rest ih =>
      obtain ⟨⟨address, item⟩, others⟩ := List.forall_mem_cons.mp fits
      exact (pageBuffers_hold_iff _ _ _ _ _).mpr ⟨fun _ => address, fun _ => item, ih _ others⟩

/-- Where every array holds its text, the sizes make no difference to the loop. -/
theorem copyLoop_fits (iStartRecord iEndRecord : Int) (rows : List BusinessRow) (iRecordSeq : Int)
    (iCounts : Nat) (items : List BusinessDataItem)
    (hold : AllHold (pageBuffers iStartRecord iEndRecord rows iRecordSeq)) :
    copyLoop iStartRecord iEndRecord rows iRecordSeq iCounts items =
      fetchLoop iStartRecord iEndRecord rows iRecordSeq iCounts items := by
  induction rows generalizing iRecordSeq iCounts items with
  | nil => rfl
  | cons row rest ih =>
      obtain ⟨address, item, others_hold⟩ := (pageBuffers_hold_iff _ _ _ _ _).mp hold
      have rest_of := fun counts others => ih (iRecordSeq + 1) counts others others_hold
      have addressed : ¬ (iRecordSeq = 0 ∧ ¬ StrcpyFits 64 row.contractaddress) :=
        fun ⟨first, long⟩ => long (address first)
      rw [copyLoop, fetchLoop]
      cases counted : int32 (iRecordSeq + 1) with
      | none => rfl
      | some next =>
          obtain ⟨rfl, _⟩ := (int32_eq_some _ _).mp counted
          simp only [if_neg addressed, rest_of]
          by_cases listed : iStartRecord ≤ iRecordSeq ∧ iRecordSeq ≤ iEndRecord
          · simp only [if_pos listed, item listed, and_true]
          · simp only [if_neg listed]

theorem queryPage_fits (blockAddress contractAddress startTime endTime : Bytes)
    (curPage numsPerPage : Int32) (sql : Sql) (db : Database)
    (hold : AllHold (queryCopies contractAddress startTime endTime curPage numsPerPage sql db)) :
    queryPage json blockAddress contractAddress startTime endTime curPage numsPerPage sql db =
      queryAddressRecord json blockAddress contractAddress startTime endTime curPage numsPerPage
        sql db := by
  have same : selectRecords contractAddress startTime endTime (sql.order 0) db.lock =
    selectRecords contractAddress startTime endTime (sql.order 0) db := rfl
  unfold queryPage queryAddressRecord
  unfold queryCopies at hold
  dsimp only at hold ⊢
  rw [same]
  generalize selectRecords contractAddress startTime endTime (sql.order 0) db = rows at hold ⊢
  split_ifs with failed empty
  · rfl
  · rfl
  · rw [if_neg (not_or.mpr ⟨failed, empty⟩)] at hold
    cases made : pageOf (Int32.ofNat rows.length).toInt curPage.toInt numsPerPage.toInt with
    | none => rfl
    | some page =>
        dsimp only
        by_cases negative : page.iNeedRecord < 0
        · rw [if_pos negative, if_pos negative]
        · simp only [made, if_neg negative] at hold ⊢
          have loops := copyLoop_fits page.iStartRecord page.iEndRecord rows 0 0
            (List.replicate page.iNeedRecord.toNat .zero) hold
          cases fetched : fetchLoop page.iStartRecord page.iEndRecord rows 0 0
              (List.replicate page.iNeedRecord.toNat .zero) with
          | none => simp only [loops, fetched]
          | some items => simp only [loops, fetched]

/-- So the call without the sizes lists every page that it can. -/
theorem queryAddressRecord_lists (blockAddress contractAddress startTime endTime : Bytes)
    (curPage numsPerPage : Int32) (sql : Sql) (db : Database) (answered : sql.fails 0 = false) :
    let rows := selectRecords contractAddress startTime endTime (sql.order 0) db
    PageNumbers rows curPage numsPerPage → (curPage.toInt - 1) * numsPerPage.toInt ≤ rows.length →
    (∀ row ∈ rows, StrcpyFits 64 row.contractaddress ∧ ItemFits row) →
    queryAddressRecord json blockAddress contractAddress startTime endTime curPage numsPerPage
        sql db =
      (.answered 1 (history json blockAddress contractAddress curPage numsPerPage rows.length
        (totalPage rows numsPerPage)
        ((pageRows rows curPage numsPerPage).map BusinessDataItem.ofRow) 1), db) := by
  intro rows numbers starts fits
  have kept : pageRows rows curPage numsPerPage ⊆ rows := fun row member =>
    List.mem_of_mem_drop (List.mem_of_mem_take member)
  have texts : TextsFit rows curPage numsPerPage :=
    ⟨fun row first => (fits row (List.mem_of_mem_head? first)).1,
      fun row member => (fits row (kept member)).2⟩
  have hold : AllHold (queryCopies contractAddress startTime endTime curPage numsPerPage sql db) := by
    unfold queryCopies
    dsimp only
    split_ifs
    · exact allHold_nil
    · split
      · exact allHold_nil
      · split_ifs
        · exact allHold_nil
        · exact pageBuffers_hold _ _ rows 0 fits
  rw [← queryPage_fits json blockAddress contractAddress startTime endTime curPage numsPerPage sql
    db hold]
  exact (lists_page_iff json blockAddress contractAddress startTime endTime curPage numsPerPage sql
    db answered numbers).mpr (.inr ⟨starts, texts⟩)

/-! All pages. -/

/-- The page `index`, counted from 0, as the argument `curPage`. -/
def pageNumber (index : Nat) : Int32 := Int32.ofNat (index + 1)

theorem pageNumber_toInt {index : Nat} (small : index + 1 < 2 ^ 31) :
    (pageNumber index).toInt = index + 1 := Int32.toInt_ofNat_of_lt small

end EChainLib.Node
