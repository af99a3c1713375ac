import EChainLib.Config.Ini
import EChainLib.Node.Statements
import EChainLib.Node.Pages

/-! What the two readers of `business_data` find in a row that
`insertBusinessDataInfo2DB` has written. -/

namespace EChainLib.Node

open EChainLib.Keys (Bytes cString cString_of_text text)
open EChainLib.Accounts (BusinessRow Database Sql SqlStatement decimal insertBusinessData)
open EChainLib.Config (atoi strtol strtolDigits digitOf chr)

/-! Columns as texts. -/

/-- The row that is fetched for `select contractaddress, recordtype, businesstype,
datahash, transactionhash, createtime`. -/
def queriedRow (row : BusinessRow) : List Bytes :=
  [row.contractaddress, decimal row.updatetype, decimal row.businesstype, row.datahash,
    row.transactionhash, row.barTime]

/-- The row that is fetched for `select contractaddress, businesstype, datahash,
transactionhash`. -/
def deletedRow (row : BusinessRow) : List Bytes :=
  [row.contractaddress, decimal row.businesstype, row.datahash, row.transactionhash]

/-- `EChain_QueryAddressRecord` reads `g_row[1]` into `BusinessType` and `g_row[2]` into
`RecordType`. -/
def queryItem (g_row : List Bytes) : BusinessDataItem where
  BusinessType := Int32.ofInt (atoi (g_row.getD 1 []))
  RecordType := Int32.ofInt (atoi (g_row.getD 2 []))
  DataHsh := cString (g_row.getD 3 [])
  TransactionHash := cString (g_row.getD 4 [])
  DateTime := cString (g_row.getD 5 [])

/-- `EChain_ContractAddressDelete` leaves the record type at 0. -/
def deleteItem (g_row : List Bytes) : BusinessDataItem :=
  { BusinessDataItem.zero with
    BusinessType := Int32.ofInt (atoi (g_row.getD 1 []))
    DataHsh := cString (g_row.getD 2 [])
    TransactionHash := cString (g_row.getD 3 []) }

/-! `atoi` on the text that `%d` prints. -/

theorem digit_number (digit : Char) (decimal_digit : digit.isDigit = true) :
    digit.toUInt8.toNat = digit.toNat ∧ 48 ≤ digit.toNat ∧ digit.toNat ≤ 57 := by
  simp only [Char.isDigit, Bool.and_eq_true, decide_eq_true_eq] at decimal_digit
  have lower : 48 ≤ digit.toNat := UInt32.le_iff_toNat_le.mp decimal_digit.1
  have upper : digit.toNat ≤ 57 := UInt32.le_iff_toNat_le.mp decimal_digit.2
  refine ⟨?_, lower, upper⟩
  rw [← Char.toUInt8_val, UInt32.toNat_toUInt8]
  exact Nat.mod_eq_of_lt (by exact lt_of_le_of_lt upper (by decide))

theorem digitOf_digit (digit : Char) (decimal_digit : digit.isDigit = true) :
    digitOf 10 digit.toUInt8 = some (digit.toNat - '0'.toNat) := by
  obtain ⟨number, lower, upper⟩ := digit_number digit decimal_digit
  have zero : (chr '0').toNat = 48 := by decide
  have nine : (chr '9').toNat = 57 := by decide
  have between : chr '0' ≤ digit.toUInt8 ∧ digit.toUInt8 ≤ chr '9' := by
    rw [UInt8.le_iff_toNat_le, UInt8.le_iff_toNat_le, number, zero, nine]
    exact ⟨lower, upper⟩
  have small : digit.toNat - 48 < 10 := by omega
  simp only [digitOf, if_pos between, number, zero, if_pos small]
  rfl

theorem strtolDigits_digits (digits : List Char) (value : Nat)
    (decimal_digits : ∀ digit ∈ digits, digit.isDigit = true) :
    strtolDigits 10 value (digits.map Char.toUInt8) = Nat.ofDigitChars 10 digits value := by
  induction digits generalizing value with
  | nil => rfl
  | cons digit rest ih =>
      have read := digitOf_digit digit (decimal_digits digit (by simp))
      have rest_digits : ∀ other ∈ rest, other.isDigit = true :=
        fun other member => decimal_digits other (List.mem_cons_of_mem digit member)
      rw [List.map_cons, strtolDigits, read, Nat.ofDigitChars_cons, Nat.mul_comm 10 value]
      exact ih _ rest_digits

theorem strtol_digits (n : Nat) :
    strtolDigits 10 0 ((Nat.toDigits 10 n).map Char.toUInt8) = n := by
  rw [strtolDigits_digits _ 0 fun digit member =>
    Nat.isDigit_of_mem_toDigits (by decide) (by decide) member]
  exact Nat.ofDigitChars_toDigits (by decide) (by decide)

/-- The digits begin with no blank and no sign. -/
theorem digits_begin (n : Nat) : ∃ first rest,
    (Nat.toDigits 10 n).map Char.toUInt8 = first :: rest ∧ 48 ≤ first.toNat ∧
      first.toNat ≤ 57 := by
  cases spelled : Nat.toDigits 10 n with
  | nil => exact absurd spelled Nat.toDigits_ne_nil
  | cons digit rest =>
      have decimal_digit : digit.isDigit = true :=
        Nat.isDigit_of_mem_toDigits (by decide) (by decide) (spelled ▸ List.mem_cons_self)
      obtain ⟨number, lower, upper⟩ := digit_number digit decimal_digit
      exact ⟨_, _, rfl, by rw [number]; exact lower, by rw [number]; exact upper⟩

/-- The clamped number of a text that begins with a digit. -/
theorem strtol_unsigned (first : UInt8) (rest : Bytes) (lower : 48 ≤ first.toNat)
    (upper : first.toNat ≤ 57) :
    strtol 10 (first :: rest) =
        max (-2 ^ 63) (min (2 ^ 63 - 1) (strtolDigits 10 0 (first :: rest) : Int)) ∧
      strtol 10 (chr '-' :: first :: rest) =
        max (-2 ^ 63) (min (2 ^ 63 - 1) (-(strtolDigits 10 0 (first :: rest) : Int))) := by
  have differs : ∀ byte : UInt8, byte.toNat < 48 → first ≠ byte := by
    rintro byte small rfl
    omega
  have no_space : Keys.isSpace first = false := by
    have no_blank : first ≠ ' '.toUInt8 := differs _ (by decide)
    simp [Keys.isSpace, no_blank, UInt8.le_iff_toNat_le]
    omega
  have no_minus := differs (chr '-') (by decide)
  have no_plus := differs (chr '+') (by decide)
  have sign : Keys.isSpace (chr '-') = false := by decide
  constructor
  · simp [strtol, no_space, no_minus, no_plus]
  · simp [strtol, sign]

theorem strtol_decimal (value : Int) (inside : IsInt32 value) :
    strtol 10 (decimal value) = value := by
  obtain ⟨first, rest, spelled, lower, upper⟩ := digits_begin value.natAbs
  have read := strtol_digits value.natAbs
  obtain ⟨low, high⟩ := inside
  unfold decimal
  dsimp only
  rw [spelled] at read ⊢
  obtain ⟨positive_read, negative_read⟩ := strtol_unsigned first rest lower upper
  split_ifs with negative
  · refine negative_read.trans ?_
    rw [read]
    omega
  · refine positive_read.trans ?_
    rw [read]
    omega

theorem atoi_decimal (value : Int) (inside : IsInt32 value) : atoi (decimal value) = value := by
  rw [atoi, strtol_decimal value inside, Config.toInt]
  exact Int.bmod_eq_of_le (by have := inside.1; omega) (by have := inside.2; omega)

/-! The items of the readers are those of the rows. -/

structure IntColumns (row : BusinessRow) : Prop where
  recordtype : IsInt32 row.updatetype
  businesstype : IsInt32 row.businesstype

theorem queryItem_row (row : BusinessRow) (ints : IntColumns row) :
    queryItem (queriedRow row) = BusinessDataItem.ofRow row := by
  simp only [queryItem, queriedRow, List.getD_cons_succ, List.getD_cons_zero,
    atoi_decimal _ ints.recordtype, atoi_decimal _ ints.businesstype]
  rfl

theorem deleteItem_row (row : BusinessRow) (ints : IntColumns row) :
    deleteItem (deletedRow row) = { BusinessDataItem.zero with
      BusinessType := Int32.ofInt row.businesstype
      DataHsh := cString row.datahash
      TransactionHash := cString row.transactionhash } := by
  simp only [deleteItem, deletedRow, List.getD_cons_succ, List.getD_cons_zero,
    atoi_decimal _ ints.businesstype]

/-- The items that `EChain_ContractAddressDelete` goes through. -/
theorem selectForDelete_rows (contractAddress : Bytes) (sql : Sql) (db left : Database)
    (items : List BusinessDataItem)
    (selected : selectForDelete contractAddress sql db = (.selected items, left))
    (ints : ∀ row ∈ selectedRows contractAddress sql db, IntColumns row) :
    items = (arranged (sql.order 0) (selectedRows contractAddress sql db)).map fun row =>
      deleteItem (deletedRow row) := by
  have locked : selectedRows contractAddress sql db.lock = selectedRows contractAddress sql db := rfl
  unfold selectForDelete at selected
  dsimp only at selected
  rw [locked] at selected
  split_ifs at selected <;> cases selected
  apply List.map_congr_left
  intro row member
  have listed := (arranged_perm (sql.order 0) (selectedRows contractAddress sql db)).mem_iff.mp member
  rw [deleteItem_row row (ints row listed)]

/-! Reading back. -/

/-- What a reader is to find in a row. -/
structure Recovers (item : BusinessDataItem) (updateType businessType : Int32)
    (dataHash transactionHash : Bytes) : Prop where
  recordType : item.RecordType = updateType
  businessType : item.BusinessType = businessType
  dataHash : item.DataHsh = dataHash
  transactionHash : item.TransactionHash = transactionHash

/-- The row that `insertBusinessDataInfo2DB` is called for. -/
def passedRow (contractAddress : Bytes) (updateType businessType : Int32)
    (dataHash transactionHash barTime : Bytes) : BusinessRow :=
  ⟨contractAddress, updateType.toInt, businessType.toInt, dataHash, transactionHash, barTime⟩

def insertRow (row : BusinessRow) : SqlStatement :=
  insertBusinessData row.contractaddress row.updatetype row.businesstype row.datahash
    row.transactionhash row.barTime

/-- The values of a rendered statement are the columns of the row. -/
theorem inserted_columns (row : BusinessRow) (rendered : (insertRow row).Rendered) :
    (Quoted.read .plain (insertRow row).text).map Quoted.Statement.literals =
      some (queriedRow row) := (insertRow row).rendered_literals rendered

/-- The statement inserts the row as it was passed, the readers have room for its texts,
and both of them find it in the table. -/
structure ReadBack (contractAddress : Bytes) (updateType businessType : Int32)
    (dataHash transactionHash barTime : Bytes) : Prop where
  inserted : (insertRow (passedRow contractAddress updateType businessType dataHash
    transactionHash barTime)).Rendered
  fits : StrcpyFits 64 contractAddress ∧ ItemFits (passedRow contractAddress updateType
    businessType dataHash transactionHash barTime)
  queried : Recovers (queryItem (queriedRow (passedRow contractAddress updateType businessType
    dataHash transactionHash barTime))) updateType businessType dataHash transactionHash
  deleted : Recovers (deleteItem (deletedRow (passedRow contractAddress updateType businessType
    dataHash transactionHash barTime))) updateType businessType dataHash transactionHash

/-- The two readers find the same in a row. -/
def ReadersMatch (row : BusinessRow) : Prop :=
  ∃ updateType businessType dataHash transactionHash,
    Recovers (queryItem (queriedRow row)) updateType businessType dataHash transactionHash ∧
      Recovers (deleteItem (deletedRow row)) updateType businessType dataHash transactionHash

theorem passed_ints (contractAddress : Bytes) (updateType businessType : Int32)
    (dataHash transactionHash barTime : Bytes) : IntColumns (passedRow contractAddress updateType
      businessType dataHash transactionHash barTime) :=
  ⟨⟨updateType.le_toInt, updateType.toInt_lt⟩, ⟨businessType.le_toInt, businessType.toInt_lt⟩⟩

section Written

variable (contractAddress : Bytes) (updateType businessType : Int32)
  (dataHash transactionHash barTime : Bytes)

/-- The strings of the row end no literal and no C string. -/
theorem harmless_strings (harmless : (insertRow (passedRow contractAddress updateType businessType
      dataHash transactionHash barTime)).Harmless) :
    cString contractAddress = contractAddress ∧ cString dataHash = dataHash ∧
      cString transactionHash = transactionHash ∧ cString barTime = barTime := by
  have clean := fun value member => cString_of_text value (harmless.plain value member).1
  have strings : (insertRow (passedRow contractAddress updateType businessType dataHash
    transactionHash barTime)).strings = [contractAddress, dataHash, transactionHash, barTime] := rfl
  rw [strings] at clean
  exact ⟨clean _ (by simp), clean _ (by simp), clean _ (by simp), clean _ (by simp)⟩

/-- The reader that exchanges the two numbers. -/
theorem query_recovers_iff (hash : cString dataHash = dataHash)
    (transaction : cString transactionHash = transactionHash) :
    Recovers (queryItem (queriedRow (passedRow contractAddress updateType businessType dataHash
      transactionHash barTime))) updateType businessType dataHash transactionHash ↔
      updateType = businessType := by
  rw [queryItem_row _ (passed_ints _ _ _ _ _ _)]
  constructor
  · intro recovers
    have exchanged := recovers.recordType
    simp only [BusinessDataItem.ofRow, passedRow, Int32.ofInt_toInt] at exchanged
    exact exchanged.symm
  · rintro rfl
    constructor <;> simp only [BusinessDataItem.ofRow, passedRow, Int32.ofInt_toInt, hash, transaction]

/-- The reader that leaves the first one out. -/
theorem delete_recovers_iff (hash : cString dataHash = dataHash)
    (transaction : cString transactionHash = transactionHash) :
    Recovers (deleteItem (deletedRow (passedRow contractAddress updateType businessType dataHash
      transactionHash barTime))) updateType businessType dataHash transactionHash ↔
      updateType = 0 := by
  rw [deleteItem_row _ (passed_ints _ _ _ _ _ _)]
  constructor
  · intro recovers
    exact recovers.recordType.symm
  · rintro rfl
    constructor <;> simp only [BusinessDataItem.zero, passedRow, Int32.ofInt_toInt, hash, transaction]

end Written

theorem readersMatch_iff (row : BusinessRow) (ints : IntColumns row) :
    ReadersMatch row ↔ row.updatetype = 0 ∧ row.businesstype = 0 := by
  unfold ReadersMatch
  rw [queryItem_row row ints, deleteItem_row row ints]
  obtain ⟨record, business⟩ := ints
  have number : ∀ value : Int, IsInt32 value → (Int32.ofInt value).toInt = value :=
    fun value inside => Int32.toInt_ofInt_of_le inside.1 inside.2
  constructor
  · rintro ⟨updateType, businessType, dataHash, transactionHash, queried, deleted⟩
    have first : Int32.ofInt row.businesstype = 0 :=
      queried.recordType.trans deleted.recordType.symm
    have second : Int32.ofInt row.updatetype = Int32.ofInt row.businesstype :=
      queried.businessType.trans deleted.businessType.symm
    rw [first] at second
    have zero := congrArg Int32.toInt first
    have also_zero := congrArg Int32.toInt second
    rw [number _ business] at zero
    rw [number _ record] at also_zero
    exact ⟨also_zero, zero⟩
  · rintro ⟨update_zero, business_zero⟩
    refine ⟨0, 0, cString row.datahash, cString row.transactionhash, ?_, ?_⟩
    · constructor <;> simp [BusinessDataItem.ofRow, update_zero, business_zero]
    · constructor <;> simp [BusinessDataItem.zero, business_zero]

/-- A row is read back by both readers exactly where its strings are harmless, its
address has room and both numbers are 0; the one reader needs equal numbers and the
other one a record type 0. They match on a table whose numbers are all 0. -/
theorem stored_rows_read_iff (contractAddress : Bytes) (updateType businessType : Int32)
    (dataHash transactionHash barTime : Bytes) (hash : dataHash.length < 88)
    (transaction : transactionHash.length < 88) (time : barTime.length < 32) :
    let row := passedRow contractAddress updateType businessType dataHash transactionHash barTime
    (ReadBack contractAddress updateType businessType dataHash transactionHash barTime ↔
      (insertRow row).Harmless ∧ contractAddress.length < 64 ∧ updateType = 0 ∧
        businessType = 0) ∧
    ((insertRow row).Harmless →
      (Recovers (queryItem (queriedRow row)) updateType businessType dataHash transactionHash ↔
        updateType = businessType) ∧
      (Recovers (deleteItem (deletedRow row)) updateType businessType dataHash transactionHash ↔
        updateType = 0)) ∧
    ∀ rows : List BusinessRow, (∀ row ∈ rows, IntColumns row) →
      ((∀ row ∈ rows, ReadersMatch row) ↔
        ∀ row ∈ rows, row.updatetype = 0 ∧ row.businesstype = 0) := by
  intro row
  have readers : (insertRow row).Harmless → _ := fun harmless =>
    have ⟨_, hash_kept, transaction_kept, _⟩ := harmless_strings _ _ _ _ _ _ harmless
    And.intro (query_recovers_iff contractAddress updateType businessType dataHash transactionHash
        barTime hash_kept transaction_kept)
      (delete_recovers_iff contractAddress updateType businessType dataHash transactionHash
        barTime hash_kept transaction_kept)
  refine ⟨⟨?_, ?_⟩, readers, fun rows ints => ?_⟩
  · intro back
    have harmless := (insertRow row).rendered_iff.mp back.inserted
    obtain ⟨address_kept, _⟩ := harmless_strings _ _ _ _ _ _ harmless
    obtain ⟨query, delete⟩ := readers harmless
    have address := back.fits.1
    rw [StrcpyFits, address_kept] at address
    have update_zero := delete.mp back.deleted
    exact ⟨harmless, address, update_zero, (query.mp back.queried).symm.trans update_zero⟩
  · rintro ⟨harmless, address, update_zero, business_zero⟩
    obtain ⟨address_kept, hash_kept, transaction_kept, time_kept⟩ :=
      harmless_strings _ _ _ _ _ _ harmless
    obtain ⟨query, delete⟩ := readers harmless
    constructor
    · exact (insertRow row).rendered_iff.mpr harmless
    · refine ⟨by rwa [StrcpyFits, address_kept], ?_, ?_, ?_⟩
      · simpa [StrcpyFits, passedRow, hash_kept] using hash
      · simpa [StrcpyFits, passedRow, transaction_kept] using transaction
      · simpa [StrcpyFits, passedRow, time_kept] using time
    · exact query.mpr (update_zero.trans business_zero.symm)
    · exact delete.mpr update_zero
  · exact forall₂_congr fun row member => readersMatch_iff row (ints row member)

theorem stored_rows_read_iff_applies :
    let row := passedRow (text "a") 0 0 (text "5f") (text "1") (text "2022")
    ReadBack (text "a") 0 0 (text "5f") (text "1") (text "2022") ↔
      (insertRow row).Harmless ∧ (text "a").length < 64 ∧ (0 : Int32) = 0 ∧ (0 : Int32) = 0 :=
  (stored_rows_read_iff (text "a") 0 0 (text "5f") (text "1") (text "2022") (by decide +kernel)
    (by decide +kernel) (by decide +kernel)).1

/-- A record of operation 1 and business 2. -/
theorem types_exchanged :
    let row := passedRow (text "a") 1 2 (text "5f") (text "1") (text "2022")
    ¬ ReadBack (text "a") 1 2 (text "5f") (text "1") (text "2022") ∧
      (queryItem (queriedRow row)).RecordType = 2 ∧
      (queryItem (queriedRow row)).BusinessType = 1 ∧
      (deleteItem (deletedRow row)).RecordType = 0 ∧
      (deleteItem (deletedRow row)).BusinessType = 2 := by
  refine ⟨fun back => ?_, by decide +kernel, by decide +kernel, by decide +kernel,
    by decide +kernel⟩
  exact absurd back.queried.recordType (by decide +kernel)

end EChainLib.Node
