import EChainLib.Support.CStrings
import EChainLib.MySql.ExecSql

/-! The getters of `CDatabase`, by the index of a column and by its name. -/

namespace EChainLib.MySql

open EChainLib.CStrings (strcpy strcmp strcpy_fits strcmp_eq)
open EChainLib.Keys (Bytes)
open EChainLib.Config (atoi strtol)

/-- A column's name, which `NULL` may stand for, and the memory behind its terminator. -/
structure Column where
  name : Option CText
  behind : Bytes

/-- The row that was fetched from a result; a value is `NULL` or a C string. -/
structure ResultRow where
  fields : List Column
  row : List (Option CText)
  width : row.length = fields.length
  few : fields.length < 2 ^ 31

inductive Trap where
  | rowOutside (index : Int)
  | nullPointer
  | name (fault : CStrings.Fault)

/-- So many bytes are read from the start of a column's name on. -/
structure NameRead where
  column : Column
  count : Nat

/-- What is read of the names, and what comes of it. -/
abbrev Lookup (β : Type) := List NameRead × Except Trap β

/-! The lookup of a name. -/

def named (fault : Except CStrings.Fault Bytes) : Except Trap Bytes :=
  match fault with
  | .ok text => .ok text
  | .error fault => .error (.name fault)

/-- `memcpy(NameBuf, GetColumnName(i), 256)`, in `CheckColumn`, which stops at `NULL`. -/
def memcpyName (column : Column) : Lookup (Option Bytes) :=
  match column.name with
  | none => ([], .ok none)
  | some name =>
      let memory := name.val ++ 0 :: column.behind
      ([⟨column, 256⟩],
        if memory.length < 256 then .error (.name (.readOutside memory.length))
        else .ok (some (memory.take 256)))

/-- `strcpy(NameBuf, GetColumnName(i))`, in `GetValue_Char`. -/
def strcpyName (column : Column) : Lookup (Option Bytes) :=
  match column.name with
  | none => ([], .error .nullPointer)
  | some name =>
      ([⟨column, name.val.length + 1⟩],
        match strcpy 0 256 0 0 (name.val ++ 0 :: column.behind) with
        | .error fault => .error (.name fault)
        | .ok text => .ok (some (text ++ [0])))

/-- The loop from the column `i` on: the first one of which the copied name is `Column`. -/
def lookupLoop (copy : Column → Lookup (Option Bytes)) (Column : CText) :
    Nat → List MySql.Column → Lookup (Option Nat)
  | _, [] => ([], .ok none)
  | i, column :: rest =>
      match copy column with
      | (reads, .error trap) => (reads, .error trap)
      | (reads, .ok none) => (reads, .ok none)
      | (reads, .ok (some NameBuf)) =>
          match strcmp 0 0 (Column.val ++ [0]) NameBuf with
          | .error fault => (reads, .error (.name fault))
          | .ok true => (reads, .ok (some i))
          | .ok false =>
              let (more, found) := lookupLoop copy Column (i + 1) rest
              (reads ++ more, found)

/-- `CheckColumn`. -/
def checkColumn (query : ResultRow) (Column : CText) : Lookup (Option Nat) :=
  lookupLoop memcpyName Column 0 query.fields

/-! The getters. -/

/-- What the two functions of a kind do with a value, and with `NULL` in its place. -/
structure Getter (β : Type) where
  failed : β
  convert : CText → β
  null : Except Trap β
  lookup : ResultRow → CText → Lookup (Option Nat)

/-- `row[Column]`, converted. -/
def Getter.read {β : Type} (getter : Getter β) (query : ResultRow) (Column : Int) :
    Except Trap β :=
  if Column < 0 then .error (.rowOutside Column)
  else
    match query.row[Column.toNat]? with
    | none => .error (.rowOutside Column)
    | some none => getter.null
    | some (some value) => .ok (getter.convert value)

/-- The getter by an index. -/
def Getter.byIndex {β : Type} (getter : Getter β) (query : ResultRow) (Column : Int) :
    Except Trap β :=
  if Column > query.fields.length then .ok getter.failed else getter.read query Column

/-- The getter by a name. -/
def Getter.byName {β : Type} (getter : Getter β) (query : ResultRow) (Column : CText) :
    Lookup β :=
  let (reads, found) := getter.lookup query Column
  (reads,
    match found with
    | .error trap => .error trap
    | .ok none => .ok getter.failed
    | .ok (some ColNum) => getter.read query ColNum)

def getValueChar : Getter UInt8 where
  failed := 0
  convert value := (value.val ++ [0]).headD 0
  null := .error .nullPointer
  lookup query Column := lookupLoop strcpyName Column 0 query.fields

/-- The pointer in the row, which may be `NULL`, is returned. -/
def getValueString : Getter (Option CText) where
  failed := none
  convert value := some value
  null := .ok none
  lookup := checkColumn

/-- `Value` is left as it was and 0 is returned, or the number is put there and 1 is returned. -/
def getValueNumber {β : Type} (number : CText → β) : Getter (Option β) where
  failed := none
  convert value := some (number value)
  null := .error .nullPointer
  lookup := checkColumn

def getValueInt : Getter (Option Int) := getValueNumber fun value => atoi value.val

def getValueLong : Getter (Option Int) := getValueNumber fun value => strtol 10 value.val

section Floating

variable {Binary32 Binary64 : Type} (atof : CText → Binary64) (narrow : Binary64 → Binary32)

def getValueFloat : Getter (Option Binary32) := getValueNumber fun value => narrow (atof value)

def getValueDouble : Getter (Option Binary64) := getValueNumber fun value => atof value

end Floating

/-! What the two functions of a kind are to do. -/

/-- The names of the columns are there, short enough for `NameBuf`, and distinct. -/
structure Distinct (query : ResultRow) : Prop where
  named : ∀ column ∈ query.fields, ∃ name : CText, column.name = some name ∧ name.val.length < 256
  distinct : (query.fields.map Column.name).Nodup

/-- The functions of one kind are bounded and agree, at an index and at a name. -/
structure Agrees {β : Type} (getter : Getter β) (query : ResultRow) (c : Int) (s : CText) :
    Prop where
  outside : ¬ (0 ≤ c ∧ c < query.fields.length) → getter.byIndex query c = .ok getter.failed
  inside : ∀ (i : Nat) (value : CText), c = i → query.row[i]? = some (some value) →
    getter.byIndex query c = .ok (getter.convert value)
  null : ∀ i : Nat, c = i → query.row[i]? = some none →
    getter.byIndex query c = .ok getter.failed
  found : ∀ (i : Nat) (column : Column), query.fields[i]? = some column → column.name = some s →
    (getter.byName query s).2 = getter.byIndex query i
  found_null : ∀ (i : Nat) (column : Column), query.fields[i]? = some column →
    column.name = some s → query.row[i]? = some none →
      (getter.byName query s).2 = .ok getter.failed
  missing : (∀ column ∈ query.fields, column.name ≠ some s) →
    (getter.byName query s).2 = .ok getter.failed
  reads : ∀ read ∈ (getter.byName query s).1, ∀ name : CText, read.column.name = some name →
    read.count ≤ name.val.length + 1

/-- All twelve functions. -/
structure AllAgree {Binary32 Binary64 : Type} (atof : CText → Binary64)
    (narrow : Binary64 → Binary32) (query : ResultRow) (c : Int) (s : CText) : Prop where
  char : Agrees getValueChar query c s
  string : Agrees getValueString query c s
  int : Agrees getValueInt query c s
  long : Agrees getValueLong query c s
  float : Agrees (getValueFloat atof narrow) query c s
  double : Agrees (getValueDouble atof) query c s

/-- The columns up to the first that has the name, with it. -/
def examined (s : CText) : List Column → List Column
  | [] => []
  | column :: rest =>
      if column.name = some s then [column] else column :: examined s rest

/-- The index is that of a value which is not `NULL`, or more than the number of columns; the
name does not stand for `NULL`; and `CheckColumn` sees names of 255 bytes only. -/
structure Reachable (query : ResultRow) (c : Int) (s : CText) : Prop where
  index : (∃ (i : Nat) (value : CText), c = i ∧ query.row[i]? = some (some value)) ∨
    (query.fields.length : Int) < c
  value : ∀ (i : Nat) (column : Column), query.fields[i]? = some column → column.name = some s →
    query.row[i]? ≠ some none
  names : ∀ column ∈ examined s query.fields, ∃ name : CText, column.name = some name ∧
    name.val.length = 255

theorem head_examined (s : CText) (column : Column) (rest : List Column) :
    column ∈ examined s (column :: rest) := by
  rw [examined]
  split_ifs
  · exact List.mem_cons_self
  · exact List.mem_cons_self

theorem examined_later {s : CText} {column other : Column} {rest : List Column}
    (differs : column.name ≠ some s) (member : other ∈ examined s rest) :
    other ∈ examined s (column :: rest) := by
  rw [examined, if_neg differs]
  exact List.mem_cons_of_mem _ member

theorem examined_subset {s : CText} {columns : List Column} {column : Column}
    (member : column ∈ examined s columns) : column ∈ columns := by
  induction columns with
  | nil => exact member
  | cons first rest ih =>
      rw [examined] at member
      split_ifs at member
      · rw [List.mem_singleton.mp member]
        exact List.mem_cons_self
      · rcases List.mem_cons.mp member with rfl | later
        · exact List.mem_cons_self
        · exact List.mem_cons_of_mem _ (ih later)

/-! Copies of names. -/

theorem strcpyName_named (column : Column) (name : CText) (there : column.name = some name)
    (short : name.val.length < 256) :
    strcpyName column = ([⟨column, name.val.length + 1⟩], .ok (some (name.val ++ [0]))) := by
  have fits := strcpy_fits name.val column.behind name.property 256 0 0 (by omega)
  rw [strcpyName, there]
  simp only [fits]

theorem memcpyName_named (column : Column) (name : CText) (there : column.name = some name)
    (short : name.val.length < 256) :
    memcpyName column = ([⟨column, 256⟩],
      if name.val.length + 1 + column.behind.length < 256 then
        .error (.name (.readOutside (name.val.length + 1 + column.behind.length)))
      else .ok (some (name.val ++ 0 :: column.behind.take (255 - name.val.length)))) := by
  have size : (name.val ++ 0 :: column.behind).length =
      name.val.length + 1 + column.behind.length := by
    rw [List.length_append, List.length_cons]
    omega
  have cut : (name.val ++ 0 :: column.behind).take 256 =
      name.val ++ 0 :: column.behind.take (255 - name.val.length) := by
    have room : 256 - name.val.length = 255 - name.val.length + 1 := by omega
    rw [List.take_append, List.take_of_length_le (by omega), room, List.take_succ_cons]
  rw [memcpyName, there]
  simp only [size, cut]

/-- The copy of a name ends it where it ends. -/
def Copies (copy : Column → Lookup (Option Bytes)) (column : Column) : Prop :=
  ∃ (name : CText) (reads : List NameRead) (behind : Bytes),
    column.name = some name ∧ copy column = (reads, .ok (some (name.val ++ 0 :: behind)))

theorem lookupLoop_cons {copy : Column → Lookup (Option Bytes)} {column : Column} {name : CText}
    {reads : List NameRead} {behind : Bytes} (there : column.name = some name)
    (copied : copy column = (reads, .ok (some (name.val ++ 0 :: behind)))) (s : CText) (i : Nat)
    (rest : List Column) :
    lookupLoop copy s i (column :: rest) =
      if column.name = some s then (reads, .ok (some i))
      else
        (reads ++ (lookupLoop copy s (i + 1) rest).1, (lookupLoop copy s (i + 1) rest).2) := by
  have compared := strcmp_eq s.val name.val [] behind s.property name.property 0
  rw [lookupLoop, copied]
  simp only [compared]
  by_cases same : s = name
  · rw [decide_eq_true (congrArg Subtype.val same), if_pos (there.trans (congrArg some same.symm))]
  · have other : s.val ≠ name.val := fun equal => same (Subtype.ext equal)
    have another : ¬ column.name = some s := by
      rw [there, Option.some.injEq]
      exact Ne.symm same
    rw [decide_eq_false other, if_neg another]

theorem lookupLoop_found (copy : Column → Lookup (Option Bytes)) (s : CText) (i : Nat)
    (columns : List Column) (copies : ∀ column ∈ examined s columns, Copies copy column) :
    (lookupLoop copy s i columns).2 =
      .ok ((columns.findIdx? fun column => column.name = some s).map (i + ·)) := by
  induction columns generalizing i with
  | nil => rfl
  | cons column rest ih =>
      have head := head_examined s column rest
      obtain ⟨name, reads, behind, there, copied⟩ := copies column head
      rw [lookupLoop_cons there copied, List.findIdx?_cons]
      by_cases same : column.name = some s
      · simp [same]
      · have onward := ih (i + 1) fun other member => copies other (by
          rw [examined, if_neg same]
          exact List.mem_cons_of_mem _ member)
        rw [if_neg same, onward]
        simp only [same, decide_false, Bool.false_eq_true, if_false, Option.map_map]
        congr 2
        funext ahead
        simp only [Function.comp_apply]
        omega

theorem lookupLoop_reads (copy : Column → Lookup (Option Bytes)) (s : CText) (i : Nat)
    (columns : List Column) (copies : ∀ column ∈ examined s columns, Copies copy column)
    (read : NameRead) (member : read ∈ (lookupLoop copy s i columns).1) :
    ∃ column ∈ examined s columns, read ∈ (copy column).1 := by
  induction columns generalizing i with
  | nil => exact absurd member List.not_mem_nil
  | cons column rest ih =>
      have head := head_examined s column rest
      obtain ⟨name, reads, behind, there, copied⟩ := copies column head
      rw [lookupLoop_cons there copied] at member
      have first : read ∈ reads →
          ∃ other ∈ examined s (column :: rest), read ∈ (copy other).1 := by
        intro inside
        refine ⟨column, head, ?_⟩
        rw [copied]
        exact inside
      by_cases same : column.name = some s
      · rw [if_pos same] at member
        exact first member
      · rw [if_neg same] at member
        rcases List.mem_append.mp member with inside | later
        · exact first inside
        · obtain ⟨other, inside, there⟩ :=
            ih (i + 1) (fun other inside => copies other (examined_later same inside)) later
          exact ⟨other, examined_later same inside, there⟩

/-- A lookup of `CheckColumn` that comes to its end has read 256 bytes of every name it saw. -/
theorem lookupLoop_memcpy_reads (s : CText) (i : Nat) (columns : List Column)
    (named : ∀ column ∈ columns, ∃ name : CText, column.name = some name ∧ name.val.length < 256)
    (found : Option Nat) (ended : (lookupLoop memcpyName s i columns).2 = .ok found)
    (column : Column) (seen : column ∈ examined s columns) :
    ⟨column, 256⟩ ∈ (lookupLoop memcpyName s i columns).1 := by
  induction columns generalizing i with
  | nil => exact absurd seen List.not_mem_nil
  | cons first rest ih =>
      obtain ⟨name, there, short⟩ := named first List.mem_cons_self
      have copied := memcpyName_named first name there short
      by_cases cut : name.val.length + 1 + first.behind.length < 256
      · rw [if_pos cut] at copied
        rw [lookupLoop, copied] at ended
        cases ended
      · rw [if_neg cut] at copied
        rw [lookupLoop_cons there copied] at ended ⊢
        rw [examined] at seen
        by_cases same : first.name = some s
        · rw [if_pos same] at seen ⊢
          rw [List.mem_singleton.mp seen]
          exact List.mem_singleton_self _
        · rw [if_neg same] at seen ended ⊢
          rcases List.mem_cons.mp seen with rfl | later
          · exact List.mem_append_left _ (List.mem_singleton_self _)
          · refine List.mem_append_right _ (ih (i + 1) ?_ ended later)
            exact fun other member => named other (List.mem_cons_of_mem _ member)

/-! One kind of getter. -/

theorem Distinct.findIdx {query : ResultRow} (good : Distinct query) {i : Nat} {column : Column}
    {s : CText} (here : query.fields[i]? = some column) (same : column.name = some s) :
    query.fields.findIdx? (fun column => column.name = some s) = some i := by
  obtain ⟨inside, place⟩ := List.getElem?_eq_some_iff.mp here
  rw [List.findIdx?_eq_some_iff_getElem]
  refine ⟨inside, by rw [place]; exact decide_eq_true same, fun j earlier => ?_⟩
  intro again
  have before : j < query.fields.length := Nat.lt_trans earlier inside
  have names : (query.fields.map Column.name)[j]? = (query.fields.map Column.name)[i]? := by
    rw [List.getElem?_map, List.getElem?_map, here, List.getElem?_eq_getElem before,
      Option.map_some, Option.map_some, same, of_decide_eq_true again]
  have equal := (List.getElem?_inj (by simpa using before) good.distinct).mp names
  omega

section OneKind

variable {β : Type} {getter : Getter β} {query : ResultRow} {s : CText}

theorem Getter.byName_snd (getter : Getter β) (query : ResultRow) (s : CText) :
    (getter.byName query s).2 =
      match (getter.lookup query s).2 with
      | .error trap => .error trap
      | .ok none => .ok getter.failed
      | .ok (some ColNum) => getter.read query ColNum := rfl

theorem Getter.byIndex_inside (i : Nat) (inside : i < query.fields.length) :
    getter.byIndex query i = getter.read query i := if_neg (by omega)

theorem Getter.read_value (i : Nat) (value : CText) (here : query.row[i]? = some (some value)) :
    getter.read query i = .ok (getter.convert value) := by
  rw [Getter.read, if_neg (by omega), Int.toNat_natCast, here]

theorem Getter.read_null (i : Nat) (here : query.row[i]? = some none) :
    getter.read query i = getter.null := by
  rw [Getter.read, if_neg (by omega), Int.toNat_natCast, here]

theorem Getter.read_outside (c : Int) (outside : c < 0 ∨ (query.fields.length : Int) ≤ c) :
    getter.read query c = .error (.rowOutside c) := by
  rw [Getter.read]
  rcases lt_or_ge c 0 with negative | nonneg
  · rw [if_pos negative]
  · have beyond : query.row[c.toNat]? = none := by
      rw [List.getElem?_eq_none_iff, query.width]
      omega
    rw [if_neg (by omega), beyond]

/-- Where the lookup works, the functions agree; they have to be kept from `NULL`. -/
theorem agrees_of (good : Distinct query) {c : Int}
    (index : (∃ (i : Nat) (value : CText), c = i ∧ query.row[i]? = some (some value)) ∨
      (query.fields.length : Int) < c)
    (solid : ∀ (i : Nat) (column : Column), query.fields[i]? = some column →
      column.name = some s → query.row[i]? ≠ some none)
    (lookup : (getter.lookup query s).2 =
      .ok (query.fields.findIdx? fun column => column.name = some s))
    (reads : ∀ read ∈ (getter.lookup query s).1, ∀ name : CText, read.column.name = some name →
      read.count ≤ name.val.length + 1) :
    Agrees getter query c s := by
  have byName := getter.byName_snd query s
  constructor
  · intro outside
    rcases index with ⟨i, value, rfl, here⟩ | beyond
    · have inside := (List.getElem?_eq_some_iff.mp here).1
      rw [query.width] at inside
      exact absurd ⟨by omega, by omega⟩ outside
    · exact if_pos beyond
  · rintro i value rfl here
    have inside := (List.getElem?_eq_some_iff.mp here).1
    rw [query.width] at inside
    rw [Getter.byIndex_inside i inside, Getter.read_value i value here]
  · rintro i rfl here
    rcases index with ⟨j, value, same, there⟩ | beyond
    · rw [Int.natCast_inj.mp same, there] at here
      cases here
    · have inside := (List.getElem?_eq_some_iff.mp here).1
      rw [query.width] at inside
      omega
  · intro i column here same
    rw [byName, lookup, good.findIdx here same,
      Getter.byIndex_inside i (List.getElem?_eq_some_iff.mp here).1]
  · intro i column here same empty
    exact absurd empty (solid i column here same)
  · intro missing
    have nowhere : query.fields.findIdx? (fun column => column.name = some s) = none := by
      rw [List.findIdx?_eq_none_iff]
      exact fun column member => decide_eq_false (missing column member)
    rw [byName, lookup, nowhere]
  · exact reads

/-- Where `NULL` is not allowed, the index and the name must not stand for it, and the index is
not one that is outside and let through. -/
theorem Agrees.reachable {c : Int} {trap : Trap} (agrees : Agrees getter query c s)
    (strict : getter.null = .error trap) :
    ((∃ (i : Nat) (value : CText), c = i ∧ query.row[i]? = some (some value)) ∨
      (query.fields.length : Int) < c) ∧
    ∀ (i : Nat) (column : Column), query.fields[i]? = some column → column.name = some s →
      query.row[i]? ≠ some none := by
  constructor
  · by_cases beyond : (query.fields.length : Int) < c
    · exact .inr beyond
    · left
      have plain : getter.byIndex query c = getter.read query c := if_neg (by omega)
      by_cases inside : 0 ≤ c ∧ c < query.fields.length
      · obtain ⟨i, rfl⟩ := Int.eq_ofNat_of_zero_le inside.1
        have place : i < query.row.length := by
          rw [query.width]
          omega
        cases here : query.row[i]? with
        | none => exact absurd (List.getElem?_eq_none_iff.mp here) (Nat.not_le.mpr place)
        | some pointer =>
            cases pointer with
            | some value => exact ⟨i, value, rfl, here⟩
            | none =>
                have reported := agrees.null i rfl here
                rw [plain, Getter.read_null i here, strict] at reported
                cases reported
      · have reported := agrees.outside inside
        rw [plain, Getter.read_outside c (by omega)] at reported
        cases reported
  · intro i column here same empty
    have reported := agrees.found_null i column here same empty
    rw [agrees.found i column here same,
      Getter.byIndex_inside i (List.getElem?_eq_some_iff.mp here).1, Getter.read_null i empty,
      strict] at reported
    cases reported

/-- The lookup of a function that agrees has come to its end. -/
theorem Agrees.ended {c : Int} (agrees : Agrees getter query c s)
    (solid : ∀ (i : Nat) (column : Column), query.fields[i]? = some column →
      column.name = some s → query.row[i]? ≠ some none) :
    ∃ found, (getter.lookup query s).2 = .ok found := by
  have answered : ∃ value, (getter.byName query s).2 = .ok value := by
    by_cases there : ∃ column ∈ query.fields, column.name = some s
    · obtain ⟨column, member, same⟩ := there
      obtain ⟨i, inside, here⟩ := List.mem_iff_getElem.mp member
      have place : query.fields[i]? = some column := by
        rw [List.getElem?_eq_getElem inside, here]
      have row_inside : i < query.row.length := by
        rw [query.width]
        exact inside
      cases pointer : query.row[i]? with
      | none => exact absurd (List.getElem?_eq_none_iff.mp pointer) (Nat.not_le.mpr row_inside)
      | some value =>
          cases value with
          | none => exact absurd pointer (solid i column place same)
          | some value =>
              refine ⟨getter.convert value, ?_⟩
              rw [agrees.found i column place same, Getter.byIndex_inside i inside,
                Getter.read_value i value pointer]
    · exact ⟨getter.failed, agrees.missing fun column member same => there ⟨column, member, same⟩⟩
  obtain ⟨value, answer⟩ := answered
  rw [Getter.byName_snd] at answer
  cases outcome : (getter.lookup query s).2 with
  | ok found => exact ⟨found, rfl⟩
  | error trap =>
      rw [outcome] at answer
      cases answer

end OneKind

/-! The lookups of the code. -/

theorem strcpy_lookup {query : ResultRow} (good : Distinct query) (s : CText) :
    (lookupLoop strcpyName s 0 query.fields).2 =
        .ok (query.fields.findIdx? fun column => column.name = some s) ∧
      ∀ read ∈ (lookupLoop strcpyName s 0 query.fields).1, ∀ name : CText,
        read.column.name = some name → read.count ≤ name.val.length + 1 := by
  have copied : ∀ column ∈ query.fields, ∃ name : CText, column.name = some name ∧
      strcpyName column = ([⟨column, name.val.length + 1⟩], .ok (some (name.val ++ [0]))) := by
    intro column member
    obtain ⟨name, there, short⟩ := good.named column member
    exact ⟨name, there, strcpyName_named column name there short⟩
  have copies : ∀ column ∈ examined s query.fields, Copies strcpyName column := by
    intro column seen
    obtain ⟨name, there, copy⟩ := copied column (examined_subset seen)
    exact ⟨name, _, [], there, copy⟩
  constructor
  · rw [lookupLoop_found strcpyName s 0 query.fields copies]
    simp
  · intro read member name there
    obtain ⟨column, seen, inside⟩ := lookupLoop_reads strcpyName s 0 query.fields copies read member
    obtain ⟨other, same, copy⟩ := copied column (examined_subset seen)
    rw [copy, List.mem_singleton] at inside
    rw [inside] at there ⊢
    rw [there, Option.some.injEq] at same
    rw [same]

theorem memcpy_lookup (query : ResultRow) (s : CText)
    (full : ∀ column ∈ examined s query.fields, ∃ name : CText, column.name = some name ∧
      name.val.length = 255) :
    (checkColumn query s).2 =
        .ok (query.fields.findIdx? fun column => column.name = some s) ∧
      ∀ read ∈ (checkColumn query s).1, ∀ name : CText, read.column.name = some name →
        read.count ≤ name.val.length + 1 := by
  have copied : ∀ column ∈ examined s query.fields, ∃ (name : CText) (behind : Bytes),
      column.name = some name ∧ name.val.length = 255 ∧
      memcpyName column = ([⟨column, 256⟩], .ok (some (name.val ++ 0 :: behind))) := by
    intro column seen
    obtain ⟨name, there, size⟩ := full column seen
    refine ⟨name, column.behind.take (255 - name.val.length), there, size, ?_⟩
    rw [memcpyName_named column name there (by omega), if_neg (by omega)]
  have copies : ∀ column ∈ examined s query.fields, Copies memcpyName column := by
    intro column seen
    obtain ⟨name, behind, there, _, copy⟩ := copied column seen
    exact ⟨name, _, behind, there, copy⟩
  constructor
  · rw [checkColumn, lookupLoop_found memcpyName s 0 query.fields copies]
    simp
  · intro read member name there
    obtain ⟨column, seen, inside⟩ := lookupLoop_reads memcpyName s 0 query.fields copies read member
    obtain ⟨other, behind, same, size, copy⟩ := copied column seen
    rw [copy, List.mem_singleton] at inside
    rw [inside] at there ⊢
    rw [there, Option.some.injEq] at same
    rw [same, size]

/-- All twelve functions are bounded and agree under just that condition. -/
theorem allAgree_iff {Binary32 Binary64 : Type} (atof : CText → Binary64)
    (narrow : Binary64 → Binary32) (query : ResultRow) (good : Distinct query) (c : Int)
    (s : CText) :
    AllAgree atof narrow query c s ↔ Reachable query c s := by
  constructor
  · intro all
    obtain ⟨index, value⟩ := all.int.reachable rfl
    obtain ⟨found, ended⟩ := all.int.ended value
    refine ⟨index, value, fun column seen => ?_⟩
    obtain ⟨name, there, short⟩ := good.named column (examined_subset seen)
    have read := lookupLoop_memcpy_reads s 0 query.fields good.named found ended column seen
    have enough : 256 ≤ name.val.length + 1 := all.int.reads _ read name there
    exact ⟨name, there, by omega⟩
  · intro reachable
    obtain ⟨index, value, names⟩ := reachable
    obtain ⟨copied, copied_reads⟩ := strcpy_lookup good s
    obtain ⟨checked, checked_reads⟩ := memcpy_lookup query s names
    constructor
    · exact agrees_of good index value copied copied_reads
    · exact agrees_of good index value checked checked_reads
    · exact agrees_of good index value checked checked_reads
    · exact agrees_of good index value checked checked_reads
    · exact agrees_of good index value checked checked_reads
    · exact agrees_of good index value checked checked_reads

/-- One column, with a name of 255 bytes and the value `1`. -/
def longName : CText :=
  ⟨List.replicate 255 0x61, fun member => absurd (List.eq_of_mem_replicate member) (by decide)⟩

def longColumn : ResultRow where
  fields := [⟨some longName, []⟩]
  row := [some ⟨[0x31], by decide⟩]
  width := rfl
  few := by decide

theorem longColumn_agrees : Distinct longColumn ∧ Reachable longColumn 0 longName ∧
    AllAgree (fun value => atoi value.val) (fun value => value) longColumn 0 longName := by
  have size : longName.val.length = 255 := List.length_replicate
  have good : Distinct longColumn := by
    refine ⟨fun column member => ?_, List.nodup_singleton _⟩
    rw [List.mem_singleton.mp member]
    exact ⟨longName, rfl, by omega⟩
  have reachable : Reachable longColumn 0 longName := by
    refine ⟨.inl ⟨0, _, rfl, rfl⟩, fun i column here _ => ?_, fun column seen => ?_⟩
    · have inside := (List.getElem?_eq_some_iff.mp here).1
      obtain rfl : i = 0 := Nat.lt_one_iff.mp inside
      exact fun empty => nomatch Option.some.inj empty
    · rw [List.mem_singleton.mp (examined_subset seen)]
      exact ⟨longName, rfl, size⟩
  exact ⟨good, reachable, (allAgree_iff _ _ longColumn good 0 longName).mpr reachable⟩

/-- One column `a` with the value `1`, and memory behind the name. -/
def shortName : CText := ⟨[0x61], by decide⟩

def shortColumn : ResultRow where
  fields := [⟨some shortName, List.replicate 254 0⟩]
  row := [some ⟨[0x31], by decide⟩]
  width := rfl
  few := by decide

/-- The index 1 is let through, and read outside the row. -/
theorem shortColumn_disagrees : Distinct shortColumn ∧
    getValueString.byIndex shortColumn 1 = .error (.rowOutside 1) ∧
    ¬ AllAgree (fun value => atoi value.val) (fun value => value) shortColumn 1 shortName := by
  have outside : getValueString.byIndex shortColumn 1 = .error (.rowOutside 1) := by rfl
  refine ⟨⟨fun column member => ?_, List.nodup_singleton _⟩, outside, fun all => ?_⟩
  · rw [List.mem_singleton.mp member]
    exact ⟨shortName, rfl, by decide⟩
  · have reported := all.string.outside (by decide)
    rw [outside] at reported
    cases reported

end EChainLib.MySql
