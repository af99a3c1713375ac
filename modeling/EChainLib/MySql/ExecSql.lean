import EChainLib.Support.Formats
import EChainLib.Node.Statements
import EChainLib.Config.Ini

/-! `mysql_exec_sql` and `mysql_open_tbl`: a statement is formatted, and what comes out is the
format of the method that sends it. -/

namespace EChainLib.MySql

open EChainLib.Config (chr)
open EChainLib.Formats (expand expand_append expand_conversion expand_alone_iff)
open EChainLib.Keys (Bytes cString)
open EChainLib.Accounts (decimal)

/-- A C string. -/
abbrev CText := { text : Bytes // 0 ∉ text }

inductive Vararg where
  | string (value : CText)
  | int (value : Int32)

/-- `%s` and `%d`. -/
def convert (letter : UInt8) : Vararg → Option Bytes
  | .string value => if letter = chr 's' then some value.val else none
  | .int value => if letter = chr 'd' then some (decimal value.toInt) else none

inductive Fault where
  | undefined
  | writeOutside (offset : Nat)
  deriving DecidableEq

/-- The text is written with its terminator. -/
def vsprintf (size : Nat) (fmt : Bytes) (vl : List Vararg) : Except Fault Bytes :=
  match expand (chr '%') convert (cString fmt) vl with
  | none => .error .undefined
  | some text => if text.length < size then .ok text else .error (.writeOutside size)

/-- What the server answers to a statement; `mysql_fetch_row` is the first row of the result
that `mysql_store_result` has taken. -/
structure CDatabase where
  mysql_query : Bytes → Int
  mysql_errno : Bytes → Int
  mysql_fetch_row : Bytes → Bool

/-- The statement that `mysql_query` was given, and the value returned. -/
structure Reply where
  statement : Option Bytes
  value : Int
  deriving DecidableEq

def CDatabase.exec (db : CDatabase) (SQLfmt : Bytes) (vl : List Vararg) : Except Fault Reply := do
  let buff ← vsprintf 4096 SQLfmt vl
  return ⟨some buff, if db.mysql_query buff ≠ 0 then db.mysql_errno buff else 1⟩

def CDatabase.openTable (db : CDatabase) (SQLfmt : Bytes) (vl : List Vararg) :
    Except Fault Reply := do
  let buff ← vsprintf 4096 SQLfmt vl
  return ⟨some buff,
    if db.mysql_query buff ≠ 0 then 0 else if db.mysql_fetch_row buff then 1 else 0⟩

def mysqlOpenTbl (hObj : Option CDatabase) (sqlfmt : Bytes) (vl : List Vararg) :
    Except Fault Reply :=
  match hObj with
  | none => .ok ⟨none, -1⟩
  | some pMain => do
      let buff ← vsprintf 4096 sqlfmt vl
      -- `buff` is a format again, and there are no arguments
      pMain.openTable buff []

def mysqlExecSql (hObj : Option CDatabase) (sqlfmt : Bytes) (vl : List Vararg) :
    Except Fault Reply :=
  match hObj with
  | none => .ok ⟨none, -1⟩
  | some pMain => do
      let buff ← vsprintf 4096 sqlfmt vl
      pMain.exec buff []

/-! Statements with their arguments. -/

/-- A piece of a format, with the argument it takes. -/
inductive Field where
  | literal (text : CText) (plain : chr '%' ∉ text.val)
  | string (value : CText)
  | int (value : Int32)

namespace Field

def format : Field → Bytes
  | .literal text _ => text.val
  | .string _ => [chr '%', chr 's']
  | .int _ => [chr '%', chr 'd']

def arguments : Field → List Vararg
  | .literal _ _ => []
  | .string value => [.string value]
  | .int value => [.int value]

def text : Field → Bytes
  | .literal text _ => text.val
  | .string value => value.val
  | .int value => decimal value.toInt

end Field

def sqlfmt (fields : List Field) : Bytes := fields.flatMap Field.format

def arguments (fields : List Field) : List Vararg := fields.flatMap Field.arguments

/-- The format with every argument in its place. -/
def filled (fields : List Field) : Bytes := fields.flatMap Field.text

/-- The call stays in its buffers, and what it sends is the text that is meant. -/
def SendsOnce (call : Except Fault Reply) (fields : List Field) : Prop :=
  call.map Reply.statement = .ok (some (filled fields))

/-- The text is short enough and can be formatted again. -/
structure Resendable (fields : List Field) : Prop where
  no_percent : chr '%' ∉ filled fields
  short : (filled fields).length < 4096

theorem Field.format_clean (field : Field) : 0 ∉ field.format := by
  cases field with
  | literal text plain => exact text.property
  | string value => exact (by decide : 0 ∉ [chr '%', chr 's'])
  | int value => exact (by decide : 0 ∉ [chr '%', chr 'd'])

theorem Field.text_clean (field : Field) : 0 ∉ field.text := by
  cases field with
  | literal text plain => exact text.property
  | string value => exact value.property
  | int value =>
      intro member
      exact absurd (Accounts.decimal_bytes value.toInt 0 member).1 (by decide)

theorem sqlfmt_clean (fields : List Field) : 0 ∉ sqlfmt fields := by
  intro member
  obtain ⟨field, _, inside⟩ := List.mem_flatMap.mp member
  exact field.format_clean inside

theorem filled_clean (fields : List Field) : 0 ∉ filled fields := by
  intro member
  obtain ⟨field, _, inside⟩ := List.mem_flatMap.mp member
  exact field.text_clean inside

/-- One piece of a format, whatever follows it. -/
theorem Field.expand_format (field : Field) (rest : Bytes) (more : List Vararg) :
    expand (chr '%') convert (field.format ++ rest) (field.arguments ++ more) =
      (expand (chr '%') convert rest more).map (field.text ++ ·) := by
  cases field with
  | literal text plain => exact expand_append text.val rest more plain
  | string value =>
      have printed : convert (chr 's') (.string value) = some value.val := by
        simp [convert]
      exact expand_conversion printed (by decide) rest more
  | int value =>
      have printed : convert (chr 'd') (.int value) = some (decimal value.toInt) := by
        simp [convert]
      exact expand_conversion printed (by decide) rest more

theorem expand_sqlfmt (fields : List Field) :
    expand (chr '%') convert (sqlfmt fields) (arguments fields) = some (filled fields) := by
  induction fields with
  | nil => rfl
  | cons field fields ih =>
      have head := field.expand_format (sqlfmt fields) (arguments fields)
      rw [ih] at head
      exact head

/-! The two layers. -/

theorem vsprintf_sqlfmt (size : Nat) (fields : List Field) :
    vsprintf size (sqlfmt fields) (arguments fields) =
      if (filled fields).length < size then .ok (filled fields) else .error (.writeOutside size) := by
  rw [vsprintf, Keys.cString_of_text _ (sqlfmt_clean fields), expand_sqlfmt]

/-- A text is its own format just if it has no percent sign and fits. -/
theorem vsprintf_again_iff (size : Nat) (text : Bytes) (clean : 0 ∉ text) :
    vsprintf size text [] = .ok text ↔ chr '%' ∉ text ∧ text.length < size := by
  rw [vsprintf, Keys.cString_of_text _ clean]
  constructor
  · intro printed
    cases expanded : expand (chr '%') convert text [] with
    | none =>
        rw [expanded] at printed
        cases printed
    | some again =>
        rw [expanded] at printed
        dsimp only at printed
        split_ifs at printed with short
        cases printed
        exact ⟨(expand_alone_iff text).mp expanded, short⟩
  · rintro ⟨plain, short⟩
    rw [(expand_alone_iff text).mpr plain]
    exact if_pos short

/-- What both functions have in common: the second formatting decides what is sent. -/
theorem sendsOnce_layers (fields : List Field) (send : Bytes → Reply)
    (sent : ∀ buff, (send buff).statement = some buff) :
    SendsOnce (do
      let buff ← vsprintf 4096 (sqlfmt fields) (arguments fields)
      let buff ← vsprintf 4096 buff []
      return send buff) fields ↔ Resendable fields := by
  rw [vsprintf_sqlfmt]
  by_cases short : (filled fields).length < 4096
  · have again := vsprintf_again_iff 4096 (filled fields) (filled_clean fields)
    rw [if_pos short]
    change SendsOnce (vsprintf 4096 (filled fields) [] >>= fun buff => return send buff) fields ↔ _
    constructor
    · intro sends
      cases outcome : vsprintf 4096 (filled fields) [] with
      | error fault =>
          rw [SendsOnce, outcome] at sends
          cases sends
      | ok buff =>
          rw [SendsOnce, outcome] at sends
          have statement : (send buff).statement = some (filled fields) := Except.ok.inj sends
          rw [sent, Option.some.injEq] at statement
          rw [statement] at outcome
          obtain ⟨no_percent, _⟩ := again.mp outcome
          exact ⟨no_percent, short⟩
    · intro resendable
      rw [SendsOnce, again.mpr ⟨resendable.no_percent, short⟩]
      exact congrArg Except.ok (sent (filled fields))
  · rw [if_neg short]
    refine ⟨fun sends => ?_, fun resendable => absurd resendable.short short⟩
    cases sends

/-- Over a connection both functions send the text that is meant just if it is shorter than the
buffers and has no percent sign. -/
theorem sendsOnce_iff (pMain : CDatabase) (fields : List Field) :
    (SendsOnce (mysqlExecSql (some pMain) (sqlfmt fields) (arguments fields)) fields ↔
      Resendable fields) ∧
    (SendsOnce (mysqlOpenTbl (some pMain) (sqlfmt fields) (arguments fields)) fields ↔
      Resendable fields) := by
  constructor
  · exact sendsOnce_layers fields _ fun buff => rfl
  · exact sendsOnce_layers fields _ fun buff => rfl

/-- A server that takes every statement and has no rows. -/
def emptyServer : CDatabase := ⟨fun _ => 0, fun _ => 0, fun _ => false⟩

/-- `%s` with the text `100%`: the percent sign is the start of a conversion in the second
layer. -/
def hundredPercent : List Field :=
  [.string ⟨[chr '1', chr '0', chr '0', chr '%'], by decide⟩]

theorem hundredPercent_lost :
    mysqlExecSql (some emptyServer) (sqlfmt hundredPercent) (arguments hundredPercent) =
      .error .undefined ∧
    ¬ SendsOnce (mysqlExecSql (some emptyServer) (sqlfmt hundredPercent)
      (arguments hundredPercent)) hundredPercent := by
  have outcome : mysqlExecSql (some emptyServer) (sqlfmt hundredPercent)
      (arguments hundredPercent) = .error .undefined := by rfl
  refine ⟨outcome, fun sends => ?_⟩
  rw [SendsOnce, outcome] at sends
  cases sends

end EChainLib.MySql
