import EChainLib.Support.Run
import EChainLib.Utils.BackupNames

/-! `LogWriter::Write` to a file. What `File::Move`, `File::Copy` and `fopen` do is part of a
call; everything that is printed to an open file is in it. -/

namespace EChainLib.Utils

open EChainLib.Keys (Bytes)
open EChainLib.Config (chr)
open EChainLib.Run (states Meets property_iff_meets)

inductive LogLevel where
  | trace
  | debug
  | info
  | warn
  | error
  | fatal
  | other

/-- `GetLogPrefix`. -/
def getLogPrefix : LogLevel → Bytes
  | .trace => "TRC".toUTF8.data.toList
  | .debug => "DBG".toUTF8.data.toList
  | .info => "INF".toUTF8.data.toList
  | .warn => "WRN".toUTF8.data.toList
  | .error => "ERR".toUTF8.data.toList
  | .fatal => "FTL".toUTF8.data.toList
  | .other => []

/-- `[%s - %s] `. -/
def lineHead (current_time : Bytes) (level : LogLevel) : Bytes :=
  [chr '['] ++ current_time ++ " - ".toUTF8.data.toList ++ getLogPrefix level ++
    "] ".toUTF8.data.toList

/-- One call, with its arguments, the logger's capacities, the clock's readings and what the
three functions do. -/
structure WriteCall where
  logLevel : LogLevel
  current_time : Bytes
  /-- `current_thread_id`, as `%lX` prints it. -/
  thread : Bytes
  file : Bytes
  lineNum : Int
  /-- What `vfprintf` prints. -/
  message : Bytes
  time_capacity_ : Int
  size_capacity_ : UInt64
  /-- `time(NULL)` in the test, `Now` for the name, and `time(NULL)` behind the reopening. -/
  tested_at : Int
  ended_at : Int
  begun_at : Int
  move : Bool
  /-- The lines that `Copy` puts in the backup; `none` is that it leaves that alone. -/
  copied : Option Nat
  fopen : Bool

namespace WriteCall

def line (call : WriteCall) : Bytes :=
  lineHead call.current_time call.logLevel ++ [chr '<'] ++ call.thread ++ "> ".toUTF8.data.toList ++
    call.file ++ [chr '('] ++ Accounts.decimal call.lineNum ++ "):".toUTF8.data.toList ++ call.message ++
    [chr '\n']

def header (call : WriteCall) (backup_file_name : Bytes) : Bytes :=
  lineHead call.current_time .info ++
    "Log::New file start, previous backup file is ".toUTF8.data.toList ++ backup_file_name ++
    [chr '\r', chr '\n']

end WriteCall

structure LogWriter where
  /-- Whether `file_ptr_` is an open file. -/
  file_ptr_ : Bool
  begin_time_ : Int
  /-- The lines of the file, if there is one. -/
  file : Option (List Bytes)
  backups : List (Bytes × List Bytes)
  /-- All lines written so far, and whether `fprintf` was called on a null pointer. -/
  written : List Bytes
  null_written : Bool

namespace LogWriter

/-- Behind `Init`, with the files found. -/
def initial (begin_time_ : Int) (lines : List Bytes) (backups : List (Bytes × List Bytes)) :
    LogWriter :=
  ⟨true, begin_time_, some lines, backups, lines ++ backups.flatMap Prod.snd, false⟩

def content (writer : LogWriter) : List Bytes := writer.file.getD []

def onDisk (writer : LogWriter) : List Bytes := writer.content ++ writer.backups.flatMap Prod.snd

/-- A file put under a name, in place of what was there. -/
def store (name : Bytes) (lines : List Bytes) (backups : List (Bytes × List Bytes)) :
    List (Bytes × List Bytes) :=
  (name, lines) :: backups.filter fun backup => backup.1 ≠ name

def overwritten (name : Bytes) (backups : List (Bytes × List Bytes)) : List Bytes :=
  (backups.filter fun backup => backup.1 = name).flatMap Prod.snd

/-- `ftell64`. -/
def size (writer : LogWriter) : Nat := (writer.content.map List.length).sum

def Rotates (writer : LogWriter) (call : WriteCall) : Prop :=
  writer.file_ptr_ = true ∧
    (writer.size > call.size_capacity_.toNat ∨
      writer.begin_time_ + call.time_capacity_ ≤ call.tested_at)

instance (writer : LogWriter) (call : WriteCall) : Decidable (writer.Rotates call) :=
  instDecidableAnd

/-- `Move`, and `Copy` where that fails. -/
def backUp (writer : LogWriter) (call : WriteCall) (name : Bytes) : LogWriter :=
  if call.move then
    { writer with file := none, backups := store name writer.content writer.backups }
  else
    match call.copied with
    | none => writer
    | some count => { writer with backups := store name (writer.content.take count) writer.backups }

/-- `fopen` and the first line of the new file. -/
def reopen (writer : LogWriter) (call : WriteCall) (name : Bytes) : LogWriter :=
  if call.fopen then
    { writer with
      file := some [call.header name]
      begin_time_ := call.begun_at
      written := writer.written ++ [call.header name] }
  else { writer with file_ptr_ := false }

def print (writer : LogWriter) (line : Bytes) : LogWriter :=
  if writer.file_ptr_ then
    { writer with file := some (writer.content ++ [line]), written := writer.written ++ [line] }
  else { writer with null_written := true }

-- the name of a backup, from its two times
variable (backupName : Int → Int → Bytes)

def write (writer : LogWriter) (call : WriteCall) : LogWriter :=
  if writer.file_ptr_ then
    let name := backupName writer.begin_time_ call.ended_at
    let writer :=
      if writer.Rotates call then (writer.backUp call name).reopen call name else writer
    writer.print call.line
  else writer

/-- Every line is there as often as it was written, and nothing was written to a null pointer. -/
structure Lossless (writer : LogWriter) : Prop where
  kept : writer.written.Subperm writer.onDisk
  not_null : writer.null_written = false

/-- A rotation moves or copies the whole file, to a name under which no line is, and reopens
the file. -/
def RotatesWhole (writer : LogWriter) (call : WriteCall) : Prop :=
  writer.Rotates call →
    call.fopen = true ∧
      if call.move then overwritten (backupName writer.begin_time_ call.ended_at) writer.backups = []
      else
        match call.copied with
        | none => writer.content = []
        | some count =>
            writer.content.length ≤ count ∧
              overwritten (backupName writer.begin_time_ call.ended_at) writer.backups = []

structure Invariant (writer : LogWriter) : Prop where
  kept : writer.onDisk.Perm writer.written
  not_null : writer.null_written = false

/-! A backup is stored. -/

theorem store_perm (name : Bytes) (lines : List Bytes) (backups : List (Bytes × List Bytes)) :
    ((store name lines backups).flatMap Prod.snd ++ overwritten name backups).Perm
      (lines ++ backups.flatMap Prod.snd) := by
  have parts : (overwritten name backups ++
      (backups.filter fun backup => backup.1 ≠ name).flatMap Prod.snd).Perm
        (backups.flatMap Prod.snd) := by
    rw [overwritten, ← List.flatMap_append]
    have all := List.filter_append_perm (fun backup : Bytes × List Bytes => backup.1 = name) backups
    simpa using all.flatMap_right Prod.snd
  rw [store, List.flatMap_cons, List.append_assoc]
  exact (List.perm_append_comm.trans parts).append_left lines

/-- What a rotation loses once the file is reopened. -/
def lost (writer : LogWriter) (call : WriteCall) (name : Bytes) : List Bytes :=
  if call.move then overwritten name writer.backups
  else
    match call.copied with
    | none => writer.content
    | some count => writer.content.drop count ++ overwritten name writer.backups

theorem backUp_perm (writer : LogWriter) (call : WriteCall) (name : Bytes) :
    ((writer.backUp call name).backups.flatMap Prod.snd ++ writer.lost call name).Perm
      writer.onDisk := by
  unfold backUp lost
  by_cases moved : call.move = true
  · simp only [moved, if_true]
    exact store_perm name writer.content writer.backups
  · simp only [moved, Bool.false_eq_true, if_false]
    cases call.copied with
    | none => exact List.perm_append_comm
    | some count =>
        have stored := store_perm name (writer.content.take count) writer.backups
        refine List.perm_iff_count.mpr fun line => ?_
        have counted := stored.count_eq line
        have parts := congrArg (List.count line) (List.take_append_drop count writer.content)
        simp only [List.count_append, onDisk] at counted parts ⊢
        omega

theorem rotatesWhole_iff (writer : LogWriter) (call : WriteCall) :
    writer.RotatesWhole backupName call ↔
      (writer.Rotates call → call.fopen = true ∧
        writer.lost call (backupName writer.begin_time_ call.ended_at) = []) := by
  unfold RotatesWhole lost
  refine imp_congr_right fun _ => and_congr_right fun _ => ?_
  split_ifs with moved
  · rfl
  · cases call.copied with
    | none => rfl
    | some count => simp [List.drop_eq_nil_iff]

/-! One call. -/

theorem write_closed (writer : LogWriter) (call : WriteCall) (closed : writer.file_ptr_ = false) :
    writer.write backupName call = writer := by
  simp [write, closed]

theorem write_plain (writer : LogWriter) (call : WriteCall) (opened : writer.file_ptr_ = true)
    (stays : ¬ writer.Rotates call) :
    writer.write backupName call =
      { writer with
        file := some (writer.content ++ [call.line]), written := writer.written ++ [call.line] } := by
  simp [write, opened, stays, print]

theorem write_rotated (writer : LogWriter) (call : WriteCall) (rotates : writer.Rotates call)
    (reopened : call.fopen = true) :
    let name := backupName writer.begin_time_ call.ended_at
    (writer.write backupName call).onDisk =
        [call.header name, call.line] ++ (writer.backUp call name).backups.flatMap Prod.snd ∧
      (writer.write backupName call).written = writer.written ++ [call.header name, call.line] ∧
      (writer.write backupName call).null_written = writer.null_written := by
  have opened := rotates.1
  have kept : ∀ name, (writer.backUp call name).file_ptr_ = true ∧
      (writer.backUp call name).written = writer.written ∧
      (writer.backUp call name).null_written = writer.null_written := by
    intro name
    unfold backUp
    split_ifs
    · exact ⟨opened, rfl, rfl⟩
    · cases call.copied <;> exact ⟨opened, rfl, rfl⟩
  obtain ⟨still_open, same_written, same_null⟩ := kept (backupName writer.begin_time_ call.ended_at)
  simp [write, opened, rotates, reopen, reopened, print, still_open, same_written, same_null, onDisk,
    content]

theorem write_unopened (writer : LogWriter) (call : WriteCall) (rotates : writer.Rotates call)
    (failed : call.fopen = false) : (writer.write backupName call).null_written = true := by
  simp [write, rotates.1, rotates, reopen, failed, print]

theorem write_invariant (writer : LogWriter) (call : WriteCall) (invariant : writer.Invariant)
    (whole : writer.RotatesWhole backupName call) : (writer.write backupName call).Invariant := by
  by_cases opened : writer.file_ptr_ = true
  · by_cases rotates : writer.Rotates call
    · obtain ⟨reopened, nothing_lost⟩ := (rotatesWhole_iff backupName writer call).mp whole rotates
      obtain ⟨disk, lines, null⟩ := write_rotated backupName writer call rotates reopened
      have moved := backUp_perm writer call (backupName writer.begin_time_ call.ended_at)
      rw [nothing_lost, List.append_nil] at moved
      constructor
      · rw [disk, lines]
        exact List.perm_append_comm.trans ((moved.trans invariant.kept).append_right _)
      · rw [null, invariant.not_null]
    · rw [write_plain backupName writer call opened rotates]
      refine ⟨List.perm_iff_count.mpr fun line => ?_, invariant.not_null⟩
      have counted := invariant.kept.count_eq line
      simp only [onDisk, content, Option.getD_some, List.count_append] at counted ⊢
      omega
  · rw [write_closed backupName writer call (Bool.eq_false_iff.mpr opened)]
    exact invariant

/-- What is lost is there less often than it was written. -/
theorem write_loses (writer : LogWriter) (call : WriteCall) (invariant : writer.Invariant)
    (not_whole : ¬ writer.RotatesWhole backupName call) :
    ¬ (writer.write backupName call).Lossless := by
  rw [rotatesWhole_iff, Classical.not_imp, not_and_or] at not_whole
  obtain ⟨rotates, failed⟩ := not_whole
  by_cases reopened : call.fopen = true
  · obtain ⟨disk, lines, _⟩ := write_rotated backupName writer call rotates reopened
    have moved := backUp_perm writer call (backupName writer.begin_time_ call.ended_at)
    have some_lost := List.length_pos_iff.mpr (failed.resolve_left (not_not.mpr reopened))
    intro lossless
    have counted := lossless.kept.length_le
    have before := moved.length_eq
    have written := invariant.kept.length_eq
    rw [disk, lines] at counted
    simp only [List.length_append] at counted before
    omega
  · have null := write_unopened backupName writer call rotates (Bool.eq_false_iff.mpr reopened)
    intro lossless
    rw [lossless.not_null] at null
    cases null

/-- In a run no line is lost and no null pointer is written to exactly where each rotation
takes the whole file to a free name and reopens it. -/
theorem rotation_loses_nothing_iff (begin_time_ : Int) (lines : List Bytes)
    (backups : List (Bytes × List Bytes)) (calls : List WriteCall) :
    (∀ writer ∈ states (write backupName) (initial begin_time_ lines backups) calls,
        writer.Lossless) ↔
      Meets (write backupName) (RotatesWhole backupName) (initial begin_time_ lines backups)
        calls :=
  property_iff_meets (write backupName) (fun _ _ => True) (RotatesWhole backupName) Invariant Lossless
    (fun _ invariant => ⟨invariant.kept.symm.subperm, invariant.not_null⟩)
    (fun writer call invariant _ whole => write_invariant backupName writer call invariant whole)
    (fun writer call invariant _ not_whole =>
      write_loses backupName writer call invariant not_whole)
    (initial begin_time_ lines backups) calls ⟨List.Perm.refl _, rfl⟩
    (Run.meets_true (write backupName) (initial begin_time_ lines backups) calls)

/-! Two rotations in one second. -/

/-- A call at one second with a capacity of no bytes, at which everything succeeds. -/
def busyCall (second : Int) (message : Bytes) : WriteCall where
  logLevel := .info
  current_time := []
  thread := []
  file := []
  lineNum := 1
  message := message
  time_capacity_ := 86400
  size_capacity_ := 0
  tested_at := second
  ended_at := second * kMicroSecondsPerSecond
  begun_at := second
  move := true
  copied := none
  fopen := true

def busyCalls : List WriteCall :=
  [busyCall 1520244900 [chr 'a'], busyCall 1520244900 [chr 'b'], busyCall 1520244900 [chr 'c']]

def runLogName (begin_time_ now : Int) : Bytes :=
  backupFileName 0 begin_time_ now "run.log".toUTF8.data.toList

/-- The second backup replaces the first one, of the same name. -/
theorem backup_of_same_second_lost :
    (busyCall 1520244900 [chr 'a']).line ∈
        (Run.final (write runLogName) (initial 1520244900 [] []) busyCalls).written ∧
      (busyCall 1520244900 [chr 'a']).line ∉
        (Run.final (write runLogName) (initial 1520244900 [] []) busyCalls).onDisk ∧
      ¬ (Run.final (write runLogName) (initial 1520244900 [] []) busyCalls).Lossless := by
  have written : (busyCall 1520244900 [chr 'a']).line ∈
      (Run.final (write runLogName) (initial 1520244900 [] []) busyCalls).written := by decide +kernel
  have missing : (busyCall 1520244900 [chr 'a']).line ∉
      (Run.final (write runLogName) (initial 1520244900 [] []) busyCalls).onDisk := by decide +kernel
  exact ⟨written, missing, fun lossless => missing (lossless.kept.subset written)⟩

end LogWriter

end EChainLib.Utils
