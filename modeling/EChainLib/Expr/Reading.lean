import Mathlib
import EChainLib.Expr.Tree

/-! Reading a program into its tree, and that the parser, which reads and evaluates at
once, does to the symbols what the tree says. -/

namespace EChainLib.Expr

open EChainLib.Effects (bind_of_ok bind_of_error)

variable {F W : Type}

/-- What was read, or the tree of a text whose evaluation ends with an exception. -/
abbrev Reading (F W Value : Type) := Except (Tree F W) Value

/-- A tree and the scanner behind it. -/
abbrev Spelled (F W : Type) := Tree F W × Scanner F

section Reading

variable (m : Machine F W)

def Tree.seq (first second : Tree F W) : Tree F W := .binary .comma first second

/-- A failure behind operations that have been read: they are evaluated before it. -/
def after {Value : Type} (done : Tree F W) (reading : Reading F W Value) :
    Reading F W Value := reading.mapError done.seq

def step (move : Scanner F → Except Fault (Scanner F)) (scan : Scanner F) :
    Reading F W (Scanner F) := (move scan).mapError .fail

def readCall (expression : Scanner F → Reading F W (Spelled F W)) (word : Text)
    (scan : Scanner F) : Reading F W (Spelled F W) :=
  match callee m word with
  | .one f => do
      let (v, scan) ← expression scan
      let scan ← after v (step (closing m) scan)
      return (.one f v, scan)
  | .oneCommon => do
      let (v, scan) ← expression scan
      let scan ← after v (step (closing m) scan)
      return (.oneCommon word v, scan)
  | .two f => do
      let (v1, scan) ← expression scan
      let scan ← after v1 (step (wanted .comma) scan)
      let (v2, scan) ← after v1 (expression scan)
      let scan ← after (v1.seq v2) (step (closing m) scan)
      return (.two f v1 v2, scan)
  | .twoCommon => do
      let (v1, scan) ← expression scan
      let scan ← after v1 (step (wanted .comma) scan)
      let (v2, scan) ← after v1 (expression scan)
      let scan ← after (v1.seq v2) (step (closing m) scan)
      return (.twoCommon word v1 v2, scan)
  | .three f => do
      let (v1, scan) ← expression scan
      let scan ← after v1 (step (wanted .comma) scan)
      let (v2, scan) ← after v1 (expression scan)
      let scan ← after (v1.seq v2) (step (wanted .comma) scan)
      let (v3, scan) ← after (v1.seq v2) (expression scan)
      let scan ← after ((v1.seq v2).seq v3) (step (closing m) scan)
      return (.three f v1 v2 v3, scan)
  | .missing => .error (.fail (notImplemented word))

def readSymbol (expression : Scanner F → Reading F W (Spelled F W)) (word : Text) (scan : Scanner F) :
    Reading F W (Spelled F W) :=
  if scan.token.type ∈ assignments then
    match expression scan with
    | .ok (rhs, behind) => .ok (.assign scan.token.type word rhs, behind)
    | .error failed => .error (.assign scan.token.type word failed)
  else .ok (.symbol word, scan)

def readRounds (operand : Bool → Scanner F → Reading F W (Spelled F W)) (ops : List TokenType) :
    Nat → Tree F W → Scanner F → Reading F W (Spelled F W)
  | 0, left, _ => .error (left.seq (.fail .spent))
  | fuel + 1, left, scan =>
      if scan.token.type ∈ ops then do
        let (right, behind) ← after left (operand true scan)
        readRounds operand ops fuel (.binary scan.token.type left right) behind
      else .ok (left, scan)

def readLevel (operand : Bool → Scanner F → Reading F W (Spelled F W)) (ops : List TokenType) (fuel : Nat)
    (getFirst : Bool) (scan : Scanner F) : Reading F W (Spelled F W) := do
  let (left, behind) ← operand getFirst scan
  readRounds operand ops fuel left behind

section Levels

variable (primary : Bool → Scanner F → Reading F W (Spelled F W)) (fuel : Nat)

def readTerm : Bool → Scanner F → Reading F W (Spelled F W) := readLevel primary termOps fuel

def readAddSubtract : Bool → Scanner F → Reading F W (Spelled F W) :=
  readLevel (readTerm primary fuel) addSubtractOps fuel

def readComparison : Bool → Scanner F → Reading F W (Spelled F W) :=
  readLevel (readAddSubtract primary fuel) comparisonOps fuel

def readExpression : Bool → Scanner F → Reading F W (Spelled F W) :=
  readLevel (readComparison primary fuel) expressionOps fuel

def readCommaList : Bool → Scanner F → Reading F W (Spelled F W) :=
  readLevel (readExpression primary fuel) commaListOps fuel

end Levels

def readLiteral (v : ExprValue F) (scan : Scanner F) : Reading F W (Spelled F W) := do
  let behind ← step (getToken m.toLibrary true) scan
  return (.literal v, behind)

/-- `primary` once the first token is there. -/
def readToken (primary : Bool → Scanner F → Reading F W (Spelled F W)) (fuel : Nat) (scan : Scanner F) :
    Reading F W (Spelled F W) :=
  match scan.token.type with
  | .number => readLiteral m (.ofDouble scan.token.value) scan
  | .integer64 => readLiteral m (.ofInt m.toLibrary scan.token.iValue) scan
  | .string => readLiteral m (.ofString m.toLibrary scan.token.word) scan
  | .name => do
      let behind ← step (getToken m.toLibrary true) scan
      if behind.token.type = .lhparen then
        readCall m (readExpression primary fuel true) scan.token.word behind
      else
        readSymbol (readExpression primary fuel true) scan.token.word behind
  | .minus => do
      let (v, behind) ← primary true scan
      return (.negated v, behind)
  | .not => do
      let (v, behind) ← primary true scan
      return (.inverted v, behind)
  | .lhparen => do
      let (v, behind) ← readCommaList primary fuel true scan
      let closed ← after v (step (closing m) behind)
      return (v, closed)
  | _ => .error (.fail (unexpectedToken scan.token))

def readPrimary : Nat → Bool → Scanner F → Reading F W (Spelled F W)
  | 0, _, _ => .error (.fail .spent)
  | fuel + 1, true, scan => do
      let scan ← step (getToken m.toLibrary false) scan
      readToken m (readPrimary fuel) fuel scan
  | fuel + 1, false, scan => readToken m (readPrimary fuel) fuel scan

/-- The tree of a program. -/
def readProgram (fuel : Nat) (program : Text) : Tree F W :=
  match readCommaList (readPrimary m fuel) fuel true (fresh m program) with
  | .ok (t, scan) =>
      if scan.token.type = .end_ then t else t.seq (.fail (unexpectedText scan))
  | .error failed => failed

end Reading

/-! The operations on the parser, with the registered functions given by `commons`. -/

def running (m : Machine F W) (commons : Calls F W) :
    Meaning F W (ExprValue F) (ExprParser F W) Stop where
  literal v := v
  fail := .fault
  one := callOne
  oneCommon := commons.one
  two := callTwo
  twoCommon := commons.two
  three f v1 v2 v3 := raise (f v1 v2 v3)
  lookUp := lookUp m
  entry := entry
  store := store m
  negated v := raise (negated m.toLibrary v)
  inverted v := raise (inverted m.toLibrary v)
  binary op left d := raise (operate m.toLibrary op left d)

/-! The parser and the tree side by side. -/

def ExprParser.at (p : ExprParser F W) (scan : Scanner F) : ExprParser F W := { p with scan }

/-- The plan does not touch what decides how the run goes on. -/
def Kept (p q : ExprParser F W) : Prop := q.detect = p.detect ∧ q.program = p.program

theorem kept_refl (p : ExprParser F W) : Kept p p := ⟨rfl, rfl⟩

theorem kept_trans {p q r : ExprParser F W} (first : Kept p q) (second : Kept q r) : Kept p r :=
  ⟨second.1.trans first.1, second.2.trans first.2⟩

/-- At `scan` the run does what the plan says, and leaves the scanner at `next` if it
returns. Where the plan is cut at a registered function nothing is said. -/
def Follows {Value : Type} (detect : Bool) (run plan : Run F W Value) (scan : Scanner F)
    (next : Option (Scanner F)) : Prop :=
  ∀ p, p.detect = detect →
    match plan p with
    | .ok v q =>
        Kept p q ∧ ∃ behind, next = some behind ∧ run (p.at scan) = .ok v (q.at behind)
    | .error stop q =>
        stop = .called ∨ (Kept p q ∧ ∃ behind, run (p.at scan) = .error stop (q.at behind))

section Rules

variable {Value Other : Type} {detect : Bool} {run plan : Run F W Value} {scan mid : Scanner F}
  {next : Option (Scanner F)}

theorem follows_pure (v : Value) :
    Follows detect (pure v : Run F W Value) (pure v) scan (some scan) :=
  fun p _ => ⟨kept_refl p, scan, rfl, rfl⟩

theorem follows_throw (stop : Stop) :
    Follows detect (throw stop : Run F W Value) (throw stop) scan next :=
  fun p _ => Or.inr ⟨kept_refl p, scan, rfl⟩

theorem follows_bind {more more' : Value → Run F W Other}
    (first : Follows detect run plan scan (some mid))
    (rest : ∀ v, Follows detect (more v) (more' v) mid next) :
    Follows detect (run >>= more) (plan >>= more') scan next := by
  intro p mode
  have here := first p mode
  cases outcome : plan p with
  | ok v q =>
      rw [outcome] at here
      obtain ⟨kept, behind, found, ran⟩ := here
      cases found
      rw [bind_of_ok outcome, bind_of_ok ran]
      have there := rest v q (kept.1.trans mode)
      cases final : more' v q with
      | ok other r =>
          rw [final] at there
          exact ⟨kept_trans kept there.1, there.2⟩
      | error stop r =>
          rw [final] at there
          exact there.imp_right fun ⟨keptRest, ends⟩ => ⟨kept_trans kept keptRest, ends⟩
  | error stop q =>
      rw [outcome] at here
      rw [bind_of_error outcome]
      exact here.imp_right fun ⟨kept, behind, ran⟩ => ⟨kept, behind, bind_of_error ran _⟩

/-- A plan that never returns needs nothing behind it. -/
theorem follows_bind_none {more : Value → Run F W Value}
    (first : Follows detect run plan scan none) :
    Follows detect (run >>= more) plan scan none := by
  intro p mode
  have here := first p mode
  cases outcome : plan p with
  | ok v q =>
      rw [outcome] at here
      obtain ⟨_, _, absurd, _⟩ := here
      cases absurd
  | error stop q =>
      rw [outcome] at here
      exact here.imp_right fun ⟨kept, behind, ran⟩ => ⟨kept, behind, bind_of_error ran _⟩

theorem follows_plan_none {more : Value → Run F W Value}
    (first : Follows detect run plan scan none) :
    Follows detect run (plan >>= more) scan none := by
  intro p mode
  have here := first p mode
  cases outcome : plan p with
  | ok v q =>
      rw [outcome] at here
      obtain ⟨_, _, absurd, _⟩ := here
      cases absurd
  | error stop q =>
      rw [outcome] at here
      rw [bind_of_error outcome]
      exact here

theorem follows_scanned {more : Scanner F → Run F W Value}
    (rest : Follows detect (more scan) plan scan next) :
    Follows detect (scanned >>= more) plan scan next := rest

theorem follows_scanning {move : Scanner F → Except Fault (Scanner F)}
    {more : Unit → Run F W Value} (moved : move scan = .ok mid)
    (rest : Follows detect (more ()) plan mid next) :
    Follows detect (scanning move >>= more) plan scan next := by
  intro p mode
  rw [bind_of_ok (scanning_ok move (p.at scan) mid moved)]
  exact rest p mode

theorem follows_scanning_error {move : Scanner F → Except Fault (Scanner F)}
    {more : Unit → Run F W Value} {fault : Fault} (failed : move scan = .error fault) :
    Follows detect (scanning move >>= more) (throw (Stop.fault fault)) scan next := by
  intro p mode
  exact Or.inr ⟨kept_refl p, scan, bind_of_error (scanning_error move (p.at scan) fault failed) _⟩

end Rules

section Spells

variable (m : Machine F W) (detect : Bool) (calls commons : Calls F W)

def Spells (run : Run F W (ExprValue F)) (scan : Scanner F)
    (reading : Reading F W (Spelled F W)) : Prop :=
  match reading with
  | .ok (t, behind) => Follows detect run (t.eval (running m commons)) scan (some behind)
  | .error failed => Follows detect run (failed.eval (running m commons)) scan none

/-- The same for a reading that goes on from operations already begun. -/
def SpellsOn {Begun : Type} (begun : Run F W Begun) (more : Begun → Run F W (ExprValue F))
    (scan : Scanner F) (reading : Reading F W (Spelled F W)) : Prop :=
  match reading with
  | .ok (t, behind) => ∃ plan, t.eval (running m commons) = begun >>= plan ∧
      ∀ v, Follows detect (more v) (plan v) scan (some behind)
  | .error failed => ∃ plan, failed.eval (running m commons) = begun >>= plan ∧
      ∀ v, Follows detect (more v) (plan v) scan none

variable {m detect commons}

theorem eval_seq (first second : Tree F W) :
    (first.seq second).eval (running m commons) =
      first.eval (running m commons) >>= fun _ => second.eval (running m commons) := by
  show (first.eval (running m commons) >>= fun _ => second.eval (running m commons) >>= pure) = _
  simp only [bind_pure]

section Steps

variable {Begun : Type} {begun : Run F W Begun} {scan mid : Scanner F} {done : Tree F W}
  {rest : Scanner F → Reading F W (Spelled F W)}

theorem spells_of_on {run : Run F W (ExprValue F)} {more : ExprValue F → Run F W (ExprValue F)}
    {t : Tree F W} {reading : Reading F W (Spelled F W)}
    (first : Follows detect run (t.eval (running m commons)) scan (some mid))
    (on : SpellsOn m detect commons (t.eval (running m commons)) more mid reading) :
    Spells m detect commons (run >>= more) scan reading := by
  cases reading with
  | ok spelled =>
      obtain ⟨plan, same, follows⟩ := on
      show Follows detect _ (spelled.1.eval (running m commons)) scan (some spelled.2)
      rw [same]
      exact follows_bind first follows
  | error failed =>
      obtain ⟨plan, same, follows⟩ := on
      show Follows detect _ (failed.eval (running m commons)) scan none
      rw [same]
      exact follows_bind first follows

theorem spells_scanned {more : Scanner F → Run F W (ExprValue F)}
    {reading : Reading F W (Spelled F W)}
    (there : Spells m detect commons (more scan) scan reading) :
    Spells m detect commons (scanned >>= more) scan reading := by
  cases reading with
  | ok spelled => exact follows_scanned there
  | error failed => exact follows_scanned there

theorem spells_scanning {move : Scanner F → Except Fault (Scanner F)}
    {more : Unit → Run F W (ExprValue F)}
    (there : ∀ mid, Spells m detect commons (more ()) mid (rest mid)) :
    Spells m detect commons (scanning move >>= more) scan (step move scan >>= rest) := by
  cases moved : move scan with
  | error fault =>
      rw [show (step move scan >>= rest) = .error (.fail fault) by
        simp only [step, moved]
        rfl]
      show Follows detect _ (throw (Stop.fault fault)) scan none
      exact follows_scanning_error moved
  | ok mid =>
      have further := there mid
      rw [show (step move scan >>= rest) = rest mid by
        simp only [step, moved]
        rfl]
      cases found : rest mid with
      | ok spelled =>
          rw [found] at further
          exact follows_scanning moved further
      | error failed =>
          rw [found] at further
          exact follows_scanning moved further

theorem spells_bind {run : Run F W (ExprValue F)} {more : ExprValue F → Run F W (ExprValue F)}
    {reading : Reading F W (Spelled F W)} {next : Spelled F W → Reading F W (Spelled F W)}
    (first : Spells m detect commons run scan reading)
    (on : ∀ t mid, SpellsOn m detect commons (t.eval (running m commons)) more mid
      (next (t, mid))) :
    Spells m detect commons (run >>= more) scan (reading >>= next) := by
  cases reading with
  | ok spelled => exact spells_of_on first (on spelled.1 spelled.2)
  | error failed => exact follows_bind_none first

theorem on_done (t : Tree F W) (plan : Begun → Run F W (ExprValue F))
    (same : t.eval (running m commons) = begun >>= plan)
    {more : Begun → Run F W (ExprValue F)}
    (follows : ∀ v, Follows detect (more v) (plan v) scan (some mid)) :
    SpellsOn m detect commons begun more scan (.ok (t, mid)) :=
  ⟨plan, same, follows⟩

theorem on_step (last : Begun → ExprValue F) {move : Scanner F → Except Fault (Scanner F)}
    {more : Begun → Unit → Run F W (ExprValue F)}
    (ready : done.eval (running m commons) = begun >>= fun v => pure (last v))
    (on : ∀ mid, SpellsOn m detect commons begun (fun v => more v ()) mid (rest mid)) :
    SpellsOn m detect commons begun (fun v => scanning move >>= more v) scan
      (after done (step move scan) >>= rest) := by
  cases moved : move scan with
  | error fault =>
      have failed : (after done (step move scan) >>= rest) = .error (done.seq (.fail fault)) := by
        simp only [after, step, moved]
        rfl
      rw [failed]
      refine ⟨fun _ => throw (Stop.fault fault), ?_, fun v => follows_scanning_error moved⟩
      rw [eval_seq, ready, bind_assoc]
      rfl
  | ok mid =>
      have went : (after done (step move scan) >>= rest) = rest mid := by
        simp only [after, step, moved]
        rfl
      rw [went]
      have further := on mid
      cases found : rest mid with
      | ok spelled =>
          rw [found] at further
          obtain ⟨plan, same, follows⟩ := further
          exact ⟨plan, same, fun v => follows_scanning moved (follows v)⟩
      | error failed =>
          rw [found] at further
          obtain ⟨plan, same, follows⟩ := further
          exact ⟨plan, same, fun v => follows_scanning moved (follows v)⟩

theorem on_scanned {more : Begun → Scanner F → Run F W (ExprValue F)}
    {reading : Reading F W (Spelled F W)}
    (on : SpellsOn m detect commons begun (fun v => more v scan) scan reading) :
    SpellsOn m detect commons begun (fun v => scanned >>= more v) scan reading := by
  cases reading with
  | ok spelled =>
      obtain ⟨plan, same, follows⟩ := on
      exact ⟨plan, same, fun v => follows_scanned (follows v)⟩
  | error failed =>
      obtain ⟨plan, same, follows⟩ := on
      exact ⟨plan, same, fun v => follows_scanned (follows v)⟩

/-- An operation on what was begun. -/
theorem on_operation {op run : Begun → Run F W (ExprValue F)}
    {more : ExprValue F → Run F W (ExprValue F)} {reading : Reading F W (Spelled F W)}
    (follows : ∀ v, Follows detect (run v) (op v) scan (some scan))
    (on : SpellsOn m detect commons (begun >>= op) more scan reading) :
    SpellsOn m detect commons begun (fun v => run v >>= more) scan reading := by
  cases reading with
  | ok spelled =>
      obtain ⟨plan, same, further⟩ := on
      exact ⟨fun v => op v >>= plan, by rw [same, bind_assoc],
        fun v => follows_bind (follows v) further⟩
  | error failed =>
      obtain ⟨plan, same, further⟩ := on
      exact ⟨fun v => op v >>= plan, by rw [same, bind_assoc],
        fun v => follows_bind (follows v) further⟩

/-- One more operand behind the operations begun. -/
theorem on_operand (last : Begun → ExprValue F) {run : Run F W (ExprValue F)}
    {more : Begun → ExprValue F → Run F W (ExprValue F)}
    {reading : Reading F W (Spelled F W)} {next : Spelled F W → Reading F W (Spelled F W)}
    (ready : done.eval (running m commons) = begun >>= fun v => pure (last v))
    (first : Spells m detect commons run scan reading)
    (on : ∀ t mid, SpellsOn m detect commons
      (begun >>= fun v => t.eval (running m commons) >>= fun w => pure (v, w))
      (fun both => more both.1 both.2) mid (next (t, mid))) :
    SpellsOn m detect commons begun (fun v => run >>= more v) scan
      (after done reading >>= next) := by
  cases reading with
  | error failed =>
      refine ⟨fun _ => failed.eval (running m commons), ?_, fun v => follows_bind_none first⟩
      show (done.seq failed).eval (running m commons) = _
      rw [eval_seq, ready, bind_assoc]
      rfl
  | ok spelled =>
      have further := on spelled.1 spelled.2
      show SpellsOn m detect commons begun (fun v => run >>= more v) scan (next spelled)
      cases found : next spelled with
      | ok result =>
          rw [show next (spelled.1, spelled.2) = .ok result from found] at further
          obtain ⟨plan, same, follows⟩ := further
          refine ⟨fun v => spelled.1.eval (running m commons) >>= fun w => plan (v, w), ?_,
            fun v => follows_bind first fun w => follows (v, w)⟩
          rw [same]
          simp only [bind_assoc, pure_bind]
      | error failed =>
          rw [show next (spelled.1, spelled.2) = .error failed from found] at further
          obtain ⟨plan, same, follows⟩ := further
          refine ⟨fun v => spelled.1.eval (running m commons) >>= fun w => plan (v, w), ?_,
            fun v => follows_bind first fun w => follows (v, w)⟩
          rw [same]
          simp only [bind_assoc, pure_bind]

theorem ready_first (t : Tree F W) : t.eval (running m commons) =
    t.eval (running m commons) >>= fun v => pure (id v) :=
  (bind_pure _).symm

theorem ready_next (last : Begun → ExprValue F) (t : Tree F W)
    (ready : done.eval (running m commons) = begun >>= fun v => pure (last v)) :
    (done.seq t).eval (running m commons) =
      (begun >>= fun v => t.eval (running m commons) >>= fun w => pure (v, w)) >>=
        fun both => pure both.2 := by
  rw [eval_seq, ready]
  simp only [bind_assoc, pure_bind, bind_pure]

end Steps

/-! The operations do not read the text. -/

theorem follows_raise {Value : Type} (result : Except Text Value) (scan : Scanner F) :
    Follows detect (raise result : Run F W Value) (raise result) scan (some scan) := by
  cases result with
  | ok value => exact follows_pure value
  | error what => exact follows_throw _

theorem follows_callOne (f : OneArgFunction F W) (v : ExprValue F) (scan : Scanner F) :
    Follows detect (callOne f v) (callOne f v) scan (some scan) :=
  fun _ _ => ⟨⟨rfl, rfl⟩, scan, rfl, rfl⟩

theorem follows_callTwo (f : TwoArgFunction F W) (v1 v2 : ExprValue F) (scan : Scanner F) :
    Follows detect (callTwo f v1 v2) (callTwo f v1 v2) scan (some scan) :=
  fun p mode => follows_raise (f.apply v1 v2 p.world).1 scan
    { p with world := (f.apply v1 v2 p.world).2 } mode

theorem follows_lookUp (word : Text) (scan : Scanner F) :
    Follows detect (lookUp m word) (lookUp m word : Run F W Unit) scan (some scan) := by
  intro p mode
  cases found : p.symbols word with
  | some v =>
      rw [lookUp_some m word p v found]
      exact ⟨kept_refl p, scan, rfl, lookUp_some m word (p.at scan) v found⟩
  | none =>
      rw [lookUp_none m word p found]
      exact ⟨⟨rfl, rfl⟩, scan, rfl, lookUp_none m word (p.at scan) found⟩

theorem follows_entry (word : Text) (scan : Scanner F) :
    Follows detect (entry word) (entry word : Run F W (ExprValue F)) scan (some scan) := by
  intro p mode
  cases found : p.symbols word with
  | some v =>
      rw [entry_some word p v found]
      exact ⟨kept_refl p, scan, rfl, entry_some word (p.at scan) v found⟩
  | none =>
      rw [entry_none word p found]
      exact Or.inr ⟨kept_refl p, scan, entry_none word (p.at scan) found⟩

theorem follows_store (op : TokenType) (word : Text) (d : ExprValue F) (scan : Scanner F) :
    Follows detect (store m op word d) (store m op word d : Run F W Unit) scan (some scan) := by
  apply follows_bind (follows_entry word scan)
  intro v
  apply follows_bind (follows_raise _ scan)
  intro w p mode
  exact ⟨⟨rfl, rfl⟩, scan, rfl, rfl⟩

/-- The registered functions as the plan has them, where the run calls them. -/
structure Serves (m : Machine F W) (detect : Bool) (calls commons : Calls F W) : Prop where
  one : ∀ word v scan,
    Follows detect (callOneCommon m calls word v) (commons.one word v) scan (some scan)
  two : ∀ word v1 v2 scan,
    Follows detect (callTwoCommon m calls word v1 v2) (commons.two word v1 v2) scan (some scan)

section Levels

variable {calls : Calls F W} (serves : Serves m detect calls commons)

include serves in
theorem spells_call {expression : Run F W (ExprValue F)}
    {read : Scanner F → Reading F W (Spelled F W)}
    (spells : ∀ scan, Spells m detect commons expression scan (read scan)) (word : Text)
    (scan : Scanner F) :
    Spells m detect commons (functionCall m calls expression word) scan
      (readCall m read word scan) := by
  unfold functionCall readCall
  -- the operands are read one after the other, each only if the one before was; the function is
  -- called behind the closing bracket
  cases callee m word with
  | one f =>
      apply spells_bind (spells scan)
      intro v behind
      apply on_step id (ready_first v)
      intro closed
      apply on_done _ (callOne f) rfl
      intro value
      exact follows_callOne f value closed
  | oneCommon =>
      apply spells_bind (spells scan)
      intro v behind
      apply on_step id (ready_first v)
      intro closed
      apply on_done _ (commons.one word) rfl
      intro value
      exact serves.one word value closed
  | two f =>
      apply spells_bind (spells scan)
      intro v1 behind
      apply on_step id (ready_first v1)
      intro comma
      apply on_operand id (ready_first v1) (spells comma)
      intro v2 behind2
      apply on_step Prod.snd (ready_next id v2 (ready_first v1))
      intro closed
      apply on_done _ (fun both => callTwo f both.1 both.2)
      · simp only [bind_assoc, pure_bind]
        rfl
      · intro both
        exact follows_callTwo f both.1 both.2 closed
  | twoCommon =>
      apply spells_bind (spells scan)
      intro v1 behind
      apply on_step id (ready_first v1)
      intro comma
      apply on_operand id (ready_first v1) (spells comma)
      intro v2 behind2
      apply on_step Prod.snd (ready_next id v2 (ready_first v1))
      intro closed
      apply on_done _ (fun both => commons.two word both.1 both.2)
      · simp only [bind_assoc, pure_bind]
        rfl
      · intro both
        exact serves.two word both.1 both.2 closed
  | three f =>
      apply spells_bind (spells scan)
      intro v1 behind
      apply on_step id (ready_first v1)
      intro comma
      apply on_operand id (ready_first v1) (spells comma)
      intro v2 behind2
      apply on_step Prod.snd (ready_next id v2 (ready_first v1))
      intro comma2
      apply on_operand Prod.snd (ready_next id v2 (ready_first v1)) (spells comma2)
      intro v3 behind3
      apply on_step Prod.snd (ready_next Prod.snd v3 (ready_next id v2 (ready_first v1)))
      intro closed
      apply on_done _ (fun all => raise (f all.1.1 all.1.2 all.2))
      · simp only [bind_assoc, pure_bind]
        rfl
      · intro all
        exact follows_raise _ closed
  | missing =>
      show Follows detect (throw (Stop.fault (notImplemented word)))
        (throw (Stop.fault (notImplemented word))) scan none
      exact follows_throw _

theorem spells_symbol {expression : Run F W (ExprValue F)}
    {read : Scanner F → Reading F W (Spelled F W)}
    (spells : ∀ scan, Spells m detect commons expression scan (read scan)) (word : Text)
    (scan : Scanner F) :
    Spells m detect commons (symbol m expression word) scan (readSymbol read word scan) := by
  unfold symbol readSymbol
  by_cases assigns : scan.token.type ∈ assignments
  · have there := spells scan
    simp only [assigns, if_true]
    cases found : read scan with
    | ok spelled =>
        rw [found] at there
        apply follows_bind (follows_lookUp word scan)
        intro _
        apply follows_scanned
        simp only [assigns, if_true]
        apply follows_bind there
        intro d
        apply follows_bind (follows_store scan.token.type word d spelled.2)
        intro _
        exact follows_entry word spelled.2
    | error failed =>
        rw [found] at there
        apply follows_bind (follows_lookUp word scan)
        intro _
        apply follows_scanned
        simp only [assigns, if_true]
        apply follows_plan_none
        exact follows_bind_none there
  · simp only [assigns, if_false]
    apply follows_bind (follows_lookUp word scan)
    intro _
    apply follows_scanned
    simp only [assigns, if_false]
    exact follows_entry word scan

theorem spells_rounds {operand : Bool → Run F W (ExprValue F)}
    {read : Bool → Scanner F → Reading F W (Spelled F W)}
    (spells : ∀ getFirst scan, Spells m detect commons (operand getFirst) scan (read getFirst scan))
    (ops : List TokenType) (fuel : Nat) (left : Tree F W) (scan : Scanner F) :
    SpellsOn m detect commons (left.eval (running m commons)) (rounds m operand ops fuel) scan
      (readRounds read ops fuel left scan) := by
  induction fuel generalizing left scan with
  | zero =>
      refine ⟨fun _ => throw (Stop.fault .spent), eval_seq left _, fun v => ?_⟩
      exact follows_throw (Stop.fault .spent)
  | succ fuel ih =>
      apply on_scanned
      by_cases goesOn : scan.token.type ∈ ops
      · simp only [readRounds, goesOn, if_true]
        apply on_operand id (ready_first left) (spells true scan)
        intro right behind
        refine on_operation (fun both : ExprValue F × ExprValue F =>
          follows_raise (operate m.toLibrary scan.token.type both.1 both.2) behind) ?_
        have evaluated : (Tree.binary scan.token.type left right).eval (running m commons) =
            (left.eval (running m commons) >>= fun v =>
              right.eval (running m commons) >>= fun w => pure (v, w)) >>= fun both =>
                raise (operate m.toLibrary scan.token.type both.1 both.2) := by
          simp only [bind_assoc, pure_bind]
          rfl
        rw [← evaluated]
        exact ih (.binary scan.token.type left right) behind
      · simp only [readRounds, goesOn, if_false]
        exact on_done left pure (bind_pure _).symm fun v => follows_pure v

theorem spells_level {operand : Bool → Run F W (ExprValue F)}
    {read : Bool → Scanner F → Reading F W (Spelled F W)}
    (spells : ∀ getFirst scan, Spells m detect commons (operand getFirst) scan (read getFirst scan))
    (ops : List TokenType) (fuel : Nat) (getFirst : Bool) (scan : Scanner F) :
    Spells m detect commons (level m operand ops fuel getFirst) scan
      (readLevel read ops fuel getFirst scan) := by
  apply spells_bind (spells getFirst scan)
  intro left behind
  exact spells_rounds spells ops fuel left behind

section Primary

variable {primary : Bool → Run F W (ExprValue F)}
  {read : Bool → Scanner F → Reading F W (Spelled F W)}
  (spells : ∀ getFirst scan, Spells m detect commons (primary getFirst) scan (read getFirst scan))

include spells

theorem spells_expression (fuel : Nat) (getFirst : Bool) (scan : Scanner F) :
    Spells m detect commons (expression m primary fuel getFirst) scan
      (readExpression read fuel getFirst scan) := by
  apply spells_level
  apply spells_level
  apply spells_level
  apply spells_level
  exact spells

theorem spells_commaList (fuel : Nat) (getFirst : Bool) (scan : Scanner F) :
    Spells m detect commons (commaList m primary fuel getFirst) scan
      (readCommaList read fuel getFirst scan) := by
  apply spells_level
  exact spells_expression spells fuel

end Primary

theorem spells_literal (v : ExprValue F) (scan : Scanner F) :
    Spells m detect commons (literal m v) scan (readLiteral m v scan) := by
  apply spells_scanning
  intro behind
  exact follows_pure v

/-- An operator in front of an operand. -/
theorem spells_unary {run : Run F W (ExprValue F)} {scan : Scanner F}
    {reading : Reading F W (Spelled F W)} {op : ExprValue F → Except Text (ExprValue F)}
    {node : Tree F W → Tree F W}
    (means : ∀ t, (node t).eval (running m commons) =
      t.eval (running m commons) >>= fun v => raise (op v))
    (spells : Spells m detect commons run scan reading) :
    Spells m detect commons (run >>= fun v => raise (op v)) scan
      (reading >>= fun read => .ok (node read.1, read.2)) := by
  apply spells_bind spells
  intro t behind
  exact on_done (node t) _ (means t) fun v => follows_raise (op v) behind

include serves in
theorem spells_token {primary : Bool → Run F W (ExprValue F)}
    {read : Bool → Scanner F → Reading F W (Spelled F W)}
    (spells : ∀ getFirst scan, Spells m detect commons (primary getFirst) scan (read getFirst scan))
    (fuel : Nat) (scan : Scanner F) :
    Spells m detect commons (tokenCase m calls primary fuel) scan (readToken m read fuel scan) := by
  apply spells_scanned
  unfold readToken
  cases scan.token.type with
  | number => exact spells_literal _ scan
  | integer64 => exact spells_literal _ scan
  | string => exact spells_literal _ scan
  | name =>
      apply spells_scanning
      intro behind
      apply spells_scanned
      by_cases call : behind.token.type = .lhparen
      · simp only [call, if_true]
        exact spells_call serves (spells_expression spells fuel true) scan.token.word behind
      · simp only [call, if_false]
        exact spells_symbol (spells_expression spells fuel true) scan.token.word behind
  | minus => exact spells_unary (fun t => rfl) (spells true scan)
  | not => exact spells_unary (fun t => rfl) (spells true scan)
  | lhparen =>
      apply spells_bind (spells_commaList spells fuel true scan)
      intro v behind
      apply on_step id (ready_first v)
      intro closed
      exact on_done v pure (bind_pure _).symm fun value => follows_pure value
  | _ =>
      show Follows detect (throw _) (throw _) scan none
      exact follows_throw _

include serves in
theorem spells_primary (fuel : Nat) (getFirst : Bool) (scan : Scanner F) :
    Spells m detect commons (primary m calls fuel getFirst) scan
      (readPrimary m fuel getFirst scan) := by
  induction fuel generalizing getFirst scan with
  | zero =>
      show Follows detect (throw (Stop.fault .spent)) (throw (Stop.fault .spent)) scan none
      exact follows_throw (Stop.fault .spent)
  | succ fuel ih =>
      cases getFirst with
      | false => exact spells_token serves ih fuel scan
      | true =>
          apply spells_scanning
          intro first
          exact spells_token serves ih fuel first

end Levels

/-! A whole program. -/

variable {calls : Calls F W}

/-- `Evaluate` behind its first two assignments. -/
theorem follows_program (serves : Serves m detect calls commons) (fuel : Nat) (program : Text) :
    ∃ next, Follows detect (do
        let v ← commaList m (primary m calls fuel) fuel true
        let scan ← scanned
        if scan.token.type = .end_ then return v
        else throw (.fault (unexpectedText scan)))
      ((readProgram m fuel program).eval (running m commons)) (fresh m program) next := by
  have there := spells_commaList (spells_primary serves fuel) fuel true (fresh m program)
  unfold readProgram
  cases found : readCommaList (readPrimary m fuel) fuel true (fresh m program) with
  | error failed =>
      rw [found] at there
      exact ⟨none, follows_bind_none there⟩
  | ok spelled =>
      rw [found] at there
      by_cases ended : spelled.2.token.type = .end_
      · refine ⟨some spelled.2, ?_⟩
        simp only [ended, if_true]
        rw [← bind_pure (spelled.1.eval (running m commons))]
        apply follows_bind there
        intro v
        apply follows_scanned
        simp only [ended, if_true]
        exact follows_pure v
      · refine ⟨none, ?_⟩
        simp only [ended, if_false]
        rw [eval_seq]
        apply follows_bind there
        intro v
        apply follows_scanned
        simp only [ended, if_false]
        exact follows_throw _

/-- Evaluating a program does what its tree says. -/
theorem evaluate_follows (serves : Serves m detect calls commons) (fuel : Nat)
    (p : ExprParser F W) (mode : p.detect = detect) :
    match (readProgram m fuel p.program).eval (running m commons) p with
    | .ok v q => Kept p q ∧ ∃ behind, evaluate m calls fuel p = .ok v (q.at behind)
    | .error stop q =>
        stop = .called ∨
          (Kept p q ∧ ∃ behind, evaluate m calls fuel p = .error stop (q.at behind)) := by
  obtain ⟨next, follows⟩ := follows_program serves fuel p.program
  have here := follows p mode
  cases outcome : (readProgram m fuel p.program).eval (running m commons) p with
  | ok v q =>
      rw [outcome] at here
      obtain ⟨kept, behind, _, ran⟩ := here
      exact ⟨kept, behind, ran⟩
  | error stop q =>
      rw [outcome] at here
      exact here

end Spells

end EChainLib.Expr
