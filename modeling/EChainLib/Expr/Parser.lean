import Mathlib
import EChainLib.Support.Effects
import EChainLib.Expr.Lexer

/-! `ExprParser`: the functions it knows, and the evaluation of a program by recursive
descent. The fuel bounds the depth of the recursion and the rounds of each loop; it runs
out as `Fault.spent`. -/

namespace EChainLib.Expr

open EChainLib.Effects (bind_of_ok bind_of_error)

variable {F W : Type}

abbrev SymbolTable (F : Type) := Text → Option (ExprValue F)

/-- The parser and, in `world`, everything outside it that `std::rand` and the
registered functions read and write. -/
structure ExprParser (F W : Type) where
  program : Text
  scan : Scanner F
  detect : Bool
  symbols : SymbolTable F
  world : W

/-- A run may be cut at the first registered function that it calls. -/
inductive Stop where
  | fault (fault : Fault)
  | called
  deriving DecidableEq

abbrev Run (F W : Type) := EStateM Stop (ExprParser F W)

/-- The C++ run time: `std::rand`, and which functions are registered. -/
structure Machine (F W : Type) extends Library F where
  randMax : Int64
  rand : W → Int64 × W
  /-- The names in `OneCommonArgumentFunctions` and `TwoCommonArgumentFunctions`. -/
  oneCommon : Text → Bool
  twoCommon : Text → Bool

/-- The functions registered under those names. They are given the parser. -/
structure Calls (F W : Type) where
  one : Text → ExprValue F → Run F W (ExprValue F)
  two : Text → ExprValue F → ExprValue F → Run F W (ExprValue F)

section Functions

variable (m : Machine F W)

/-- `ExprParser (program)`. -/
def ExprParser.create (program : Text) (world : W) : ExprParser F W where
  program := program
  scan := ⟨program, program, plainToken m.toLibrary .none []⟩
  detect := false
  symbols := fun word =>
    if word = "pi".toList then some (.ofDouble m.pi)
    else if word = "e".toList then some (.ofDouble m.e)
    else none
  world := world

def getrandom (x : Int64) (world : W) : Int64 × W :=
  if x ≤ 0 then (0, world)
  else
    let r := m.div (m.fromInt ((m.rand world).1 % m.randMax)) (m.add (m.fromInt m.randMax) m.one)
    (m.toInt64 (m.floor (m.mul r (m.fromInt x))), (m.rand world).2)

def rollLoop (die : Int64) : Nat → Int64 → W → Int64 × W
  | 0, total, world => (total, world)
  | count + 1, total, world =>
      rollLoop die count (total + (getrandom m die world).1 + 1) (getrandom m die world).2

def roll (howmany die : Int64) (world : W) : Int64 × W :=
  rollLoop m die howmany.toInt.toNat 0 world

def percent (prob : Int64) (world : W) : Bool × W :=
  if prob ≤ 0 then (false, world)
  else if 100 ≤ prob then (true, world)
  else
    (100 - prob < (getrandom m 100 world).1, (getrandom m 100 world).2)

def doInt (arg : F) : F := m.fromInt (m.toInt arg)

def doRandom (arg : F) (world : W) : F × W :=
  (m.fromInt (getrandom m (m.toInt arg) world).1, (getrandom m (m.toInt arg) world).2)

def doPercent (arg : F) (world : W) : F × W :=
  (if (percent m (m.toInt arg) world).1 then m.one else m.zero,
    (percent m (m.toInt arg) world).2)

def doMin (arg1 arg2 : ExprValue F) : Except Text (ExprValue F) := do
  let less ← arg1.lt m.toLibrary arg2
  return if ← less.toBool m.toLibrary then arg1 else arg2

def doMax (arg1 arg2 : ExprValue F) : Except Text (ExprValue F) := do
  let greater ← arg1.gt m.toLibrary arg2
  return if ← greater.toBool m.toLibrary then arg1 else arg2

def doFmod (arg1 arg2 : ExprValue F) : Except Text (ExprValue F) :=
  if arg1.type ≠ .number ∨ arg2.type ≠ .number then
    .error "Type is not number".toList
  else if m.eq arg2.dValue m.zero then
    .error "Divide by zero in mod".toList
  else
    .ok (.ofDouble (m.fmod arg1.dValue arg2.dValue))

def doPow (arg1 arg2 : ExprValue F) : Except Text (ExprValue F) :=
  if arg1.type ≠ .number ∨ arg2.type ≠ .number then
    .error "Type is not number".toList
  else
    .ok (.ofDouble (m.pow arg1.dValue arg2.dValue))

def doRoll (arg1 arg2 : ExprValue F) (world : W) : Except Text (ExprValue F) × W :=
  if arg1.type ≠ .number ∨ arg2.type ≠ .number then
    (.error "Type is not number".toList, world)
  else
    (.ok (.ofInt m.toLibrary (roll m (m.toInt64 arg1.dValue) (m.toInt64 arg2.dValue) world).1),
      (roll m (m.toInt64 arg1.dValue) (m.toInt64 arg2.dValue) world).2)

def doIf (arg1 arg2 arg3 : ExprValue F) : Except Text (ExprValue F) := do
  let differs ← arg1.ne m.toLibrary (.ofDouble m.zero)
  return if ← differs.toBool m.toLibrary then arg2 else arg3

/-- A built-in function; the random ones draw from `std::rand`. -/
inductive OneArgFunction (F W : Type) where
  | plain (f : F → F)
  | random (f : F → W → F × W)

inductive TwoArgFunction (F W : Type) where
  | plain (f : ExprValue F → ExprValue F → Except Text (ExprValue F))
  | random (f : ExprValue F → ExprValue F → W → Except Text (ExprValue F) × W)

def oneArgumentFunctions : List (Text × OneArgFunction F W) :=
  [("abs".toList, .plain m.fabs), ("acos".toList, .plain m.acos),
    ("asin".toList, .plain m.asin), ("atan".toList, .plain m.atan),
    ("atanh".toList, .plain m.atanh), ("ceil".toList, .plain m.ceil),
    ("cos".toList, .plain m.cos), ("cosh".toList, .plain m.cosh),
    ("exp".toList, .plain m.exp), ("floor".toList, .plain m.floor),
    ("log".toList, .plain m.log), ("log10".toList, .plain m.log10),
    ("sin".toList, .plain m.sin), ("sinh".toList, .plain m.sinh),
    ("sqrt".toList, .plain m.sqrt), ("tan".toList, .plain m.tan),
    ("tanh".toList, .plain m.tanh), ("int".toList, .plain (doInt m)),
    ("rand".toList, .random (doRandom m)), ("percent".toList, .random (doPercent m))]

def twoArgumentFunctions : List (Text × TwoArgFunction F W) :=
  [("min".toList, .plain (doMin m)), ("max".toList, .plain (doMax m)),
    ("mod".toList, .plain (doFmod m)), ("pow".toList, .plain (doPow m)),
    ("roll".toList, .random (doRoll m))]

def threeArgumentFunctions :
    List (Text × (ExprValue F → ExprValue F → ExprValue F → Except Text (ExprValue F))) :=
  [("if".toList, doIf m)]

/-- What the word before a `(` names. -/
inductive Callee (F W : Type) where
  | one (f : OneArgFunction F W)
  | oneCommon
  | two (f : TwoArgFunction F W)
  | twoCommon
  | three (f : ExprValue F → ExprValue F → ExprValue F → Except Text (ExprValue F))
  | missing

/-- The maps in the order in which `Primary` searches them. -/
def callee (word : Text) : Callee F W :=
  match (oneArgumentFunctions m).lookup word with
  | some f => .one f
  | none =>
      if m.oneCommon word then .oneCommon
      else
        match (twoArgumentFunctions m).lookup word with
        | some f => .two f
        | none =>
            if m.twoCommon word then .twoCommon
            else
              match (threeArgumentFunctions m).lookup word with
              | some f => .three f
              | none => .missing

end Functions

/-! What the cases of the loops and of the assignments do with their operands. -/

section Operators

variable (lib : Library F)

def checkDivisor (d : ExprValue F) : Except Text Unit := do
  if d.type ≠ .unsure then
    let same ← d.eq lib (.ofDouble lib.zero)
    if ← same.toBool lib then throw "Divide by zero".toList

/-- `left = (left < AddSubtract(true))` and the step to 1.0 or 0.0. -/
def compared (result : ExprValue F) : Except Text (ExprValue F) := do
  if result.type ≠ .unsure then
    return result.setDouble (if ← result.toBool lib then lib.one else lib.zero)
  return result

def truth (v : ExprValue F) : Except Text Bool := do
  let differs ← v.ne lib (.ofDouble lib.zero)
  differs.toBool lib

/-- The right operand of `&&` and `||` is evaluated before; whether it is converted
depends on the left one. -/
def operate (op : TokenType) (left d : ExprValue F) : Except Text (ExprValue F) :=
  match op with
  | .multiply => return (← left.mulAssign lib d).1
  | .divide => do
      checkDivisor lib d
      return (← left.divAssign lib d).1
  | .plus => return (← left.addAssign lib d).1
  | .minus => return (← left.subAssign lib d).1
  | .lt => do compared lib (← left.lt lib d)
  | .gt => do compared lib (← left.gt lib d)
  | .le => do compared lib (← left.le lib d)
  | .ge => do compared lib (← left.ge lib d)
  | .eq => do compared lib (← left.eq lib d)
  | .ne => do compared lib (← left.ne lib d)
  | .and =>
      if left.type ≠ .unsure then do
        if ← truth lib left then return left.setBool (← truth lib d)
        else return left.setBool false
      else return left
  | .or =>
      if left.type ≠ .unsure then do
        if ← truth lib left then return left.setBool true
        else return left.setBool (← truth lib d)
      else return left
  | .comma => return d
  | _ => return left

def assignments : List TokenType := [.assign, .assignAdd, .assignSub, .assignMul, .assignDiv]

/-- The table entry after an assignment. -/
def assigned (op : TokenType) (v d : ExprValue F) : Except Text (ExprValue F) :=
  match op with
  | .assign => return d
  | .assignAdd => return (← v.addAssign lib d).1
  | .assignSub => return (← v.subAssign lib d).1
  | .assignMul => return (← v.mulAssign lib d).1
  | .assignDiv => do
      checkDivisor lib d
      return (← v.divAssign lib d).1
  | _ => return v

def negated (v : ExprValue F) : Except Text (ExprValue F) := (ExprValue.ofInt lib 0).sub lib v

def inverted (v : ExprValue F) : Except Text (ExprValue F) := do
  let same ← v.eq lib (.ofDouble lib.zero)
  return .ofDouble (if ← same.toBool lib then lib.one else lib.zero)

end Operators

/-! The parser proper. -/

section Steps

variable (m : Machine F W)

def raise {State Value : Type} (result : Except Text Value) : EStateM Stop State Value :=
  match result with
  | .ok value => pure value
  | .error what => throw (.fault (.thrown what))

/-- A step that reads the text. -/
def scanning (step : Scanner F → Except Fault (Scanner F)) : Run F W Unit := do
  let p ← get
  match step p.scan with
  | .ok scan => set { p with scan }
  | .error fault => throw (.fault fault)

def scanned : Run F W (Scanner F) := return (← get).scan

def wanted (type : TokenType) (scan : Scanner F) : Except Fault (Scanner F) :=
  (checkToken type scan).map fun _ => scan

/-- `CheckToken(RHPAREN)` and `GetToken(true)`. -/
def closing (scan : Scanner F) : Except Fault (Scanner F) := do
  checkToken .rhparen scan
  getToken m.toLibrary true scan

def next (ignoreSign : Bool) : Run F W Unit := scanning (getToken m.toLibrary ignoreSign)

def want (type : TokenType) : Run F W Unit := scanning (wanted type)

def closed : Run F W Unit := scanning (closing m)

def OneArgFunction.apply (f : OneArgFunction F W) (d : F) (world : W) : F × W :=
  match f with
  | .plain f => (f d, world)
  | .random f => f d world

def TwoArgFunction.apply (f : TwoArgFunction F W) (v1 v2 : ExprValue F) (world : W) :
    Except Text (ExprValue F) × W :=
  match f with
  | .plain f => (f v1 v2, world)
  | .random f => f v1 v2 world

def callOne (f : OneArgFunction F W) (v : ExprValue F) : Run F W (ExprValue F) := do
  let p ← get
  set { p with world := (f.apply v.dValue p.world).2 }
  return .ofDouble (f.apply v.dValue p.world).1

def callTwo (f : TwoArgFunction F W) (v1 v2 : ExprValue F) : Run F W (ExprValue F) := do
  let p ← get
  set { p with world := (f.apply v1 v2 p.world).2 }
  raise (f.apply v1 v2 p.world).1

variable (calls : Calls F W)

def callOneCommon (word : Text) (v : ExprValue F) : Run F W (ExprValue F) := do
  if (← get).detect then return .ofType m.toLibrary .unsure
  calls.one word v

def callTwoCommon (word : Text) (v1 v2 : ExprValue F) : Run F W (ExprValue F) := do
  if (← get).detect then return .ofType m.toLibrary .unsure
  calls.two word v1 v2

def notImplemented (word : Text) : Fault :=
  .thrown ("Function ".toList ++ (apostrophe :: word) ++
    (apostrophe :: " not implemented.".toList))

/-- The call of `word`; `expression` is `Expression(true)`. -/
def functionCall (expression : Run F W (ExprValue F)) (word : Text) : Run F W (ExprValue F) :=
  match callee m word with
  | .one f => do
      let v ← expression
      closed m
      callOne f v
  | .oneCommon => do
      let v ← expression
      closed m
      callOneCommon m calls word v
  | .two f => do
      let v1 ← expression
      want .comma
      let v2 ← expression
      closed m
      callTwo f v1 v2
  | .twoCommon => do
      let v1 ← expression
      want .comma
      let v2 ← expression
      closed m
      callTwoCommon m calls word v1 v2
  | .three f => do
      let v1 ← expression
      want .comma
      let v2 ← expression
      want .comma
      let v3 ← expression
      closed m
      raise (f v1 v2 v3)
  | .missing => throw (.fault (notImplemented word))

def SymbolTable.set (symbols : SymbolTable F) (word : Text) (v : ExprValue F) : SymbolTable F :=
  fun name => if name = word then some v else symbols name

/-- `symbols_[word]`, which makes the entry if there is none. -/
def lookUp (word : Text) : Run F W Unit := do
  let p ← get
  match p.symbols word with
  | some _ => return
  | none => set { p with symbols := p.symbols.set word (.empty m.toLibrary) }

/-- What the reference to the entry reads; an entry that a registered function has
erased is gone. -/
def entry (word : Text) : Run F W (ExprValue F) := do
  match (← get).symbols word with
  | some v => return v
  | none => throw (.fault .undefined)

def store (op : TokenType) (word : Text) (d : ExprValue F) : Run F W Unit := do
  let v ← entry word
  let w ← raise (assigned m.toLibrary op v d)
  modify fun p => { p with symbols := p.symbols.set word w }

/-- The symbol `word`, read or assigned to. -/
def symbol (expression : Run F W (ExprValue F)) (word : Text) : Run F W (ExprValue F) := do
  lookUp m word
  let scan ← scanned
  if scan.token.type ∈ assignments then do
    let d ← expression
    store m scan.token.type word d
    entry word
  else
    entry word

/-- The loop of a level: operators of `ops` between operands from `operand`. -/
def rounds (operand : Bool → Run F W (ExprValue F)) (ops : List TokenType) :
    Nat → ExprValue F → Run F W (ExprValue F)
  | 0, _ => throw (.fault .spent)
  | fuel + 1, left => do
      let scan ← scanned
      if scan.token.type ∈ ops then do
        let d ← operand true
        let left ← raise (operate m.toLibrary scan.token.type left d)
        rounds operand ops fuel left
      else return left

def level (operand : Bool → Run F W (ExprValue F)) (ops : List TokenType) (fuel : Nat)
    (get : Bool) : Run F W (ExprValue F) := do
  let left ← operand get
  rounds m operand ops fuel left

def termOps : List TokenType := [.multiply, .divide]
def addSubtractOps : List TokenType := [.plus, .minus]
def comparisonOps : List TokenType := [.lt, .gt, .le, .ge, .eq, .ne]
def expressionOps : List TokenType := [.and, .or]
def commaListOps : List TokenType := [.comma]

section Levels

variable (primary : Bool → Run F W (ExprValue F)) (fuel : Nat)

def term : Bool → Run F W (ExprValue F) := level m primary termOps fuel

def addSubtract : Bool → Run F W (ExprValue F) := level m (term m primary fuel) addSubtractOps fuel

def comparison : Bool → Run F W (ExprValue F) :=
  level m (addSubtract m primary fuel) comparisonOps fuel

def expression : Bool → Run F W (ExprValue F) :=
  level m (comparison m primary fuel) expressionOps fuel

def commaList : Bool → Run F W (ExprValue F) :=
  level m (expression m primary fuel) commaListOps fuel

end Levels

def literal (v : ExprValue F) : Run F W (ExprValue F) := do
  next m true
  return v

def unexpectedToken (token : Token F) : Fault :=
  .thrown ("Unexpected token: ".toList ++ token.word)

/-- The `switch` of `Primary`; `primary` is `Primary` one call deeper. -/
def tokenCase (primary : Bool → Run F W (ExprValue F)) (fuel : Nat) : Run F W (ExprValue F) := do
  let scan ← scanned
  match scan.token.type with
  | .number => literal m (.ofDouble scan.token.value)
  | .integer64 => literal m (.ofInt m.toLibrary scan.token.iValue)
  | .string => literal m (.ofString m.toLibrary scan.token.word)
  | .name => do
      next m true
      let behind ← scanned
      if behind.token.type = .lhparen then
        functionCall m calls (expression m primary fuel true) scan.token.word
      else
        symbol m (expression m primary fuel true) scan.token.word
  | .minus => do
      let v ← primary true
      raise (negated m.toLibrary v)
  | .not => do
      let v ← primary true
      raise (inverted m.toLibrary v)
  | .lhparen => do
      let v ← commaList m primary fuel true
      closed m
      return v
  | _ => throw (.fault (unexpectedToken scan.token))

def primary : Nat → Bool → Run F W (ExprValue F)
  | 0, _ => throw (.fault .spent)
  | fuel + 1, true => do
      next m false
      tokenCase m calls (primary fuel) fuel
  | fuel + 1, false => tokenCase m calls (primary fuel) fuel

/-- `pWord_ = program_.c_str()` and `type_ = NONE`. -/
def fresh (program : Text) : Scanner F := ⟨program, program, plainToken m.toLibrary .none []⟩

def unexpectedText (scan : Scanner F) : Fault :=
  .thrown ("Unexpected text at end of expression: ".toList ++ cText scan.pWordStart)

def evaluate (fuel : Nat) : Run F W (ExprValue F) := do
  modify fun p => { p with scan := fresh m p.program }
  let v ← commaList m (primary m calls fuel) fuel true
  let scan ← scanned
  if scan.token.type = .end_ then return v
  else throw (.fault (unexpectedText scan))

def parse (fuel : Nat) : Run F W (ExprValue F) := do
  modify fun p => { p with detect := true }
  let ret ← evaluate m calls fuel
  modify fun p => { p with detect := false }
  return ret

/-! What the steps on the symbols do. -/

theorem raise_ok {State Value : Type} (value : Value) (s : State) :
    raise (.ok value) s = .ok value s := rfl

theorem raise_error {State Value : Type} (what : Text) (s : State) :
    (raise (.error what) : EStateM Stop State Value) s = .error (.fault (.thrown what)) s := rfl

theorem scanning_ok (move : Scanner F → Except Fault (Scanner F)) (p : ExprParser F W)
    (scan : Scanner F) (moved : move p.scan = .ok scan) :
    scanning move p = .ok () { p with scan } := by
  show (match move p.scan with
    | .ok scan => (set { p with scan } : Run F W Unit)
    | .error fault => throw (Stop.fault fault)) p = _
  rw [moved]
  rfl

theorem scanning_error (move : Scanner F → Except Fault (Scanner F)) (p : ExprParser F W)
    (fault : Fault) (failed : move p.scan = .error fault) :
    scanning move p = .error (.fault fault) p := by
  show (match move p.scan with
    | .ok scan => (set { p with scan } : Run F W Unit)
    | .error fault => throw (Stop.fault fault)) p = _
  rw [failed]
  rfl

theorem lookUp_some (word : Text) (p : ExprParser F W) (v : ExprValue F)
    (present : p.symbols word = some v) : lookUp m word p = .ok () p := by
  show (match p.symbols word with
    | some _ => (pure () : Run F W Unit)
    | none => set { p with symbols := p.symbols.set word (.empty m.toLibrary) }) p = _
  rw [present]
  rfl

theorem lookUp_none (word : Text) (p : ExprParser F W) (absent : p.symbols word = none) :
    lookUp m word p =
      .ok () { p with symbols := p.symbols.set word (.empty m.toLibrary) } := by
  show (match p.symbols word with
    | some _ => (pure () : Run F W Unit)
    | none => set { p with symbols := p.symbols.set word (.empty m.toLibrary) }) p = _
  rw [absent]
  rfl

theorem entry_some (word : Text) (p : ExprParser F W) (v : ExprValue F)
    (present : p.symbols word = some v) : entry word p = .ok v p := by
  show (match p.symbols word with
    | some v => (pure v : Run F W (ExprValue F))
    | none => throw (Stop.fault .undefined)) p = _
  rw [present]
  rfl

theorem entry_none (word : Text) (p : ExprParser F W) (absent : p.symbols word = none) :
    entry word p = .error (.fault .undefined) p := by
  show (match p.symbols word with
    | some v => (pure v : Run F W (ExprValue F))
    | none => throw (Stop.fault .undefined)) p = _
  rw [absent]
  rfl

theorem store_none (op : TokenType) (word : Text) (d : ExprValue F) (p : ExprParser F W)
    (absent : p.symbols word = none) :
    store m op word d p = .error (.fault .undefined) p :=
  bind_of_error (entry_none word p absent) _

theorem store_ok (op : TokenType) (word : Text) (d v w : ExprValue F) (p : ExprParser F W)
    (present : p.symbols word = some v) (value : assigned m.toLibrary op v d = .ok w) :
    store m op word d p = .ok () { p with symbols := p.symbols.set word w } := by
  unfold store
  rw [bind_of_ok (entry_some word p v present), value]
  rfl

theorem store_error (op : TokenType) (word : Text) (d v : ExprValue F) (what : Text)
    (p : ExprParser F W) (present : p.symbols word = some v)
    (refused : assigned m.toLibrary op v d = .error what) :
    store m op word d p = .error (.fault (.thrown what)) p := by
  unfold store
  rw [bind_of_ok (entry_some word p v present), refused]
  rfl

end Steps

end EChainLib.Expr
