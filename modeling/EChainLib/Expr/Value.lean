import Mathlib

/-! The values of `exprparser.cpp` and their operators. A `std::string` is the list of
its characters; what an operator throws is the text of the exception. -/

namespace EChainLib.Expr

abbrev Text := List Char

inductive TokenType where
  | none | name | number | integer64 | string | bool | unsure | end_
  | plus | minus | multiply | divide | assign | lhparen | rhparen | comma | not
  | lt | gt | le | ge | eq | ne | and | or
  | assignAdd | assignSub | assignMul | assignDiv
  deriving DecidableEq

/-- `double`, its arithmetic, and the C library on it. -/
structure Library (F : Type) where
  zero : F
  one : F
  pi : F
  e : F
  fromInt : Int64 → F
  toInt : F → Int64
  toInt64 : F → Int64
  add : F → F → F
  sub : F → F → F
  mul : F → F → F
  div : F → F → F
  eq : F → F → Bool
  lt : F → F → Bool
  le : F → F → Bool
  fabs : F → F
  acos : F → F
  asin : F → F
  atan : F → F
  atanh : F → F
  ceil : F → F
  cos : F → F
  cosh : F → F
  exp : F → F
  floor : F → F
  log : F → F
  log10 : F → F
  sin : F → F
  sinh : F → F
  sqrt : F → F
  tan : F → F
  tanh : F → F
  fmod : F → F → F
  pow : F → F → F
  /-- `sscanf` with `%ld`. -/
  scanLong : Text → Int64
  /-- `istream >> double`: the value, and whether the stream failed before its end. -/
  readDouble : Text → F × Bool
  /-- What a field that no constructor sets happens to hold. -/
  unsetBool : Bool
  unsetDouble : F
  unsetInt : Int64

structure ExprValue (F : Type) where
  type : TokenType
  bValue : Bool
  dValue : F
  iValue : Int64
  sValue : Text
  deriving DecidableEq

variable {F : Type}

section Constructors

variable (lib : Library F)

def ExprValue.ofType (type : TokenType) : ExprValue F :=
  ⟨type, lib.unsetBool, lib.unsetDouble, lib.unsetInt, []⟩

def ExprValue.empty : ExprValue F := ⟨.integer64, false, lib.zero, 0, []⟩

def ExprValue.ofBool (bValue : Bool) : ExprValue F := ⟨.bool, bValue, lib.zero, 0, []⟩

def ExprValue.ofInt (iValue : Int64) : ExprValue F :=
  ⟨.integer64, false, lib.zero, iValue, []⟩

def ExprValue.ofDouble (dValue : F) : ExprValue F := ⟨.number, false, dValue, 0, []⟩

def ExprValue.ofString (sValue : Text) : ExprValue F :=
  ⟨.string, false, lib.zero, 0, sValue⟩

end Constructors

/-! The assignments set the type and one field. -/

def ExprValue.setBool (v : ExprValue F) (bValue : Bool) : ExprValue F :=
  { v with type := .bool, bValue := bValue }

def ExprValue.setDouble (v : ExprValue F) (dValue : F) : ExprValue F :=
  { v with type := .number, dValue := dValue }

def Unsure (left value : ExprValue F) : Prop := left.type = .unsure ∨ value.type = .unsure

instance (left value : ExprValue F) : Decidable (Unsure left value) :=
  inferInstanceAs (Decidable (left.type = .unsure ∨ value.type = .unsure))

section Comparisons

variable (lib : Library F)

/-- The six comparison operators differ in how they compare two `double`s, two
`int64_t`s and two strings. -/
def ExprValue.compare (onDouble : F → F → Bool) (onInt : Int64 → Int64 → Bool)
    (onString : Text → Text → Bool) (left value : ExprValue F) :
    Except Text (ExprValue F) :=
  if Unsure left value then
    .ok (.ofType lib .unsure)
  else if left.type = .number ∧ value.type = .integer64 then
    .ok (.ofBool lib (onDouble left.dValue (lib.fromInt value.iValue)))
  else if left.type = .integer64 ∧ value.type = .number then
    .ok (.ofBool lib (onDouble (lib.fromInt left.iValue) value.dValue))
  else if left.type ≠ value.type then
    .error "type not compatible".toList
  else if left.type = .number then
    .ok (.ofBool lib (onDouble left.dValue value.dValue))
  else if left.type = .integer64 then
    .ok (.ofBool lib (onInt left.iValue value.iValue))
  else if left.type = .string then
    .ok (.ofBool lib (onString left.sValue value.sValue))
  else
    .error "type is unknown".toList

def ExprValue.eq : ExprValue F → ExprValue F → Except Text (ExprValue F) :=
  ExprValue.compare lib lib.eq (fun a b => a = b) (fun a b => a = b)

def ExprValue.ne : ExprValue F → ExprValue F → Except Text (ExprValue F) :=
  ExprValue.compare lib (fun a b => !lib.eq a b) (fun a b => a ≠ b) (fun a b => a ≠ b)

def ExprValue.lt : ExprValue F → ExprValue F → Except Text (ExprValue F) :=
  ExprValue.compare lib lib.lt (fun a b => a < b) (fun a b => a < b)

def ExprValue.gt : ExprValue F → ExprValue F → Except Text (ExprValue F) :=
  ExprValue.compare lib (fun a b => lib.lt b a) (fun a b => b < a) (fun a b => b < a)

def ExprValue.le : ExprValue F → ExprValue F → Except Text (ExprValue F) :=
  ExprValue.compare lib lib.le (fun a b => a ≤ b) (fun a b => ¬ b < a)

def ExprValue.ge : ExprValue F → ExprValue F → Except Text (ExprValue F) :=
  ExprValue.compare lib (fun a b => lib.le b a) (fun a b => b ≤ a) (fun a b => ¬ a < b)

/-- `operator bool`. -/
def ExprValue.toBool (v : ExprValue F) : Except Text Bool :=
  if v.type = .bool then .ok v.bValue
  else if v.type = .number then .ok (!lib.eq v.dValue lib.zero)
  else if v.type = .integer64 then .ok (v.iValue ≠ 0)
  else if v.type = .string then .ok (v.sValue ≠ [])
  else .error "type is unknown".toList

end Comparisons

section Arithmetic

variable (lib : Library F)

/-- The four compound assignments: `*this` afterwards, and the value returned. With an
unsure operand `*this` stays what it is. -/
def ExprValue.compound (onDouble : F → F → F) (onInt : ExprValue F → Int64 → ExprValue F)
    (onString : Option (Text → Text → Text)) (left value : ExprValue F) :
    Except Text (ExprValue F × ExprValue F) :=
  if Unsure left value then
    .ok (left, .ofType lib .unsure)
  else if left.type = .number ∧ value.type = .integer64 then
    returned (left.setDouble (onDouble left.dValue (lib.fromInt value.iValue)))
  else if left.type = .integer64 ∧ value.type = .number then
    returned (left.setDouble (onDouble (lib.fromInt left.iValue) value.dValue))
  else if left.type ≠ value.type then
    .error "type not compatible".toList
  else if left.type = .number then
    returned { left with dValue := onDouble left.dValue value.dValue }
  else if left.type = .integer64 then
    returned (onInt left value.iValue)
  else if left.type = .string then
    match onString with
    | some join => returned { left with sValue := join left.sValue value.sValue }
    | none => .error "type is support".toList
  else
    .error "type is support".toList
where
  returned (v : ExprValue F) : Except Text (ExprValue F × ExprValue F) := .ok (v, v)

def ExprValue.mulAssign : ExprValue F → ExprValue F → Except Text (ExprValue F × ExprValue F) :=
  ExprValue.compound lib lib.mul (fun v i => { v with iValue := v.iValue * i }) none

/-- Two integers divide as `double`s. -/
def ExprValue.divAssign : ExprValue F → ExprValue F → Except Text (ExprValue F × ExprValue F) :=
  ExprValue.compound lib lib.div
    (fun v i => v.setDouble (lib.div (lib.fromInt v.iValue) (lib.fromInt i))) none

def ExprValue.addAssign : ExprValue F → ExprValue F → Except Text (ExprValue F × ExprValue F) :=
  ExprValue.compound lib lib.add (fun v i => { v with iValue := v.iValue + i })
    (some fun a b => a ++ b)

def ExprValue.subAssign : ExprValue F → ExprValue F → Except Text (ExprValue F × ExprValue F) :=
  ExprValue.compound lib lib.sub (fun v i => { v with iValue := v.iValue - i }) none

/-- `operator+`. On mixed numbers it computes a sum and returns `*this`. -/
def ExprValue.add (left value : ExprValue F) : Except Text (ExprValue F) :=
  if Unsure left value then
    .ok (.ofType lib .unsure)
  else if left.type = .number ∧ value.type = .integer64 then
    .ok left
  else if left.type = .integer64 ∧ value.type = .number then
    .ok left
  else if left.type ≠ value.type then
    .error "type not compatible".toList
  else if left.type = .number then
    .ok { ExprValue.empty lib with
      type := left.type, dValue := lib.add left.dValue value.dValue }
  else if left.type = .integer64 then
    .ok { ExprValue.empty lib with
      type := left.type, iValue := left.iValue + value.iValue }
  else if left.type = .string then
    .ok { ExprValue.empty lib with
      type := left.type, sValue := left.sValue ++ value.sValue }
  else
    .error "type is support".toList

/-- `operator-`. On mixed numbers it computes the difference and returns `*this`. -/
def ExprValue.sub (left value : ExprValue F) : Except Text (ExprValue F) :=
  if Unsure left value then
    .ok (.ofType lib .unsure)
  else if left.type = .number ∧ value.type = .integer64 then
    .ok left
  else if left.type = .integer64 ∧ value.type = .number then
    .ok left
  else if left.type ≠ value.type then
    .error "type not compatible".toList
  else if left.type = .number then
    .ok { ExprValue.empty lib with
      type := left.type, dValue := lib.sub left.dValue value.dValue }
  else if left.type = .integer64 then
    .ok { ExprValue.empty lib with
      type := left.type, iValue := left.iValue - value.iValue }
  else
    .error "type is support".toList

end Arithmetic

end EChainLib.Expr
