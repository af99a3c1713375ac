import Mathlib
import EChainLib.Keys.KeyElement

/-! `Json::Value` as far as `api_echain_func.cpp` uses it. An accessor applied to a
value of the wrong type raises. -/

namespace EChainLib.Node

open EChainLib.Keys (Bytes text)

inductive Stop where
  /-- An exception leaves the call. -/
  | thrown
  /-- The bound on the number of `goto`s is used up. -/
  | outOfFuel
  deriving DecidableEq

/-- `real` is a number with a fraction, given by what `asInt` truncates it to and
by how `asString` spells it. -/
inductive Json where
  | null
  | bool (value : Bool)
  | int (value : Int)
  | real (whole : Int) (spelling : Bytes)
  | str (value : Bytes)
  | arr (values : List Json)
  | obj (members : List (String × Json))

namespace Json

/-- `operator[](const char *)`. -/
def get (key : String) : Json → Except Stop Json
  | .null => .ok .null
  | .obj members => .ok ((members.lookup key).getD .null)
  | _ => .error .thrown

def isMember (key : String) : Json → Except Stop Bool
  | .null => .ok false
  | .obj members => .ok (members.lookup key).isSome
  | _ => .error .thrown

/-- `operator[](UInt)`. -/
def index (i : Nat) : Json → Except Stop Json
  | .null => .ok .null
  | .arr values => .ok (values.getD i .null)
  | _ => .error .thrown

def inInt (value : Int) : Except Stop Int :=
  if -2 ^ 31 ≤ value ∧ value < 2 ^ 31 then .ok value else .error .thrown

def asInt : Json → Except Stop Int
  | .null => .ok 0
  | .bool value => .ok (if value then 1 else 0)
  | .int value => inInt value
  | .real whole _ => inInt whole
  | _ => .error .thrown

theorem inInt_eq_ok {value found : Int} (read : inInt value = .ok found) :
    -2 ^ 31 ≤ found ∧ found < 2 ^ 31 := by
  unfold inInt at read
  split_ifs at read with small
  cases read
  exact small

theorem asInt_range {value : Json} {found : Int} (read : value.asInt = .ok found) :
    -2 ^ 31 ≤ found ∧ found < 2 ^ 31 := by
  cases value with
  | null => cases read; decide
  | bool value => cases read; cases value <;> decide
  | int value => exact inInt_eq_ok read
  | real whole spelling => exact inInt_eq_ok read
  | str value => cases read
  | arr values => cases read
  | obj members => cases read

def asString : Json → Except Stop Bytes
  | .null => .ok []
  | .bool value => .ok (text (if value then "true" else "false"))
  | .int value => .ok (text (toString value))
  | .real _ spelling => .ok spelling
  | .str value => .ok value
  | _ => .error .thrown

/-- `rep.isMember("result") && rep["result"].isMember(key)`. -/
def hasResult (key : String) (rep : Json) : Except Stop Bool := do
  if ← rep.isMember "result" then
    (← rep.get "result").isMember key
  else
    return false

/-- `rep["result"][key].asString()`. -/
def resultString (key : String) (rep : Json) : Except Stop Bytes := do
  (← (← rep.get "result").get key).asString

/-- `rep.isMember("error_code") && rep["error_code"].asInt() == 0`, the code kept
for the branches that look at it again. -/
def errorCode (rep : Json) : Except Stop (Bool × Int) := do
  return (← rep.isMember "error_code", ← (← rep.get "error_code").asInt)

/-- `rep["results"][Json::UInt(0)]["error_code"].asInt()`. -/
def submitCode (rep : Json) : Except Stop Int := do
  (← (← (← rep.get "results").index 0).get "error_code").asInt

end Json

end EChainLib.Node
