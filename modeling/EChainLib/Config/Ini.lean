import Mathlib
import EChainLib.Node.BusinessData

/-! The INI reader of `ReadConfig.cpp`. The position in `szBuffer` is the rest of the
content from there on; `none` is undefined behaviour. -/

namespace EChainLib.Config

open EChainLib.Keys (Bytes cString isSpace text)

def chr (character : Char) : UInt8 := UInt8.ofNat character.toNat

def isBlank (byte : UInt8) : Bool := byte = chr ' ' || byte = chr '\t'

/-- What `OpenIniFile` has read, and the memory behind it. -/
structure IniFile where
  szBuffer : Bytes
  beyond : Bytes

/-- What `GetIniString` does to `pResult`: nothing (-1), a copy (0), or a copy of a
negative number of bytes. -/
inductive IniValue where
  | missing
  | found (value : Bytes)
  | negative

def skipBlanks (rest : Bytes) : Bytes := rest.dropWhile isBlank

/-- The lines after the current one, if it ends before the content does. -/
def nextLine : Bytes → Option Bytes
  | [] => none
  | byte :: rest => if byte = chr '\n' then some rest else nextLine rest

/-- The value behind the `=`. -/
def valueOf (rest : Bytes) : IniValue :=
  match skipBlanks rest with
  | [] => .missing
  | start =>
      let line := start.takeWhile fun byte => byte ≠ chr '\n'
      -- on an empty line the way back over the blanks ends at the `=`
      if line = [] ∧ start ≠ rest then .negative
      else .found (line.rdropWhile isBlank)

/-- The loop over the lines; `fuel` bounds their number. -/
def iniLoop (beyond pSection pIdent : Bytes) : Nat → Bool → Bytes → IniValue
  | 0, _, _ => .missing
  | fuel + 1, iKeyFound, line =>
      let ignore (found : Bool) (rest : Bytes) : IniValue :=
        match nextLine rest with
        | none => .missing
        | some next => iniLoop beyond pSection pIdent fuel found next
      match skipBlanks line with
      | [] => .missing
      | byte :: rest =>
          if byte = chr '#' then
            ignore iKeyFound (byte :: rest)
          else if byte = chr '[' then
            match skipBlanks rest with
            | [] => .missing
            | heading =>
                if pSection.isPrefixOf (heading ++ beyond) then
                  match skipBlanks (heading.drop pSection.length) with
                  | [] => .missing
                  -- the byte here is passed over even where it ends the line
                  | closing :: after => ignore (iKeyFound || closing = chr ']') after
                else
                  ignore iKeyFound heading
          else if !iKeyFound then
            ignore iKeyFound (byte :: rest)
          else if pIdent.isPrefixOf (byte :: rest ++ beyond) then
            match (byte :: rest).drop pIdent.length with
            | [] => .missing
            | named =>
                match skipBlanks named with
                -- whatever `szBuffer[iBufferLen]` holds
                | [] => .missing
                | sign :: after =>
                    if sign = chr '=' then valueOf after
                    else ignore iKeyFound (sign :: after)
          else
            ignore iKeyFound (byte :: rest)

def getIniString (file : Option IniFile) (pSection pIdent : Bytes) : IniValue :=
  match file with
  | none => .missing
  | some file =>
      if pSection = [] ∨ pIdent = [] then .missing
      else iniLoop file.beyond pSection pIdent (file.szBuffer.length + 1) false file.szBuffer

/-! Numbers. -/

def digitOf (base : Nat) (byte : UInt8) : Option Nat :=
  let value :=
    if chr '0' ≤ byte ∧ byte ≤ chr '9' then byte.toNat - (chr '0').toNat
    else if chr 'a' ≤ byte ∧ byte ≤ chr 'z' then byte.toNat - (chr 'a').toNat + 10
    else if chr 'A' ≤ byte ∧ byte ≤ chr 'Z' then byte.toNat - (chr 'A').toNat + 10
    else base
  if value < base then some value else none

def strtolDigits (base : Nat) : Nat → Bytes → Nat
  | value, [] => value
  | value, byte :: rest =>
      match digitOf base byte with
      | none => value
      | some digit => strtolDigits base (value * base + digit) rest

def startsHex (text : Bytes) : Bool :=
  text.take 1 = [chr '0'] && (text.drop 1).take 1 ∈ [[chr 'x'], [chr 'X']]

/-- `strtol`, at its limits where the number does not fit. -/
def strtol (base : Nat) (text : Bytes) : Int :=
  let text := text.dropWhile isSpace
  let negative := text.take 1 = [chr '-']
  let text := if negative ∨ text.take 1 = [chr '+'] then text.drop 1 else text
  let text := if base = 16 ∧ startsHex text then text.drop 2 else text
  let value : Int := strtolDigits base 0 text
  max (-2 ^ 63) (min (2 ^ 63 - 1) (if negative then -value else value))

/-- The conversion of a `long` to `int`. -/
def toInt (value : Int) : Int := value.bmod (2 ^ 32)

def atoi (text : Bytes) : Int := toInt (strtol 10 text)

def MAX_VALUE_BUFFER_SIZE : Nat := 256

/-- A copy into a buffer of `size` bytes, read as text. -/
def copied (size : Nat) (value : Bytes) : Option Bytes :=
  if value.length < size then some (cString value) else none

def getIniInteger (file : Option IniFile) (pSection pIdent : Bytes) : Option Int :=
  match getIniString file pSection pIdent with
  | .missing => some 0
  | .negative => none
  | .found value => do
      let szTempBuffer ← copied MAX_VALUE_BUFFER_SIZE value
      if 2 < szTempBuffer.length ∧ startsHex szTempBuffer then
        return toInt (strtol 16 szTempBuffer)
      else
        return atoi szTempBuffer

/-! The configuration. -/

structure SConfigPara where
  m_DebugLog : Int
  m_DBAddr : Bytes
  m_DBPort : Int
  m_DBUser : Bytes
  m_DBPassWd : Bytes
  m_DBName : Bytes
  deriving DecidableEq

/-- `temp` after `GetIniString("MySQL", pIdent, temp)`. -/
def readTemp (file : Option IniFile) (pIdent : String) (temp : Bytes) : Option Bytes :=
  match getIniString file (text "MySQL") (text pIdent) with
  | .missing => some temp
  | .negative => none
  | .found value => copied 1024 value

/-- The return value and `SConfigPara`. -/
def readIni (file : Option IniFile) (config : SConfigPara) : Option (Int × SConfigPara) := do
  let m_DebugLog ← getIniInteger file (text "Config") (text "DebugLog")
  let config := { config with m_DebugLog }
  if m_DebugLog < 0 then
    return (-1, config)
  let temp ← readTemp file "DBAddr" []
  let config := { config with m_DBAddr := temp }
  if temp = [] then
    return (-1, config)
  let m_DBPort ← getIniInteger file (text "MySQL") (text "DBPort")
  let config := { config with m_DBPort }
  if m_DBPort < 0 then
    return (-1, config)
  -- a key that is missing leaves the value of the last one in `temp`
  let temp ← readTemp file "DBUser" temp
  let config := { config with m_DBUser := temp }
  if temp = [] then
    return (-1, config)
  let temp ← readTemp file "DBPassWd" temp
  let config := { config with m_DBPassWd := temp }
  if temp = [] then
    return (-1, config)
  let temp ← readTemp file "DBName" temp
  let config := { config with m_DBName := temp }
  if temp = [] then
    return (-1, config)
  return (1, config)

example : readIni (some ⟨text "[Config]\nDebugLog = 0x10\n[MySQL]\nDBAddr=a \nDBUser= b\nDBName = c\n",
    []⟩) ⟨0, [], 0, [], [], []⟩ =
      some (1, ⟨16, text "a", 0, text "b", text "b", text "c"⟩) := by decide +kernel

end EChainLib.Config
