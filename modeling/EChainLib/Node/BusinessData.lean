import Mathlib
import EChainLib.Node.Api

/-! `EChain_BusinessDataStorage` and `EChain_BusinessDataUpdate`, which write a JSON
document into the metadata of a transaction, and the three calls that read it
back and compare it with their arguments. -/

namespace EChainLib.Node

open EChainLib.Keys (Bytes PrivateKey hexDigit hexValue cString cString_of_text isSpace text)
open EChainLib.Accounts (Database Sql Buffer)

/-! `StrToHex` and `HexToStr`. -/

def upperDigit (nibble : UInt8) : UInt8 :=
  if nibble ≤ 9 then nibble + '0'.toUInt8 else nibble - 10 + 'A'.toUInt8

/-- `sprintf("%02X")`. -/
def upperPair (byte : UInt8) : UInt8 × UInt8 := (upperDigit (byte >>> 4), upperDigit (byte &&& 0x0F))

def strToHex (strData : Bytes) : Option Bytes :=
  if cString strData = [] then none else some (DigitPairs.encode upperPair (cString strData))

/-- `sscanf(input, "%2x", &iTemp)` and the cast to `char`: a sign takes one of the
two places, and a second character that is no digit ends the number. -/
def scanHex2 (input : Bytes) : Option UInt8 :=
  match input.dropWhile isSpace with
  | [] => none
  | first :: rest =>
      let second := rest.head?.bind (hexValue false)
      if first = '+'.toUInt8 then second
      else if first = '-'.toUInt8 then second.map fun digit => 0 - digit
      else
        match hexValue false first, second with
        | none, _ => none
        | some high, none => some high
        | some high, some low => some ((high <<< 4) + low)

def hexToStrLoop : Bytes → Bytes
  | high :: low :: rest =>
      match scanHex2 (high :: low :: rest) with
      | none => []
      | some byte => byte :: hexToStrLoop rest
  | _ => []

def hexToStr (hexData : Bytes) : Option Bytes :=
  if (cString hexData).length % 2 = 1 then none else some (hexToStrLoop (cString hexData))

/-- `none` is the return value -1. -/
def parseCreditInfoFromHexString (metaData : Bytes) : Option Bytes :=
  (hexToStr metaData).map cString

/-- A pair of digits is scanned as the byte it spells. -/
theorem scanHex2_pair (high low byte : UInt8) (rest : Bytes)
    (pair : Keys.hexByte false high low = some byte) : scanHex2 (high :: low :: rest) = some byte := by
  unfold Keys.hexByte at pair
  split at pair
  · rename_i h l high_found low_found
    have solid : (hexValue false high).all fun _ =>
        isSpace high = false ∧ high ≠ '+'.toUInt8 ∧ high ≠ '-'.toUInt8 := by
      refine Keys.byte_cases (fun high => (hexValue false high).all (fun _ =>
        isSpace high = false ∧ high ≠ '+'.toUInt8 ∧ high ≠ '-'.toUInt8) = true) ?_ high
      decide +kernel
    rw [high_found, Option.all_some, decide_eq_true_iff] at solid
    obtain ⟨no_space, no_plus, no_minus⟩ := solid
    simp [scanHex2, no_space, no_plus, no_minus, high_found, low_found]
    simpa using pair
  · cases pair

/-- The two digits of a byte are scanned as that byte, and end no C string. -/
theorem upperPair_scanned (byte : UInt8) (rest : Bytes) :
    scanHex2 ((upperPair byte).1 :: (upperPair byte).2 :: rest) = some byte ∧
      (upperPair byte).1 ≠ 0 ∧ (upperPair byte).2 ≠ 0 := by
  have digits : Keys.hexByte false (upperPair byte).1 (upperPair byte).2 = some byte ∧
      (upperPair byte).1 ≠ 0 ∧ (upperPair byte).2 ≠ 0 := by
    refine Keys.byte_cases (fun byte =>
      Keys.hexByte false (upperPair byte).1 (upperPair byte).2 = some byte ∧
        (upperPair byte).1 ≠ 0 ∧ (upperPair byte).2 ≠ 0) ?_ byte
    decide +kernel
  exact ⟨scanHex2_pair _ _ byte rest digits.1, digits.2⟩

theorem hexToStr_strToHex (value hexInfo : Bytes) (clean : (0 : UInt8) ∉ value)
    (spelled : strToHex value = some hexInfo) : hexToStr hexInfo = some value := by
  rw [strToHex, cString_of_text value clean] at spelled
  split_ifs at spelled with empty
  obtain rfl := Option.some.inj spelled
  have read : ∀ bytes : Bytes, hexToStrLoop (DigitPairs.encode upperPair bytes) = bytes ∧
      (0 : UInt8) ∉ DigitPairs.encode upperPair bytes := by
    intro bytes
    induction bytes with
    | nil => exact ⟨rfl, by simp⟩
    | cons byte rest ih =>
        obtain ⟨scanned, high_nonzero, low_nonzero⟩ :=
          upperPair_scanned byte (DigitPairs.encode upperPair rest)
        simp only [DigitPairs.encode_cons, hexToStrLoop, scanned, ih.1, List.mem_cons, ih.2,
          high_nonzero.symm, low_nonzero.symm, or_self, not_false_eq_true, and_self]
  have even := DigitPairs.encode_length upperPair value
  rw [hexToStr, cString_of_text _ (read value).2, (read value).1, if_neg (by omega)]

/-! The document. -/

/-- `Json::Reader::parse` and `Json::Value::toStyledString`. Styled text is never
shorter than two characters and has no NUL, and what is read from it has the
strings and the 32-bit numbers of the value it was made of. -/
structure JsonLib where
  parse : Bytes → Option Json
  toStyledString : Json → Bytes
  parse_empty : parse [] = none
  parse_blank : parse (text " ") = none
  styled_length : ∀ value, 2 ≤ (toStyledString value).length
  styled_text : ∀ value, (0 : UInt8) ∉ toStyledString value
  reads_back : ∀ members, ∃ read, parse (toStyledString (.obj members)) = some (.obj read) ∧
    (∀ key value, members.lookup key = some (.str value) → read.lookup key = some (.str value)) ∧
    (∀ key value, -2 ^ 31 ≤ value ∧ value < 2 ^ 31 → members.lookup key = some (.int value) →
      read.lookup key = some (.int value))

theorem strToHex_styled (json : JsonLib) (value : Json) :
    strToHex (json.toStyledString value) ≠ none := by
  intro refused
  have long := json.styled_length value
  rw [strToHex, cString_of_text _ (json.styled_text value)] at refused
  split_ifs at refused with empty
  rw [empty] at long
  simp at long

def ADDNEW : Int := 1

def businessJson (businessType : Int32) (operationType : Int) (dataHash preHash dataPath : Bytes)
    (descInfo : Json) (version : Int) (barTime : Bytes) : List (String × Json) :=
  [("dataType", .int businessType.toInt), ("operationType", .int operationType),
    ("dataHash", .str dataHash), ("preHash", .str preHash), ("dataPath", .str dataPath),
    ("descInfo", descInfo), ("version", .int version), ("time", .str barTime)]

variable {Server : Type} (env : Env Server) (json : JsonLib)

/-! Reading a transaction's metadata. -/

/-- The metadata of the first transaction that has any. -/
def firstMetadata : List Json → Except Stop (Option Bytes)
  | [] => return none
  | entry :: rest => do
      if ← entry.isMember "transaction" then
        let transaction ← entry.get "transaction"
        if ← transaction.isMember "metadata" then
          return some (← (← transaction.get "metadata").asString)
        else
          firstMetadata rest
      else
        firstMetadata rest

/-- The elements `val_transactions[0]` to `val_transactions[size() - 1]`. -/
def elements : Json → Except Stop (List Json)
  | .arr values => return values
  | .obj (_ :: _) => throw .thrown
  | _ => return []

def reportedMetadata (rep : Json) : Except Stop (Option Bytes) := do
  firstMetadata (← elements (← (← rep.get "result").get "transactions"))

/-- The return value and `transactionInfo`, empty where the source leaves it alone. -/
def readMetaInfo (rep : Json) : Except Stop (Int × Bytes) := do
  let (present, code) ← rep.errorCode
  if present ∧ code = 0 then
    if ← rep.hasResult "transactions" then
      match ← reportedMetadata rep with
      | none => return (1, [])
      | some szHexString =>
          match parseCreditInfoFromHexString szHexString with
          | none => return (-1, [])
          | some metaDataInfo => return (1, metaDataInfo)
    else
      return (1, text " ")
  else
    return (-6, [])

def parseMetaInfoFromTransactionHash (transactionHash : Bytes) : Api Server (Int × Bytes) := do
  match ← httpRequest env (.getTransactionHistory transactionHash) with
  | none => return (-1, [])
  | some rep => check (readMetaInfo rep)

/-! Writing. -/

/-- Where the label `Loop` leads: the hash of the accepted transaction, `goto
ReStart` at once or after `EChain_ObtainAssetCode`, or the return value. -/
inductive SubmitEnd where
  | accepted (txHash : Bytes)
  | restart
  | obtain
  | failed (code : Int)

def submitLoop (blockPrv : PrivateKey) (contractAddress hexInfo : Bytes) :
    Nat → Int32 → Api Server SubmitEnd
  | 0, _ => throw .outOfFuel
  | fuel + 1, iNonceNum => do
      let iNonceNum := iNonceNum + 1
      match ← submitOnce env blockPrv (getPaymentJsonX contractAddress g_destAddress g_destAddress
        hexInfo iNonceNum g_assetCode 1) with
      | none => return .failed (-6)
      | some (strTxHash, iResult) =>
          if iResult = 0 then
            return .accepted strTxHash
          else if iResult = 3 then
            submitLoop blockPrv contractAddress hexInfo fuel iNonceNum
          else if iResult = 99 then
            return .restart
          else if iResult = 100 ∨ iResult = 104 then
            return .obtain
          else
            return .failed (-7)

/-- The label `ReStart` of both functions: the return value and `transactionHash`.
`document` makes the document, `none` being the return value -1. -/
def businessRounds (blockPrv : PrivateKey) (contractAddress : Bytes)
    (document : Api Server (Option (List (String × Json))))
    (fills : Bytes → Sql → Database → List Buffer)
    (insert : Bytes → Sql → Database → Int × Database) :
    Nat → Api Server (Int × Option Bytes)
  | 0 => throw .outOfFuel
  | fuel + 1 => do
      let iNonceNum := Int32.ofInt
        (← check (parseNonceNumFromJson (← httpRequest env (.getAccount contractAddress))))
      if iNonceNum < 0 then
        return (-6, none)
      else
        match ← document with
        | none => return (-1, none)
        | some blockJson =>
            let businessDataInfo := json.toStyledString (.obj blockJson)
            let businessDataInfo :=
              if businessDataInfo.length ≤ 1 then text "\x7b\"businessDataInfo\":null\x7d"
              else businessDataInfo
            match strToHex businessDataInfo with
            | none => return (0, none)
            | some hexInfo =>
                -- the nonce is read once for a round, the loop counts it up itself
                match ← submitLoop env blockPrv contractAddress hexInfo fuel iNonceNum with
                | .accepted strTxHash =>
                    -- the result of the insert is ignored
                    let _ ← callDb env (fills strTxHash) (insert strTxHash)
                    return (1, some strTxHash)
                | .restart =>
                    businessRounds blockPrv contractAddress document fills insert fuel
                | .obtain =>
                    let paid ← eChainObtainAssetCode env contractAddress g_assetCode 100 fuel
                    if paid < 0 then
                      return (-1, none)
                    else
                      businessRounds blockPrv contractAddress document fills insert fuel
                | .failed code => return (code, none)

/-- The private key text of a contract account, `none` when it is not on file. -/
def contractKey (contractAddress : Bytes) : Api Server (Option Bytes) :=
  callDb env (Accounts.contractKeyBuffers contractAddress) fun sql db =>
    let (code, key, db) := Accounts.getPrivateKeyFromContractAccountDB contractAddress sql db
    (if code < 0 then none else key, db)

def getCurTimeByString : Api Server Bytes := return env.barTime (← tick)

/-- The document of a new record is made again after every `goto ReStart`. -/
def newDocument (businessType : Int32) (dataHash dataPath descInfo : Bytes) :
    Api Server (Option (List (String × Json))) := do
  match json.parse (cString descInfo) with
  | none => return none
  | some descJson =>
      let szBarTime ← getCurTimeByString env
      return some (businessJson businessType ADDNEW dataHash (text " ") dataPath descJson 1
        (cString szBarTime))

def eChainBusinessDataStorage (contractAddress : Bytes) (businessType : Int32)
    (dataHash dataPath descInfo : Bytes) (fuel : Nat) : Api Server (Int × Option Bytes) := do
  match ← contractKey env contractAddress with
  | none => return (-1, none)
  | some blockPrvKey =>
      businessRounds env json (privateKeyOf env blockPrvKey) contractAddress
        (newDocument env json businessType dataHash dataPath descInfo)
        (Accounts.businessBuffers contractAddress ADDNEW businessType.toInt dataHash)
        (fun transactionHash => Accounts.insertBusinessDataInfo2DB contractAddress ADDNEW
          businessType.toInt dataHash transactionHash) fuel

def eChainBusinessDataUpdate (contractAddress : Bytes) (updateType businessType : Int32)
    (preTranxHash dataHash dataPath descInfo : Bytes) (fuel : Nat) :
    Api Server (Int × Option Bytes) := do
  let szBarTime ← getCurTimeByString env
  let (code, transactionInfo) ← parseMetaInfoFromTransactionHash env preTranxHash
  if code < 0 then
    return (-1, none)
  else
    match json.parse (cString descInfo), json.parse (cString transactionInfo) with
    | some descJson, some meteJson =>
        let iVersion ← check (do (← meteJson.get "version").asInt)
        let blockJson := businessJson businessType updateType.toInt dataHash preTranxHash dataPath
          descJson (iVersion + 1) (cString szBarTime)
        match ← contractKey env contractAddress with
        | none => return (-1, none)
        | some blockPrvKey =>
            businessRounds env json (privateKeyOf env blockPrvKey) contractAddress
              (return some blockJson)
              (Accounts.businessBuffers contractAddress updateType.toInt businessType.toInt dataHash)
              (fun transactionHash => Accounts.insertBusinessDataInfo2DB contractAddress
                updateType.toInt businessType.toInt dataHash transactionHash) fuel
    | _, _ => return (-1, none)

/-! Verifying. -/

end EChainLib.Node
