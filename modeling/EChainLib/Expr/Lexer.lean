import Mathlib
import EChainLib.Expr.Value

/-! `GetToken`. A pointer into `program_` is the rest of the text from there on; behind
the text stands its NUL. -/

namespace EChainLib.Expr

/-- How a call ends without a value: an exception, a read that the language leaves
undefined, or the end of the fuel. -/
inductive Fault where
  | thrown (what : Text)
  | undefined
  | spent
  deriving DecidableEq

/-- `type_`, `word_`, `value_` and `i_value_`. -/
structure Token (F : Type) where
  type : TokenType
  word : Text
  value : F
  iValue : Int64

/-- `pWord_`, `pWordStart_` and the last token. -/
structure Scanner (F : Type) where
  pWord : Text
  pWordStart : Text
  token : Token F

variable {F : Type}

def nul : Char := Char.ofNat 0

def quote : Char := Char.ofNat 34

def apostrophe : Char := Char.ofNat 39

/-- `p[index]`. -/
def peek (p : Text) (index : Nat) : Char := p.getD index nul

def isspace (c : Char) : Bool :=
  c = ' ' || (9 ≤ c.toNat && c.toNat ≤ 13)

def isSign (c : Char) : Bool := c = '+' || c = '-'

/-- `std::string (start, p - start)`. -/
def between (start p : Text) : Text := start.take (start.length - p.length)

/-- `std::string (p)`. -/
def cText (p : Text) : Text := p.takeWhile fun c => c ≠ nul

def startsNumber (ignoreSign : Bool) (p : Text) : Bool :=
  (!ignoreSign && isSign (peek p 0) && ((peek p 1).isDigit || peek p 1 = '.'))
    || (peek p 0).isDigit
    || (peek p 0 = '.' && (peek p 1).isDigit)

def skipSign (p : Text) : Text := if isSign (peek p 0) then p.drop 1 else p

/-- Where the loops over a number stop. -/
def numberEnd (p : Text) : Text :=
  let digits := (skipSign p).dropWhile fun c => c.isDigit || c = '.'
  if peek digits 0 = 'e' ∨ peek digits 0 = 'E' then
    (skipSign (digits.drop 1)).dropWhile Char.isDigit
  else
    digits

section Tokens

variable (lib : Library F)

def plainToken (type : TokenType) (word : Text) : Token F := ⟨type, word, lib.zero, 0⟩

def numberToken (word : Text) : Except Fault (Token F) :=
  if 'e' ∉ word ∧ '.' ∉ word then
    .ok ⟨.integer64, word, lib.zero, lib.scanLong word⟩
  else if (lib.readDouble word).2 then
    .error (.thrown ("Bad numeric literal: ".toList ++ word))
  else
    .ok ⟨.number, word, (lib.readDouble word).1, 0⟩

/-- The sequences of two characters. -/
def pairType (first next : Char) : Option TokenType :=
  if next = '=' then
    match first with
    | '=' => some .eq
    | '<' => some .le
    | '>' => some .ge
    | '!' => some .ne
    | '+' => some .assignAdd
    | '-' => some .assignSub
    | '*' => some .assignMul
    | '/' => some .assignDiv
    | _ => none
  else if first = '&' ∧ next = '&' then some .and
  else if first = '|' ∧ next = '|' then some .or
  else none

def singleType (first : Char) : Option TokenType :=
  match first with
  | '=' => some .assign
  | '<' => some .lt
  | '>' => some .gt
  | '+' => some .plus
  | '-' => some .minus
  | '/' => some .divide
  | '*' => some .multiply
  | '(' => some .lhparen
  | ')' => some .rhparen
  | ',' => some .comma
  | '!' => some .not
  | _ => none

def unexpectedCharacter (c : Char) : Fault :=
  if c < ' ' then
    .thrown ("Unexpected character (decimal ".toList ++ (toString c.toNat).toList ++ [')'])
  else
    .thrown ("Unexpected character: ".toList ++ [c])

/-- The token at `p`, which is neither a blank nor the end, and the text behind it. -/
def tokenAt (ignoreSign : Bool) (p : Text) : Except Fault (Token F × Text) :=
  if startsNumber ignoreSign p then
    (numberToken lib (between p (numberEnd p))).map fun token => (token, numberEnd p)
  else
    match pairType (peek p 0) (peek p 1) with
    | some type => .ok (plainToken lib type (p.take 2), p.drop 2)
    | none =>
        match singleType (peek p 0) with
        | some type => .ok (plainToken lib type (p.take 1), p.drop 1)
        | none =>
            if peek p 0 = quote then
              let quoted := (p.drop 1).dropWhile fun c => c ≠ quote
              -- the loop does not look for the end of the text
              if quoted = [] then .error .undefined
              else .ok (plainToken lib .string (between (p.drop 1) quoted), quoted.drop 1)
            else if (peek p 0).isAlpha then
              let rest := p.dropWhile fun c => c.isAlphanum || c = '_'
              .ok (plainToken lib .name (between p rest), rest)
            else
              .error (unexpectedCharacter (peek p 0))

def getToken (ignoreSign : Bool) (scan : Scanner F) : Except Fault (Scanner F) :=
  let p := scan.pWord.dropWhile isspace
  if peek p 0 = nul then
    if scan.token.type = .end_ then
      .error (.thrown "Unexpected end of expression.".toList)
    else
      .ok ⟨p, p, plainToken lib .end_ "<end of expression>".toList⟩
  else
    (tokenAt lib ignoreSign p).map fun (token, rest) => ⟨rest, p, token⟩

/-- `CheckToken`; the only tokens wanted are `)` and `,`. -/
def checkToken (wanted : TokenType) (scan : Scanner F) : Except Fault Unit :=
  if scan.token.type = wanted then .ok ()
  else
    let c := if wanted = .comma then ',' else ')'
    .error (.thrown (apostrophe :: c :: apostrophe :: " expected.".toList))

end Tokens

end EChainLib.Expr
