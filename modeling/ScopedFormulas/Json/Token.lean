import ScopedFormulas.Json.Basic

namespace ScopedFormulas

inductive Token where
  | openArray
  | closeArray
  | openObject
  | closeObject
  | comma
  | colon
  | null
  | bool (b : Bool)
  | number (n : Numeral)
  | string (s : Option String)
  deriving DecidableEq

namespace Numeral

def exponent? : List Char → Option (Option Int)
  | [] => some none
  | mark :: rest =>
    if mark = 'e' ∨ mark = 'E' then
      let (negative, digits) := match rest with
        | '-' :: digits => (true, digits)
        | '+' :: digits => (false, digits)
        | digits => (false, digits)
      if digits.isEmpty || !digits.all Char.isDigit then none
      else
        let value := digits.foldl (fun value c => 10 * value + digitValue c) 0
        some (some (if negative then -(value : Int) else value))
    else none

def ofChars? (chars : List Char) : Option Numeral :=
  let (negative, digits) := match chars with
    | '-' :: rest => (true, rest)
    | rest => (false, rest)
  let whole := digits.takeWhile Char.isDigit
  let tail := digits.dropWhile Char.isDigit
  if whole.isEmpty || (whole.head? == some '0' && whole.length != 1) then none
  else
    match tail with
    | '.' :: places =>
      let fraction := places.takeWhile Char.isDigit
      if fraction.isEmpty then none
      else (exponent? (places.dropWhile Char.isDigit)).map fun e => ⟨negative, whole, fraction, e⟩
    | tail => (exponent? tail).map fun e => ⟨negative, whole, [], e⟩

end Numeral

namespace Token

inductive Piece where
  | char (c : Char)
  | surrogate (code : Nat)
  deriving DecidableEq

def join? : List Piece → Option (List Char)
  | [] => some []
  | .char c :: rest => (join? rest).map (c :: ·)
  | .surrogate high :: .surrogate low :: rest =>
    if high < 0xDC00 ∧ 0xDC00 ≤ low then
      (join? rest).map (Char.ofNat (0x10000 + (high - 0xD800) * 0x400 + (low - 0xDC00)) :: ·)
    else none
  | .surrogate _ :: _ => none

def Piece.ofCode (code : Nat) : Piece :=
  if 0xD800 ≤ code ∧ code < 0xE000 then .surrogate code else .char (Char.ofNat code)

def isBlank (c : Char) : Bool := c == ' ' || c == '\t' || c == '\n' || c == '\r'

def isBare (c : Char) : Bool := c.isAlphanum || c == '+' || c == '-' || c == '.'

def punctuation? : Char → Option Token
  | '[' => some openArray
  | ']' => some closeArray
  | '\x7b' => some openObject
  | '\x7d' => some closeObject
  | ',' => some comma
  | ':' => some colon
  | _ => none

def ofBare? (chars : List Char) : Option Token :=
  if chars = "null".toList then some null
  else if chars = "true".toList then some (bool true)
  else if chars = "false".toList then some (bool false)
  else (Numeral.ofChars? chars).map number

def escaped? : Char → Option Char
  | '\x22' => some '\x22'
  | '\x5c' => some '\x5c'
  | '/' => some '/'
  | 'b' => some '\x08'
  | 'f' => some '\x0c'
  | 'n' => some '\n'
  | 'r' => some '\r'
  | 't' => some '\t'
  | _ => none

def hexValue? (c : Char) : Option Nat :=
  if '0' ≤ c ∧ c ≤ '9' then some (c.toNat - '0'.toNat)
  else if 'a' ≤ c ∧ c ≤ 'f' then some (c.toNat - 'a'.toNat + 10)
  else if 'A' ≤ c ∧ c ≤ 'F' then some (c.toNat - 'A'.toNat + 10)
  else none

inductive Place where
  | between
  | bare (chars : List Char)
  | text (pieces : List Piece)
  | escape (pieces : List Piece)
  | code (pieces : List Piece) (value read : Nat)

structure Reader where
  tokens : List Token
  place : Place

namespace Reader

def start : Reader := ⟨[], .between⟩

def begin? (tokens : List Token) (c : Char) : Option Reader :=
  if isBlank c then some ⟨tokens, .between⟩
  else if c = '\x22' then some ⟨tokens, .text []⟩
  else if isBare c then some ⟨tokens, .bare [c]⟩
  else (punctuation? c).map fun t => ⟨t :: tokens, .between⟩

def step? (r : Reader) (c : Char) : Option Reader :=
  match r.place with
  | .between => begin? r.tokens c
  | .bare chars =>
    if isBare c then some ⟨r.tokens, .bare (c :: chars)⟩
    else (ofBare? chars.reverse).bind fun t => begin? (t :: r.tokens) c
  | .text pieces =>
    if c = '\x22' then
      some ⟨string ((join? pieces.reverse).map String.ofList) :: r.tokens, .between⟩
    else if c = '\x5c' then some ⟨r.tokens, .escape pieces⟩
    else if c < ' ' then none
    else some ⟨r.tokens, .text (.char c :: pieces)⟩
  | .escape pieces =>
    if c = 'u' then some ⟨r.tokens, .code pieces 0 0⟩
    else (escaped? c).map fun e => ⟨r.tokens, .text (.char e :: pieces)⟩
  | .code pieces value read =>
    (hexValue? c).map fun digit =>
      let code := 16 * value + digit
      if read = 3 then ⟨r.tokens, .text (Piece.ofCode code :: pieces)⟩
      else ⟨r.tokens, .code pieces code (read + 1)⟩

def finish? (r : Reader) : Option (List Token) :=
  match r.place with
  | .between => some r.tokens.reverse
  | .bare chars => (ofBare? chars.reverse).map fun t => (t :: r.tokens).reverse
  | _ => none

end Reader

def ofChars? (chars : List Char) : Option (List Token) :=
  (chars.foldlM Reader.step? Reader.start).bind Reader.finish?

end Token

end ScopedFormulas
