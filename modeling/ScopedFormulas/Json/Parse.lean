import ScopedFormulas.Json.Token

namespace ScopedFormulas.Json

inductive Frame where
  | array (items : List Json)
  | member (members : List (Option String × Json)) (name : Option String)

inductive Expecting where
  | value (stack : List Frame)
  | firstItem (stack : List Frame)
  | firstName (stack : List Frame)
  | name (members : List (Option String × Json)) (stack : List Frame)
  | colon (members : List (Option String × Json)) (name : Option String) (stack : List Frame)
  | after (j : Json) (stack : List Frame)

namespace Expecting

def begin? (stack : List Frame) : Token → Option Expecting
  | .null => some (after .null stack)
  | .bool b => some (after (.bool b) stack)
  | .number n => some (after (.number n) stack)
  | .string s => some (after (.string s) stack)
  | .openArray => some (firstItem stack)
  | .openObject => some (firstName stack)
  | _ => none

def step? : Expecting → Token → Option Expecting
  | value stack, t => begin? stack t
  | firstItem stack, .closeArray => some (after (.array []) stack)
  | firstItem stack, t => begin? (.array [] :: stack) t
  | firstName stack, .closeObject => some (after (.object []) stack)
  | firstName stack, .string s => some (colon [] s stack)
  | name members stack, .string s => some (colon members s stack)
  | colon members n stack, .colon => some (value (.member members n :: stack))
  | after j (.array items :: stack), .comma => some (value (.array (j :: items) :: stack))
  | after j (.array items :: stack), .closeArray =>
    some (after (.array (j :: items).reverse) stack)
  | after j (.member members n :: stack), .comma => some (name ((n, j) :: members) stack)
  | after j (.member members n :: stack), .closeObject =>
    some (after (.object ((n, j) :: members).reverse) stack)
  | _, _ => none

def finish? : Expecting → Option Json
  | after j [] => some j
  | _ => none

end Expecting

def ofTokens? (tokens : List Token) : Option Json :=
  (tokens.foldlM Expecting.step? (.value [])).bind Expecting.finish?

def parse? (text : String) : Option Json := (Token.ofChars? text.toList).bind ofTokens?

end ScopedFormulas.Json
