import ScopedFormulas.Json.Basic

namespace ScopedFormulas

namespace Numeral

def chars (n : Numeral) : List Char :=
  (if n.negative then ['-'] else []) ++ n.whole
    ++ (if n.fraction.isEmpty then [] else '.' :: n.fraction)
    ++ match n.exponent with
      | none => []
      | some e => 'e' :: (toString e).toList

end Numeral

namespace Json

def hexDigit (n : Nat) : Char := Nat.digitChar n

def escape (c : Char) : List Char :=
  if c = '\x22' then ['\x5c', '\x22']
  else if c = '\x5c' then ['\x5c', '\x5c']
  else if c = '\n' then ['\x5c', 'n']
  else if c = '\r' then ['\x5c', 'r']
  else if c = '\t' then ['\x5c', 't']
  else if c = '\x08' then ['\x5c', 'b']
  else if c = '\x0c' then ['\x5c', 'f']
  else if c < ' ' then
    ['\x5c', 'u', '0', '0', hexDigit (c.toNat / 16), hexDigit (c.toNat % 16)]
  else [c]

def quote (chars : List Char) : List Char := '\x22' :: chars.flatMap escape ++ ['\x22']

/-- A string; one that denotes no text is written as a surrogate by itself. -/
def stringChars : Option String → List Char
  | some s => quote s.toList
  | none => ['\x22', '\x5c', 'u', 'd', '8', '0', '0', '\x22']

mutual

def chars : Json → List Char
  | null => "null".toList
  | bool b => if b then "true".toList else "false".toList
  | number n => n.chars
  | string s => stringChars s
  | array items => '[' :: itemsChars [] items ++ [']']
  | object members => '\x7b' :: membersChars [] members ++ ['\x7d']

def itemsChars (before : List Char) : List Json → List Char
  | [] => []
  | j :: rest => before ++ chars j ++ itemsChars [','] rest

def membersChars (before : List Char) : List (Option String × Json) → List Char
  | [] => []
  | (name, j) :: rest => before ++ stringChars name ++ ':' :: chars j ++ membersChars [','] rest

end

def text (j : Json) : String := String.ofList j.chars

end Json

end ScopedFormulas
