import ScopedFormulas.Number.Arithmetic

/-!
JSON documents as trees that keep what readers may still refuse: numbers as they are written,
members in their order and with repetitions, and strings that denote no text.
-/

namespace ScopedFormulas

structure Numeral where
  negative : Bool
  whole : List Char
  fraction : List Char
  exponent : Option Int
  deriving DecidableEq, Repr

namespace Numeral

def digitValue (c : Char) : Nat := c.toNat - '0'.toNat

def ofNat (n : Nat) : Numeral := ⟨false, Nat.toDigits 10 n, [], none⟩

def natural? (n : Numeral) : Option Nat :=
  if n.negative || !n.fraction.isEmpty || n.exponent.isSome then none
  else some (n.whole.foldl (fun value c => 10 * value + digitValue c) 0)

/-- Takes digits into `value` as long as it stays below `2 ^ 64`; gives the new value and how many
digits it took. -/
def absorb (value : Nat) : List Char → Nat × Nat
  | [] => (value, 0)
  | c :: cs =>
    let longer := 10 * value + digitValue c
    if longer < UInt64.size then
      let (v, n) := absorb longer cs
      (v, n + 1)
    else (value, 0)

/-- The number is finite as a double. It is taken as its leading digits, as many as fit into 64
bits, times a power of ten, both rounded. -/
def inRange (n : Numeral) : Bool :=
  let (head, taken) := absorb 0 n.whole
  let (value, places) := absorb head n.fraction
  let power : Int := (n.whole.length - taken : Nat) - (places : Int) + n.exponent.getD 0
  value == 0 || power ≤ 0
    || (power ≤ 308 && Number.isFinite (Float.ofNat value * Float.ofScientific 1 false power.toNat))

end Numeral

inductive Json where
  | null
  | bool (b : Bool)
  | number (n : Numeral)
  /-- A string with an unpaired surrogate denotes no text. -/
  | string (s : Option String)
  | array (items : List Json)
  | object (members : List (Option String × Json))

namespace Json

def ofText (s : String) : Json := string (some s)

def ofNat (n : Nat) : Json := number (.ofNat n)

def field? (name : String) (members : List (Option String × Json)) : Option Json :=
  match members.filter fun m => m.1 == some name with
  | [m] => some m.2
  | _ => none

structure Limits where
  depth : Nat
  inRange : Numeral → Bool

namespace Limits

def standard : Limits := ⟨127, Numeral.inRange⟩

def inner (limits : Limits) : Limits := { limits with depth := limits.depth - 1 }

mutual

def admitsWithin (limits : Limits) (depth : Nat) : Json → Bool
  | null | bool _ => true
  | number n => limits.inRange n
  | string s => s.isSome
  | array items =>
    match depth with
    | 0 => false
    | depth + 1 => admitsItems limits depth items
  | object members =>
    match depth with
    | 0 => false
    | depth + 1 => admitsMembers limits depth members

def admitsItems (limits : Limits) (depth : Nat) : List Json → Bool
  | [] => true
  | j :: rest => admitsWithin limits depth j && admitsItems limits depth rest

def admitsMembers (limits : Limits) (depth : Nat) : List (Option String × Json) → Bool
  | [] => true
  | (name, j) :: rest =>
    name.isSome && admitsWithin limits depth j && admitsMembers limits depth rest

end

def admits (limits : Limits) (j : Json) : Bool := limits.admitsWithin limits.depth j

end Limits

end Json

end ScopedFormulas
