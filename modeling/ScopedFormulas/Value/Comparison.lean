import ScopedFormulas.Value.Basic

namespace ScopedFormulas.Value

mutual

/-- Equality by structure. Numbers are compared as numbers, so a value that holds a NaN differs
from itself and the two zeros are the same. Functions are the same when they have the same body
and the same receiver. -/
def same : Value → Value → Bool
  | number x, number y => x == y
  | text s, text t => s == t
  | bool b, bool c => b == c
  | array t as, array u bs => t == u && sameItems as bs
  | function ⟨_, f, _, r⟩, function ⟨_, g, _, s⟩ => f == g && sameReceiver r s
  | latitude x, latitude y => x == y
  | longitude x, longitude y => x == y
  | timestamp t, timestamp u => t == u
  | group ⟨as⟩, group ⟨bs⟩ => sameMembers as bs
  | _, _ => false

def sameItems : List Value → List Value → Bool
  | [], [] => true
  | a :: as, b :: bs => same a b && sameItems as bs
  | _, _ => false

def sameReceiver : Option Value → Option Value → Bool
  | none, none => true
  | some a, some b => same a b
  | _, _ => false

def sameMembers : List (String × Value) → List (String × Value) → Bool
  | [], [] => true
  | (k, a) :: as, (l, b) :: bs => k == l && same a b && sameMembers as bs
  | _, _ => false

end

mutual

/-- The `==` of formulas, where it is defined. Arrays are equal when they have as many items and
the items are equal in turn; items without an equality are never equal. -/
def equals (a b : Value) : Option Bool :=
  if a.type = b.type ∧ a.type.supportsEq = true then
    some (match a, b with
      | number x, number y => x == y
      | text s, text t => s == t
      | bool b, bool c => b == c
      | array _ as, array _ bs => equalItems as bs
      | latitude x, latitude y => x == y
      | longitude x, longitude y => x == y
      | timestamp t, timestamp u => t == u
      | _, _ => false)
  else none

def equalItems : List Value → List Value → Bool
  | [], [] => true
  | a :: as, b :: bs => (equals a b).getD false && equalItems as bs
  | _, _ => false

end

def compareNumbers (x y : Float) : Option Ordering :=
  if x < y then some .lt
  else if x == y then some .eq
  else if y < x then some .gt
  else none

def compare? (a b : Value) : Option Ordering :=
  if a.type = b.type ∧ a.type.supportsOrd = true then
    match a, b with
    | number x, number y => compareNumbers x y
    | latitude x, latitude y => compareNumbers x y
    | longitude x, longitude y => compareNumbers x y
    | text s, text t => some (compare s t)
    | timestamp t, timestamp u => some (compare t u)
    | _, _ => none
  else none

end ScopedFormulas.Value
