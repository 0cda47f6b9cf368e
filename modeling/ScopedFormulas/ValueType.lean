namespace ScopedFormulas

/-- The tag that every value carries. A `group` is a namespace. -/
inductive ValueType where
  | number
  | text
  | bool
  | array (elem : ValueType)
  | function
  | latitude
  | longitude
  | timestamp
  | group
  deriving DecidableEq, Repr

namespace ValueType

def supportsEq : ValueType → Bool
  | number | text | bool | latitude | longitude | timestamp => true
  | array elem => elem.supportsEq
  | function | group => false

def supportsOrd : ValueType → Bool
  | number | text | latitude | longitude | timestamp => true
  | bool | array _ | function | group => false

def name : ValueType → String
  | number => "number"
  | text => "text"
  | bool => "bool"
  | array elem => "array<" ++ elem.name ++ ">"
  | function => "function"
  | latitude => "latitude"
  | longitude => "longitude"
  | timestamp => "timestamp"
  | group => "namespace"

def scalars : List ValueType :=
  [number, text, bool, function, latitude, longitude, timestamp, group]

def ofName? (name : String) : Option ValueType :=
  scalars.find? fun t => t.name == name

theorem supportsEq_of_supportsOrd {t : ValueType} (h : t.supportsOrd = true) :
    t.supportsEq = true := by
  cases t <;> simp_all [supportsOrd, supportsEq]

end ValueType

inductive Expected where
  | type (t : ValueType)
  | eq
  | ord
  deriving DecidableEq, Repr

def Expected.name : Expected → String
  | type t => t.name
  | eq => "eq"
  | ord => "ord"

end ScopedFormulas
