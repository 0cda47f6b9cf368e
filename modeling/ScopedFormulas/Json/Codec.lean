import ScopedFormulas.Check
import ScopedFormulas.Json.Parse
import ScopedFormulas.Json.Text

/-!
The JSON forms of spans, types, requirements and outcomes. A scalar type is its name, and
`{"array": T}` an array of `T`; a type name may also be written as an object with that one member,
whose value is null. An outcome is an object with its kind in the member `outcome`, or an array with
the kind in front. Objects may hold further members, which are ignored.
-/

namespace ScopedFormulas

/-- A library that prints and parses documents. `Lawful` says what is relied on. -/
structure Json.Serializer extends Json.Limits where
  print : Json → String
  parse? : String → Option Json

def Json.Serializer.standard : Json.Serializer := ⟨.standard, Json.text, Json.parse?⟩

namespace Span

def toJson (s : Span) : Json :=
  .object [(some "start", .ofNat s.start.toNat), (some "end", .ofNat s.stop.toNat)]

def offset? : Json → Option UInt32
  | .number n => n.natural?.bind fun value =>
    if value < UInt32.size then some (UInt32.ofNat value) else none
  | _ => none

def ofJson? : Json → Option Span
  | .array [a, b] => do return ⟨← offset? a, ← offset? b⟩
  | .object members =>
    if members.all fun m => m.1.isSome then do
      return ⟨← (Json.field? "start" members).bind offset?, ← (Json.field? "end" members).bind offset?⟩
    else none
  | _ => none

end Span

namespace ValueType

def toJson : ValueType → Json
  | array elem => .object [(some "array", elem.toJson)]
  | t => .ofText t.name

/-- Reads a type, where `isUnit` tells what may stand as the value of the member that names a scalar
type. -/
def readJson? (isUnit : Json → Bool) : Json → Option ValueType
  | .string (some name) => ofName? name
  | .object [(some name, content)] =>
    if name = "array" then (readJson? isUnit content).map array
    else if isUnit content then ofName? name
    else none
  | _ => none

def isNull : Json → Bool
  | .null => true
  | _ => false

def isNullOrEmpty : Json → Bool
  | .null | .object [] => true
  | _ => false

def ofJson? (j : Json) (limits : Json.Limits := .standard) : Option ValueType :=
  if limits.admits j then readJson? isNull j else none

end ValueType

namespace Expected

def toJson : Expected → Json
  | type t => .object [(some "type", t.toJson)]
  | e => .ofText e.name

def capability? (name : String) : Option Expected :=
  if name = "eq" then some eq else if name = "ord" then some ord else none

def ofJson? (j : Json) (limits : Json.Limits := .standard) : Option Expected :=
  if limits.admits j then
    match j with
    | .string (some name) => capability? name
    | .object [(some name, content)] =>
      if name = "type" then (ValueType.readJson? ValueType.isNull content).map type
      else if ValueType.isNull content then capability? name
      else none
    | _ => none
  else none

end Expected

namespace Requirement

def toJson : Requirement → Json
  | scalar name => .ofText name
  | list elems => .array (elems.map .ofText)

def name? : Json → Option String
  | .string s => s
  | _ => none

def ofJson? (j : Json) (limits : Json.Limits := .standard) : Option Requirement :=
  if limits.admits j then
    match j with
    | .string (some name) => some (scalar name)
    | .array items => (items.mapM name?).map list
    | _ => none
  else none

end Requirement

namespace Requirements

def toJson (fields : Requirements) : Json :=
  .object (fields.entries.map fun f => (some f.1, f.2.toJson))

def field? (limits : Json.Limits) (member : Option String × Json) :
    Option (String × Requirement) := do
  return (← member.1, ← Requirement.ofJson? member.2 limits.inner)

/-- A member that is repeated has to be a requirement each time; the last one stays. -/
def ofJson? (limits : Json.Limits) : Json → Option Requirements
  | .object members => (members.mapM (field? limits)).map ofList
  | _ => none

def parse? (text : String) (s : Json.Serializer := .standard) : Option Requirements :=
  (s.parse? text).bind (ofJson? s.toLimits)

end Requirements

namespace CheckOutcome

def kind : CheckOutcome → String
  | passed => "passed"
  | mismatch .. => "mismatch"
  | failed _ => "failed"
  | empty => "empty"

def toJson (o : CheckOutcome) : Json :=
  .object ((some "outcome", .ofText o.kind) ::
    match o with
    | mismatch expected actual =>
      [(some "expected", expected.toJson), (some "actual", actual.toJson)]
    | failed message => [(some "message", .ofText message)]
    | passed | empty => [])

def type? : Json → Option ValueType := ValueType.readJson? ValueType.isNullOrEmpty

def ofMembers? (kind : String) (members : List (Option String × Json)) : Option CheckOutcome :=
  if kind = "passed" then some passed
  else if kind = "empty" then some empty
  else if kind = "mismatch" then do
    return mismatch (← (Json.field? "expected" members).bind type?)
      (← (Json.field? "actual" members).bind type?)
  else if kind = "failed" then
    ((Json.field? "message" members).bind Requirement.name?).map failed
  else none

def ofItems? (kind : String) : List Json → Option CheckOutcome
  | [] =>
    if kind = "passed" then some passed else if kind = "empty" then some empty else none
  | [message] =>
    if kind = "failed" then (Requirement.name? message).map failed else none
  | [expected, actual] =>
    if kind = "mismatch" then do return mismatch (← type? expected) (← type? actual) else none
  | _ => none

def ofJson? (j : Json) (limits : Json.Limits := .standard) : Option CheckOutcome :=
  if limits.admits j then
    match j with
    | .object members =>
      match Json.field? "outcome" members with
      | some (.string (some kind)) => ofMembers? kind members
      | _ => none
    | .array (.string (some kind) :: items) => ofItems? kind items
    | _ => none
  else none

end CheckOutcome

end ScopedFormulas
