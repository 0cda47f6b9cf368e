import ScopedFormulas.Evaluation.Basic

namespace ScopedFormulas

inductive Requirement where
  | scalar (name : String)
  | list (elems : List String)
  deriving DecidableEq, Repr

structure Requirements extends Table Requirement where
  sorted : toTable.Sorted

def Requirements.ofList (entries : List (String × Requirement)) : Requirements :=
  ⟨.ofList entries, Table.sorted_ofList entries⟩

namespace Requirement

def placeholderTypes : List ValueType := [.number, .text, .latitude, .longitude, .timestamp]

def fallback : Value := .text "a"

def placeholder : Requirement → Value
  | scalar name =>
    match ValueType.ofName? name with
    | some t => if t ∈ placeholderTypes then (Value.placeholder? t).getD fallback else fallback
    | none => fallback
  | list [elem] =>
    match ValueType.ofName? elem with
    | some t => .array t []
    | none => fallback
  | list _ => fallback

end Requirement

namespace Environment

def within (parent : Option Environment) (readOnly : Bool) : Environment :=
  match parent with
  | some env => env.push readOnly
  | none => root readOnly

/-- An environment with a stand-in for every field: each bound by itself, or all of them as members
of one namespace. -/
def dummy (parent : Option Environment) (readOnly : Bool) (ns : Option String)
    (fields : Requirements) : Environment :=
  match ns with
  | none =>
    fields.entries.foldl (fun env field => env.bind field.1 field.2.placeholder)
      (within parent readOnly)
  | some ns => (within parent readOnly).bind ns (.group (fields.map (·.placeholder)))

end Environment

open EvalM

inductive CheckOutcome where
  | passed
  | mismatch (expected actual : ValueType)
  | failed (message : String)
  | empty
  deriving DecidableEq, Repr

namespace CheckOutcome

def isPassed : CheckOutcome → Bool
  | passed => true
  | _ => false

def ofLast (expected : ValueType) : Option Value → CheckOutcome
  | none => empty
  | some v => if v.type = expected then passed else mismatch expected v.type

end CheckOutcome

def checkWith (call : Caller) (expected : ValueType) (formulas : List Expr) : EvalM CheckOutcome :=
  go none formulas
where
  go (last : Option Value) : List Expr → EvalM CheckOutcome
    | [] => pure (.ofLast expected last)
    | e :: rest => do
      match ← attempt (e.evalWith call) with
      | .ok v => go (some v) rest
      | .error cause => pure (.failed cause.message)

def check (library : Library) (fuel : Nat) (expected : ValueType) (formulas : List Expr) :
    EvalM CheckOutcome :=
  checkWith (library.call fuel) expected formulas

end ScopedFormulas
