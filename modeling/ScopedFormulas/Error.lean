import ScopedFormulas.Expr.Build
import ScopedFormulas.ValueType

namespace ScopedFormulas

inductive AssignError where
  | readOnly
  | emptyTarget
  | notNamespace (segment : String) (actual : ValueType)
  deriving DecidableEq, Repr

def AssignError.message : AssignError → String
  | readOnly => "scope is read-only"
  | emptyTarget => "empty assignment target"
  | notNamespace segment actual =>
    "'" ++ segment ++ "' is a " ++ actual.name ++ ", not a namespace"

inductive EvalError where
  | argumentType (operator : String) (expected : List Expected) (actual : List ValueType)
  | unresolved (name : Ident)
  | notCallable (callee : Expr) (actual : ValueType)
  | trap (cause : Trap)
  | assignment (target : List String) (cause : AssignError)
  | arity (function : String) (expected actual : Nat)

def EvalError.message : EvalError → String
  | argumentType operator expected actual =>
    "argument type error: '" ++ operator ++ "' expects ("
      ++ ", ".intercalate (expected.map (·.name)) ++ "), got ("
      ++ ", ".intercalate (actual.map (·.name)) ++ ")"
  | unresolved name =>
    "name resolution error: '" ++ name.name ++ "' is not defined (at " ++ name.span.text ++ ")"
  | notCallable callee actual => "not callable: '" ++ callee.text ++ "' is a " ++ actual.name
  | trap cause => "arithmetic trap: " ++ cause.message
  | assignment target cause =>
    "cannot assign to '" ++ ":".intercalate target ++ "': " ++ cause.message
  | arity function expected actual =>
    "'" ++ function ++ "' takes " ++ toString expected ++ " argument(s), got " ++ toString actual

end ScopedFormulas
