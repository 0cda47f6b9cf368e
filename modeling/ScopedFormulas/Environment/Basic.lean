import ScopedFormulas.Error
import ScopedFormulas.Value.Basic

/-!
Environments: chains of scopes that names are looked up in. A lookup goes from the innermost scope
outward, and an assignment writes to the innermost scope only. A qualified lookup stays inside a
namespace; on any other value it finds the methods registered for the type of the value.
-/

namespace ScopedFormulas

/-- Binds `v` at a path of names. Namespaces that are missing on the way are created; anything else
on the way is an error at the name it is bound to. -/
def Namespace.insertPath (v : Value) : List String → Namespace → Except AssignError Namespace
  | [], _ => .error .emptyTarget
  | [name], members => .ok (Table.insert members name v)
  | name :: next :: rest, members =>
    match (Table.get? members name).getD (.group ∅) with
    | .group inner =>
      match insertPath v (next :: rest) inner with
      | .ok written => .ok (Table.insert members name (.group written))
      | .error cause => .error cause
    | other => .error (.notNamespace name other.type)

structure MethodEntry where
  type : ValueType
  function : Function

structure Scope where
  bindings : Table Value
  /-- Newest first. -/
  methods : List MethodEntry
  readOnly : Bool

def Scope.empty (readOnly : Bool) : Scope := ⟨∅, [], readOnly⟩

def Scope.method? (s : Scope) (t : ValueType) (name : String) : Option Function :=
  (s.methods.find? fun m => m.type = t ∧ m.function.name = name).map (·.function)

def Scope.binding? (name : String) (scopes : List Scope) : Option Value :=
  scopes.findSome? fun s => s.bindings.get? name

structure Environment where
  scope : Scope
  outer : List Scope

namespace Environment

def root (readOnly : Bool) : Environment := ⟨.empty readOnly, []⟩

def push (env : Environment) (readOnly : Bool) : Environment :=
  ⟨.empty readOnly, env.scope :: env.outer⟩

def pop? (env : Environment) : Option Environment :=
  match env.outer with
  | [] => none
  | s :: rest => some ⟨s, rest⟩

def scopes (env : Environment) : List Scope := env.scope :: env.outer

def depth (env : Environment) : Nat := env.scopes.length

def name? (env : Environment) (name : String) : Option Value :=
  Scope.binding? name env.scopes

def method? (env : Environment) (t : ValueType) (name : String) : Option Function :=
  env.scopes.findSome? fun s => s.method? t name

def member? (env : Environment) (v : Value) (name : String) : Option Value :=
  match v with
  | .group members => members.get? name
  | v => (env.method? v.type name).map .function

def lookup? (env : Environment) (name : String) : Option Value → Option Value
  | none => env.name? name
  | some v => env.member? v name

def bind (env : Environment) (name : String) (v : Value) : Environment :=
  { env with scope := { env.scope with bindings := env.scope.bindings.insert name v } }

def defineMethod (env : Environment) (t : ValueType) (f : Function) : Environment :=
  { env with scope := { env.scope with methods := ⟨t, f⟩ :: env.scope.methods } }

def inherited (env : Environment) (name : String) : Namespace :=
  match Scope.binding? name env.outer with
  | some (.group members) => members
  | _ => ∅

def base (env : Environment) (name : String) : Value :=
  (env.scope.bindings.get? name).getD (.group (env.inherited name))

/-- Copies what a qualified write goes into to the innermost scope, so that outer scopes keep what
they have. -/
def adopt (env : Environment) (name : String) : Environment :=
  match env.scope.bindings.get? name with
  | some _ => env
  | none => env.bind name (.group (env.inherited name))

/-- Writes `v` at a path in the innermost scope. A write that fails below an inherited namespace
leaves the copy of that namespace behind. -/
def assign (env : Environment) (path : List String) (v : Value) :
    Except AssignError Unit × Environment :=
  if env.scope.readOnly then (.error .readOnly, env)
  else
    match path with
    | [] => (.error .emptyTarget, env)
    | [name] => (.ok (), env.bind name v)
    | name :: next :: rest =>
      match env.base name with
      | .group members =>
        match Namespace.insertPath v (next :: rest) members with
        | .ok written => (.ok (), env.bind name (.group written))
        | .error cause => (.error cause, env.adopt name)
      | other => (.error (.notNamespace name other.type), env)

end Environment

end ScopedFormulas
