import ScopedFormulas.Environment.Basic

/-!
The cases of an assignment, as a relation that `assign` decides, and what binding a name does to
the two things that later operations ask of it: what it means, and what a qualified write through
it goes into. At every level a write turns one value, the one at the first name of its path, into
another, so inductions on the path go through `Value.writeBelow`.
-/

namespace ScopedFormulas

theorem Scope.binding?_cons (name : String) (s : Scope) (outer : List Scope) :
    Scope.binding? name (s :: outer) = (s.bindings.get? name).or (Scope.binding? name outer) := by
  simp only [Scope.binding?, List.findSome?_cons]
  cases s.bindings.get? name <;> rfl

namespace Namespace

variable {v : Value} {name next : String} {rest : List String} {members inner : Namespace}

theorem insertPath_group (h : (Table.get? members name).getD (.group ∅) = .group inner) :
    insertPath v (name :: next :: rest) members =
      (insertPath v (next :: rest) inner).map fun written =>
        Table.insert members name (.group written) := by
  rw [insertPath, h]
  dsimp only
  cases insertPath v (next :: rest) inner <;> rfl

theorem insertPath_blocked (h : ((Table.get? members name).getD (.group ∅)).type ≠ .group) :
    insertPath v (name :: next :: rest) members =
      .error (.notNamespace name ((Table.get? members name).getD (.group ∅)).type) := by
  rw [insertPath]
  split
  next hgroup => exact absurd (by rw [hgroup]; rfl) h
  next => rfl

end Namespace

namespace Value

theorem exists_group {v : Value} (h : v.type = .group) : ∃ members, v = .group members := by
  cases v with
  | group members => exact ⟨members, rfl⟩
  | _ => cases h

/-- What a write to the path `name :: path` makes of the value at `name`. -/
def writeBelow (name : String) (v : Value) : List String → Value → Except AssignError Value
  | [], _ => .ok v
  | next :: rest, .group members => (Namespace.insertPath v (next :: rest) members).map .group
  | _ :: _, other => .error (.notNamespace name other.type)

variable {v : Value} {path : List String}

theorem writeBelow_group (hp : path ≠ []) (name : String) (members : Namespace) :
    writeBelow name v path (.group members) = (Namespace.insertPath v path members).map .group := by
  cases path with
  | nil => exact absurd rfl hp
  | cons next rest => rfl

theorem writeBelow_of_type {slot : Value} (hp : path ≠ []) (h : slot.type ≠ .group)
    (name : String) : writeBelow name v path slot = .error (.notNamespace name slot.type) := by
  cases path with
  | nil => exact absurd rfl hp
  | cons next rest =>
    cases slot with
    | group members => exact absurd rfl h
    | _ => rfl

end Value

theorem Namespace.insertPath_cons_eq {v : Value} (name : String) (path : List String)
    (members : Namespace) :
    insertPath v (name :: path) members =
      (Value.writeBelow name v path ((Table.get? members name).getD (.group ∅))).map
        (Table.insert members name) := by
  cases path with
  | nil => rfl
  | cons next rest =>
    by_cases hslot : ((Table.get? members name).getD (.group ∅)).type = .group
    · obtain ⟨inner, hget⟩ := Value.exists_group hslot
      rw [insertPath_group hget, hget, Value.writeBelow]
      cases insertPath v (next :: rest) inner <;> rfl
    · rw [insertPath_blocked hslot, Value.writeBelow_of_type (List.cons_ne_nil _ _) hslot]
      rfl

namespace Environment

variable {env : Environment} {v : Value}

theorem name?_eq (env : Environment) (name : String) :
    env.name? name = (env.scope.bindings.get? name).or (Scope.binding? name env.outer) :=
  Scope.binding?_cons name env.scope env.outer

theorem name?_bind (env : Environment) (name other : String) (v : Value) :
    (env.bind name v).name? other = if name = other then some v else env.name? other := by
  simp only [name?_eq, bind, Table.get?_insert]
  split <;> rfl

theorem member?_of_type {v : Value} (h : v.type ≠ .group) (name : String) :
    env.member? v name = (env.method? v.type name).map .function := by
  cases v with
  | group members => exact absurd rfl h
  | _ => rfl

theorem base_bind (env : Environment) (name other : String) (v : Value) :
    (env.bind name v).base other = if name = other then v else env.base other := by
  simp only [base, inherited, bind, Table.get?_insert]
  split <;> rfl

theorem binding?_of_inherited {name : String} (h : env.inherited name ≠ ∅) :
    Scope.binding? name env.outer = some (.group (env.inherited name)) := by
  rw [inherited] at h ⊢
  split at h
  next members hm => rw [hm]
  next => exact absurd rfl h

theorem adopt_of_bound {name : String} {own : Value} (h : env.scope.bindings.get? name = some own) :
    env.adopt name = env := by
  rw [adopt, h]

theorem adopt_of_unbound {name : String} (h : env.scope.bindings.get? name = none) :
    env.adopt name = env.bind name (.group (env.inherited name)) := by
  rw [adopt, h]

theorem adopt_of_base {name : String} (h : (env.base name).type ≠ .group) :
    env.adopt name = env := by
  cases hname : env.scope.bindings.get? name with
  | some own => exact adopt_of_bound hname
  | none =>
    rw [base, hname] at h
    exact absurd rfl h

inductive Assigns (env : Environment) (v : Value) :
    List String → Except AssignError Unit → Environment → Prop where
  | readOnly {path : List String} (flag : env.scope.readOnly = true) :
    Assigns env v path (.error .readOnly) env
  | emptyTarget (flag : env.scope.readOnly = false) : Assigns env v [] (.error .emptyTarget) env
  | name {name : String} (flag : env.scope.readOnly = false) :
    Assigns env v [name] (.ok ()) (env.bind name v)
  | member {name next : String} {rest : List String} {members written : Namespace}
    (flag : env.scope.readOnly = false) (base : env.base name = .group members)
    (write : Namespace.insertPath v (next :: rest) members = .ok written) :
    Assigns env v (name :: next :: rest) (.ok ()) (env.bind name (.group written))
  | blocked {name next : String} {rest : List String} {members : Namespace} {cause : AssignError}
    (flag : env.scope.readOnly = false) (base : env.base name = .group members)
    (write : Namespace.insertPath v (next :: rest) members = .error cause) :
    Assigns env v (name :: next :: rest) (.error cause) (env.adopt name)
  | notNamespace {name next : String} {rest : List String}
    (flag : env.scope.readOnly = false) (base : (env.base name).type ≠ .group) :
    Assigns env v (name :: next :: rest) (.error (.notNamespace name (env.base name).type)) env

theorem assigns (env : Environment) (path : List String) (v : Value) :
    Assigns env v path (env.assign path v).1 (env.assign path v).2 := by
  cases flag : env.scope.readOnly with
  | true =>
    simp only [assign, flag, if_true]
    exact .readOnly flag
  | false =>
    match path with
    | [] =>
      simp only [assign, flag]
      exact .emptyTarget flag
    | [name] =>
      simp only [assign, flag]
      exact .name flag
    | name :: next :: rest =>
      simp only [assign, flag, Bool.false_eq_true, if_false]
      split
      next members base =>
        split
        next written write => exact .member flag base write
        next cause write => exact .blocked flag base write
      next hother =>
        refine .notNamespace flag fun h => ?_
        obtain ⟨members, base⟩ := Value.exists_group h
        exact hother members base

theorem Assigns.eq {path : List String} {result : Except AssignError Unit} {after : Environment}
    (h : Assigns env v path result after) : env.assign path v = (result, after) := by
  cases h with
  | readOnly flag => simp [assign, flag]
  | emptyTarget flag => simp [assign, flag]
  | name flag => simp [assign, flag]
  | member flag base write => simp [assign, flag, base, write]
  | blocked flag base write => simp [assign, flag, base, write]
  | notNamespace flag base =>
    simp only [assign, flag, Bool.false_eq_true, if_false]
    split
    next members hgroup => exact absurd (by rw [hgroup]; rfl) base
    next => rfl

theorem assign_eq_iff {path : List String} {result : Except AssignError Unit}
    {after : Environment} : env.assign path v = (result, after) ↔ Assigns env v path result after :=
  ⟨fun h => by simpa only [h] using assigns env path v, Assigns.eq⟩

def settle (env : Environment) (name : String) :
    Except AssignError Value → Except AssignError Unit × Environment
  | .ok written => (.ok (), env.bind name written)
  | .error cause => (.error cause, env.adopt name)

theorem settle_fst (env : Environment) (name : String) (outcome : Except AssignError Value) :
    (env.settle name outcome).1 = outcome.map fun _ => () := by
  cases outcome <;> rfl

theorem assign_cons (flag : env.scope.readOnly = false) (name : String) (path : List String)
    (v : Value) :
    env.assign (name :: path) v =
      env.settle name (Value.writeBelow name v path (env.base name)) := by
  cases path with
  | nil => exact (Assigns.name flag).eq
  | cons next rest =>
    have hpath : next :: rest ≠ [] := List.cons_ne_nil next rest
    by_cases hbase : (env.base name).type = .group
    · obtain ⟨members, base⟩ := Value.exists_group hbase
      rw [base, Value.writeBelow_group hpath]
      cases write : Namespace.insertPath v (next :: rest) members with
      | ok written => exact (Assigns.member flag base write).eq
      | error cause => exact (Assigns.blocked flag base write).eq
    · rw [(Assigns.notNamespace flag hbase).eq, Value.writeBelow_of_type hpath hbase, settle,
        adopt_of_base hbase]

end Environment

end ScopedFormulas
