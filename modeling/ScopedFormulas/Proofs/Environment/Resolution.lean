import ScopedFormulas.Proofs.Environment.Assignment

namespace ScopedFormulas

def Value.follow? : List String → Value → Option Value
  | [], v => some v
  | name :: rest, .group members => (Table.get? members name).bind (follow? rest)
  | _ :: _, _ => none

def Environment.resolve? (env : Environment) : List String → Option Value
  | [] => none
  | name :: rest => (env.name? name).bind (Value.follow? rest)

namespace Value

@[simp] theorem follow?_nil (v : Value) : v.follow? [] = some v := by cases v <;> rfl

@[simp] theorem follow?_group (members : Namespace) (name : String) (rest : List String) :
    (Value.group members).follow? (name :: rest) =
      (Table.get? members name).bind (follow? rest) := rfl

theorem follow?_of_type {v : Value} {path : List String} (hv : v.type ≠ .group) (hp : path ≠ []) :
    v.follow? path = none := by
  cases path with
  | nil => exact absurd rfl hp
  | cons name rest =>
    cases v with
    | group members => exact absurd rfl hv
    | _ => rfl

theorem follow?_empty {path : List String} (hp : path ≠ []) :
    (Value.group ∅).follow? path = none := by
  cases path with
  | nil => exact absurd rfl hp
  | cons name rest => rfl

theorem follow?_append (v : Value) (p q : List String) :
    v.follow? (p ++ q) = (v.follow? p).bind (follow? q) := by
  induction p generalizing v with
  | nil => simp
  | cons name rest ih =>
    cases v with
    | group members =>
      rw [List.cons_append, follow?_group, follow?_group]
      cases Table.get? members name with
      | none => rfl
      | some w => exact ih w
    | _ => rfl

end Value

namespace Namespace

variable {v : Value} {p q : List String} {members written : Namespace}

theorem insertPath_cons {name next : String} {rest : List String}
    (h : insertPath v (name :: next :: rest) members = .ok written) :
    ∃ inner innerWritten, (Table.get? members name).getD (.group ∅) = .group inner ∧
      insertPath v (next :: rest) inner = .ok innerWritten ∧
      written = Table.insert members name (.group innerWritten) := by
  by_cases hgroup : ((Table.get? members name).getD (.group ∅)).type = .group
  · obtain ⟨inner, hget⟩ := Value.exists_group hgroup
    rw [insertPath_group hget] at h
    cases hinner : insertPath v (next :: rest) inner with
    | ok innerWritten =>
      rw [hinner] at h
      cases h
      exact ⟨inner, innerWritten, hget, hinner, rfl⟩
    | error cause =>
      rw [hinner] at h
      cases h
  · rw [insertPath_blocked hgroup] at h
    cases h

theorem follow?_getD {o : Option Value} {inner : Namespace} (h : o.getD (.group ∅) = .group inner)
    (hq : q ≠ []) : (Value.group inner).follow? q = o.bind (Value.follow? q) := by
  cases o with
  | none =>
    cases h
    exact Value.follow?_empty hq
  | some w =>
    cases h
    rfl

theorem follow?_insertPath_self (h : insertPath v p members = .ok written) :
    (Value.group written).follow? p = some v := by
  induction p generalizing members written with
  | nil => cases h
  | cons name rest ih =>
    cases rest with
    | nil =>
      cases h
      simp
    | cons next rest =>
      obtain ⟨inner, innerWritten, -, hinner, rfl⟩ := insertPath_cons h
      rw [Value.follow?_group, Table.get?_insert_self]
      exact ih hinner

theorem follow?_insertPath_of_not_prefix (h : insertPath v p members = .ok written)
    (hpq : ¬ p <+: q) (hqp : ¬ q <+: p) :
    (Value.group written).follow? q = (Value.group members).follow? q := by
  induction p generalizing members written q with
  | nil => exact absurd List.nil_prefix hpq
  | cons name rest ih =>
    obtain _ | ⟨other, tail⟩ := q
    · exact absurd List.nil_prefix hqp
    by_cases hname : name = other
    · subst hname
      rw [List.prefix_cons_inj] at hpq hqp
      have hne : tail ≠ [] := fun ht => hqp (ht ▸ List.nil_prefix)
      cases rest with
      | nil => exact absurd List.nil_prefix hpq
      | cons next rest =>
        obtain ⟨inner, innerWritten, hget, hinner, rfl⟩ := insertPath_cons h
        rw [Value.follow?_group, Table.get?_insert_self, Value.follow?_group,
          ← follow?_getD hget hne]
        exact ih hinner hpq hqp
    · have hget : Table.get? written other = Table.get? members other := by
        cases rest with
        | nil =>
          cases h
          exact Table.get?_insert_of_ne _ _ hname
        | cons next rest =>
          obtain ⟨inner, innerWritten, -, -, rfl⟩ := insertPath_cons h
          exact Table.get?_insert_of_ne _ _ hname
      rw [Value.follow?_group, Value.follow?_group, hget]

end Namespace

namespace Environment

variable {env after : Environment} {v : Value} {p q : List String}

/-- Below its first name, a path reads the same in the scopes as in what a write goes into: an
inherited value that is not a namespace has nothing inside, and neither has the empty namespace
that shadows it. -/
theorem follow?_base (env : Environment) (name : String) (hq : q ≠ []) :
    (env.base name).follow? q = (env.name? name).bind (Value.follow? q) := by
  rw [name?_eq, base]
  cases env.scope.bindings.get? name with
  | some own => rfl
  | none =>
    rw [Option.getD_none, Option.none_or, inherited]
    split
    next members hm => rw [hm]; rfl
    next hother =>
      rw [Value.follow?_empty hq]
      cases ho : Scope.binding? name env.outer with
      | none => rfl
      | some w =>
        have hw : w.type ≠ .group := fun ht => by
          obtain ⟨members, rfl⟩ := Value.exists_group ht
          exact hother members ho
        exact (Value.follow?_of_type hw hq).symm

theorem Assigns.bound (h : Assigns env v p (.ok ()) after) :
    ∃ name rest w, p = name :: rest ∧ after = env.bind name w ∧ w.follow? rest = some v ∧
      ∀ q, ¬ rest <+: q → ¬ q <+: rest → w.follow? q = (env.base name).follow? q := by
  cases h with
  | @name name flag =>
    exact ⟨name, [], v, rfl, rfl, by simp, fun q hq _ => absurd List.nil_prefix hq⟩
  | @member name next rest members written flag base write =>
    refine ⟨name, next :: rest, .group written, rfl, rfl,
      Namespace.follow?_insertPath_self write, fun q hpq hqp => ?_⟩
    rw [base]
    exact Namespace.follow?_insertPath_of_not_prefix write hpq hqp

theorem resolve?_append (env : Environment) {p : List String} (hp : p ≠ []) (r : List String) :
    env.resolve? (p ++ r) = (env.resolve? p).bind (Value.follow? r) := by
  cases p with
  | nil => exact absurd rfl hp
  | cons name rest =>
    rw [List.cons_append, resolve?, resolve?]
    cases env.name? name with
    | none => rfl
    | some w => exact Value.follow?_append w rest r

theorem resolve?_bind_of_ne (env : Environment) {name other : String} (v : Value)
    (rest : List String) (h : name ≠ other) :
    (env.bind name v).resolve? (other :: rest) = env.resolve? (other :: rest) := by
  rw [resolve?, resolve?, name?_bind, if_neg h]

theorem resolve?_assign (h : env.assign p v = (.ok (), after)) :
    (∀ r, after.resolve? (p ++ r) = v.follow? r) ∧
      ∀ q, q ≠ [] → ¬ q <+: p → ¬ p <+: q → after.resolve? q = env.resolve? q := by
  obtain ⟨name, rest, w, rfl, rfl, hself, hother⟩ := (assign_eq_iff.mp h).bound
  constructor
  · intro r
    have hread : (env.bind name w).resolve? (name :: rest) = some v := by
      rw [resolve?, name?_bind, if_pos rfl]
      exact hself
    rw [resolve?_append _ (List.cons_ne_nil name rest), hread]
    rfl
  · intro q hq hqp hpq
    obtain _ | ⟨other, tail⟩ := q
    · exact absurd rfl hq
    by_cases hname : name = other
    · subst hname
      rw [List.prefix_cons_inj] at hpq hqp
      have hne : tail ≠ [] := fun ht => hqp (ht ▸ List.nil_prefix)
      rw [resolve?, resolve?, name?_bind, if_pos rfl, ← follow?_base env name hne]
      exact hother tail hpq hqp
    · exact resolve?_bind_of_ne env w tail hname

theorem resolve?_assign_inherited :
    let env := ((root true).bind "fields" (.group (.ofList [("a", .text "1")]))).push false
    let after := (env.assign ["fields", "b"] (.text "2")).2
    env.assign ["fields", "b"] (.text "2") = (.ok (), after) ∧
      after.resolve? ["fields", "b"] = some (.text "2") ∧
      after.resolve? ["fields", "a"] = env.resolve? ["fields", "a"] := by
  intro env after
  have hok : env.assign ["fields", "b"] (.text "2") = (.ok (), after) := rfl
  obtain ⟨hself, hother⟩ := resolve?_assign hok
  exact ⟨hok, hself [], hother ["fields", "a"] (by decide) (by decide) (by decide)⟩

end Environment

end ScopedFormulas
