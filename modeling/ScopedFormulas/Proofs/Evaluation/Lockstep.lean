import ScopedFormulas.Proofs.Evaluation.Simulation
import ScopedFormulas.Proofs.Native.Conduct

/-!
Runs in lockstep: in two environments that answer alike, and stay so under the writes that a conduct
allows, formulas and native functions of that conduct give one and the same answer. Native bodies
are taken as trees of steps, and calls are nested by the fuel.
-/

namespace ScopedFormulas

open Comparison

structure Conduct.Lockstep (c : Conduct) (E : Environment → Environment → Prop) : Prop
    extends c.Lawful where
  name? : ∀ {e e'}, E e e' → ∀ name,
    e.name? name = e'.name? name ∧ ∀ v, e.name? name = some v → c.value v
  method? : ∀ {e e'}, E e e' → ∀ {t}, t ≠ .group → ∀ name,
    e.method? t name = e'.method? t name ∧ ∀ f, e.method? t name = some f → c.value (.function f)
  assign : ∀ {e e'}, E e e' → ∀ path {v}, c.assigned v →
    (e.assign path v).1 = (e'.assign path v).1 ∧ E (e.assign path v).2 (e'.assign path v).2
  bind : ∀ {e e'}, E e e' → ∀ name {v}, c.seeded v → E (e.bind name v) (e'.bind name v)

namespace Conduct.Lockstep

variable {c : Conduct} {E : Environment → Environment → Prop} {call : Caller} {e e' : Environment}

theorem member?_of_type (h : c.Lockstep E) (he : E e e') {v : Value} (hv : v.type ≠ .group)
    (name : String) :
    e.member? v name = e'.member? v name ∧ ∀ w, e.member? v name = some w → c.value w := by
  obtain ⟨hmethod, hvalue⟩ := h.method? he hv name
  rw [Environment.member?_of_type hv, Environment.member?_of_type hv, ← hmethod]
  refine ⟨rfl, fun w hw => ?_⟩
  obtain ⟨f, hf, rfl⟩ := Option.map_eq_some_iff.mp hw
  exact hvalue f hf

theorem member? (h : c.Lockstep E) (he : E e e') {v : Value} (hv : c.value v) (name : String) :
    e.member? v name = e'.member? v name ∧ ∀ w, e.member? v name = some w → c.value w := by
  by_cases hgroup : v.type = .group
  · obtain ⟨members, rfl⟩ := Value.exists_group hgroup
    exact ⟨rfl, fun w hw => h.member hv hw⟩
  · exact h.member?_of_type he hgroup name

theorem lookup? (h : c.Lockstep E) (he : E e e') (name : String) (scope : Option Value) :
    e.lookup? name scope = e'.lookup? name scope ∧
      c.Finds name scope (e.lookup? name scope) := by
  cases scope with
  | none => exact h.name? he name
  | some v =>
    by_cases hgroup : v.type = .group
    · obtain ⟨members, rfl⟩ := Value.exists_group hgroup
      exact ⟨rfl, rfl⟩
    · have hmember := h.member?_of_type he hgroup name
      cases v with
      | group members => exact absurd rfl hgroup
      | _ => exact hmember

def simulation (h : c.Lockstep E) : Simulation where
  toComparison := exact E
  value := Shared c.value
  node := c.node
  number hnode := ⟨rfl, h.number hnode⟩
  text s := ⟨rfl, h.text s⟩
  texts segments := ⟨rfl, h.texts segments⟩
  type_eq hv := congrArg Value.type hv.1
  bindMethod := by
    rintro v _ w _ ⟨rfl, hv⟩ ⟨rfl, hw⟩
    exact ⟨rfl, h.bindMethod hv hw⟩
  error _ := rfl
  name? he name := rel_shared_iff.mpr (h.name? he name)
  member? := by
    rintro e e' v _ he ⟨rfl, hv⟩ name
    exact rel_shared_iff.mpr (h.member? he hv name)
  assign := by
    rintro targets part span hnode e e' v _ he ⟨rfl, hv⟩ path
    exact h.assign he path (h.assigned hnode hv)
  unary := by
    rintro v _ op ⟨rfl, hv⟩
    exact .ofExcept fun w hw => h.unary hv hw
  binary := by
    rintro l _ r _ op ⟨rfl, hl⟩ ⟨rfl, hr⟩
    exact .ofExcept fun w hw => h.binary hl hr hw

def Calls (c : Conduct) (E : Environment → Environment → Prop) (call : Caller) : Prop :=
  ∀ f args, c.value (.function f) → (∀ v ∈ args, c.value v) →
    (exact E).Simulates (Shared c.value) (call f args) (call f args)

theorem evalWith (h : c.Lockstep E) (hcall : Calls c E call) {formula : Expr}
    (hformula : ∀ n ∈ formula.nodes, c.node n) :
    (exact E).Simulates (Shared c.value) (formula.evalWith call) (formula.evalWith call) := by
  refine h.simulation.evalWith ?_ hformula
  rintro f g args args' ⟨hfg, hf⟩ hargs
  obtain ⟨rfl, hvalues⟩ := forall₂_shared_iff.mp hargs
  cases hfg
  exact hcall f args hf hvalues

theorem action (h : c.Lockstep E) (hcall : Calls c E call) {a : Action} (ha : a.Keeps c) :
    (exact E).Simulates (Shared c.value) (a.run call) (a.run call) := by
  induction ha with
  | done value => exact .ofExcept value
  | @assign path v next assigned _ ih =>
    apply Simulates.bind (A := Eq) (.modify fun e e' he => h.assign he path assigned)
    rintro answer _ rfl
    exact ih answer
  | @seed name v next seeded _ ih =>
    refine .bind (A := Eq) (.modify fun e e' he => ⟨rfl, h.bind he name seeded⟩) ?_
    rintro _ _ rfl
    exact ih
  | @lookup name scope next _ ih =>
    apply Simulates.bind (A := Shared (c.Finds name scope))
      (.read fun e e' he => h.lookup? he name scope)
    rintro found _ ⟨rfl, hfound⟩
    exact ih found hfound
  | evaluate nodes _ ih =>
    apply Simulates.bind (h.evalWith hcall nodes).attempt
    rintro answer _ ⟨rfl, hanswer⟩
    exact ih answer hanswer
  | call function args _ ih =>
    apply Simulates.bind (hcall _ _ function args).attempt
    rintro answer _ ⟨rfl, hanswer⟩
    exact ih answer hanswer

variable {library : Library}

theorem calls (h : c.Lockstep E) (hlib : library.Keeps c) (fuel : Nat) :
    Calls c E (library.call fuel) := by
  induction fuel with
  | zero => exact fun f args _ _ => .stop rfl
  | succ fuel ih =>
    intro f args hf hargs
    apply Simulates.bind (.record _)
    rintro _ _ rfl
    exact h.action ih (hlib f args hf hargs)

theorem eval (h : c.Lockstep E) (hlib : library.Keeps c) (fuel : Nat) {formula : Expr}
    (hformula : ∀ n ∈ formula.nodes, c.node n) :
    (exact E).Simulates Eq (formula.eval library fuel) (formula.eval library fuel) :=
  (h.evalWith (h.calls hlib fuel) hformula).mono fun _ _ => And.left

theorem evalAll (h : c.Lockstep E) (hlib : library.Keeps c) (fuel : Nat) {formulas : List Expr}
    (hformulas : ∀ e ∈ formulas, ∀ n ∈ e.nodes, c.node n) :
    (exact E).Simulates Eq (evalAll library fuel formulas) (evalAll library fuel formulas) := by
  have hrel := h.simulation.evalAll fun e he => h.evalWith (h.calls hlib fuel) (hformulas e he)
  exact hrel.mono fun _ _ hlast => (rel_shared_iff.mp hlast).1

end Conduct.Lockstep

end ScopedFormulas
