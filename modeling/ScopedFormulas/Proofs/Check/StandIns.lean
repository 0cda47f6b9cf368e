import ScopedFormulas.Check
import ScopedFormulas.Expr.Build
import ScopedFormulas.Proofs.Environment.Lookups
import ScopedFormulas.Proofs.Evaluation.ReadBack
import ScopedFormulas.Proofs.Expr.Nodes
import ScopedFormulas.Proofs.Operator.Typing

namespace ScopedFormulas

open Comparison

namespace Expr

mutual

def qualify (ns : Ident) : Expr → Expr
  | number value span => number value span
  | string raw span => string raw span
  | unary op operand span => unary op (operand.qualify ns) span
  | binary op left right span => binary op (left.qualify ns) (right.qualify ns) span
  | name ident span => member (name ns ns.span) ident span
  | member rest ident span => member (rest.qualify ns) ident span
  | target path span => target path span
  | call callee args span => call (callee.qualify ns) (qualifyArgs ns args) span
  | assign targets value span => assign targets (value.qualify ns) span

def qualifyArgs (ns : Ident) : List Expr → List Expr
  | [] => []
  | arg :: args => arg.qualify ns :: qualifyArgs ns args

end

variable {call : Caller} {ident ns : Ident} {span nsSpan : Span} {env : Environment}
  {members : Namespace}

theorem evalWith_member_of_name (h : env.name? ns.name = some (.group members)) :
    (member (name ns nsSpan) ident span).evalWith call env =
      (match members.get? ident.name with
      | some v => pure ((Value.group members).bindMethod v)
      | none => EvalM.fail (.unresolved ident) : EvalM Value) env := by
  have hscope : (name ns nsSpan).evalWith call env = ⟨.ok (.group members), env, []⟩ := by
    rw [evalWith, EvalM.read_bind, h]
    rfl
  rw [evalWith, EvalM.bind_of_ok (by rw [hscope]), hscope, EvalM.read_bind]
  rfl

end Expr

structure Environment.Grouped (ns : String) (members : Namespace) (a b : Environment) : Prop where
  scope : b.name? ns = some (.group members)
  name? : ∀ name, a.name? name = members.get? name
  plain : ∀ name v, members.get? name = some v → v.type ≠ .group ∧ v.isMethod = false
  method? : ∀ t, t ≠ .group → ∀ name, a.method? t name = b.method? t name

namespace Environment.Grouped

variable {ns : Ident} {members : Namespace} {a b : Environment} {call : Caller}

theorem member? (h : Grouped ns.name members a b) {v : Value} (hv : v.type ≠ .group)
    (name : String) :
    a.member? v name = b.member? v name ∧
      ∀ w, a.member? v name = some w → w.type ≠ .group := by
  rw [member?_of_type hv, member?_of_type hv, h.method? _ hv]
  refine ⟨rfl, fun w hw => ?_⟩
  obtain ⟨f, -, rfl⟩ := Option.map_eq_some_iff.mp hw
  exact nofun

theorem evalWith_qualify (h : Grouped ns.name members a b) {e : Expr}
    (he : ∀ n ∈ e.nodes, n.isCall = false ∧ n.isAssign = false) :
    (exact fun e e' => e = a ∧ e' = b).Simulates (Shared fun v => v.type ≠ .group)
      (e.evalWith call) ((e.qualify ns).evalWith call) := by
  induction e with
  | number | string | target =>
    apply Simulates.pure
    simp [Shared, Value.type]
  | unary op operand span ih =>
    rw [Expr.nodes, List.forall_mem_append] at he
    apply Simulates.bind (ih he.1)
    rintro v _ ⟨rfl, -⟩
    exact .ofExcept fun _ hw => op.eval_ne_group hw
  | binary op left right span ihl ihr =>
    rw [Expr.nodes, List.forall_mem_append, List.forall_mem_append] at he
    apply Simulates.bind (ihl he.1.1)
    rintro l _ ⟨rfl, -⟩
    apply Simulates.bind (ihr he.1.2)
    rintro r _ ⟨rfl, -⟩
    exact .ofExcept fun _ hw => op.eval_ne_group hw
  | name ident span =>
    rintro _ _ ⟨rfl, rfl⟩
    rw [Expr.evalWith, EvalM.read_bind, h.name?, Expr.qualify,
      Expr.evalWith_member_of_name h.scope]
    cases hfound : members.get? ident.name with
    | some v =>
      obtain ⟨hgroup, hmethod⟩ := h.plain _ v hfound
      have hbind := Value.bindMethod_of_not_method (.group members) hmethod
      exact Simulates.pure ⟨hbind.symm, hgroup⟩ _ _ ⟨rfl, rfl⟩
    | none => exact Simulates.stop rfl _ _ ⟨rfl, rfl⟩
  | member rest ident span ih =>
    rw [Expr.nodes, List.forall_mem_append] at he
    apply Simulates.bind (ih he.1)
    rintro v _ ⟨rfl, hv⟩
    have hread : (exact fun e e' => e = a ∧ e' = b).Simulates
        (Option.Rel (Shared fun w => w.type ≠ .group))
        (EvalM.read fun env => env.member? v ident.name)
        (EvalM.read fun env => env.member? v ident.name) := by
      refine .read ?_
      rintro _ _ ⟨rfl, rfl⟩
      exact rel_shared_iff.mpr (h.member? hv ident.name)
    apply Simulates.bind hread
    intro found found' hfound
    cases hfound with
    | none => exact .stop rfl
    | some hw =>
      obtain ⟨rfl, hw⟩ := hw
      have hfunction : ∀ f : Function, (Value.function f).type ≠ .group := by simp [Value.type]
      exact .pure ⟨rfl, Value.bindMethod_preserves (p := fun u => u.type ≠ .group)
        (fun f _ => hfunction (f.bind v)) hw⟩
  | call callee args span => cases (he _ (Expr.self_mem_nodes _)).1
  | assign targets value span => cases (he _ (Expr.self_mem_nodes _)).2

end Environment.Grouped

namespace Requirement

theorem placeholder_plain (r : Requirement) :
    r.placeholder.type ≠ .group ∧ r.placeholder.isMethod = false := by
  cases r with
  | scalar name =>
    rw [placeholder]
    split
    next t _ =>
      split
      next ht =>
        cases t with
        | number | text | latitude | longitude | timestamp => exact ⟨nofun, rfl⟩
        | _ => simp [placeholderTypes] at ht
      next => exact ⟨nofun, rfl⟩
    next => exact ⟨nofun, rfl⟩
  | list elems =>
    rw [placeholder.eq_def]
    split
    next h => cases h
    next => split <;> exact ⟨nofun, rfl⟩
    next => exact ⟨nofun, rfl⟩

end Requirement

namespace Environment

theorem name?_foldl_bind {entries : List (String × Requirement)}
    (h : entries.Pairwise fun e f => e.1 < f.1) (env : Environment) (name : String) :
    (entries.foldl (fun env field => env.bind field.1 field.2.placeholder) env).name? name =
      ((Table.findEntry name entries).map (·.placeholder)).or (env.name? name) := by
  induction entries generalizing env with
  | nil => rfl
  | cons entry entries ih =>
    obtain ⟨key, r⟩ := entry
    obtain ⟨hkey, hentries⟩ := List.pairwise_cons.mp h
    rw [List.foldl_cons, ih hentries, name?_bind, Table.findEntry]
    split
    next heq =>
      subst heq
      rw [Table.findEntry_eq_none fun e he => String.ne_of_lt (hkey e he)]
      rfl
    next => rfl

theorem method?_foldl_bind (entries : List (String × Requirement)) (env : Environment)
    (t : ValueType) (name : String) :
    (entries.foldl (fun env field => env.bind field.1 field.2.placeholder) env).method? t name =
      env.method? t name := by
  induction entries generalizing env with
  | nil => rfl
  | cons entry entries ih => rw [List.foldl_cons, ih, method?_bind]

theorem grouped_dummy (fields : Requirements) (readOnly : Bool) (ns : String) :
    Grouped ns (fields.map (·.placeholder)) (.dummy none readOnly none fields)
      (.dummy none readOnly (some ns) fields) where
  scope := by rw [dummy, name?_bind, if_pos rfl]
  name? name := by
    rw [dummy, name?_foldl_bind fields.sorted, Table.get?_map]
    exact Option.or_none
  plain name v hv := by
    rw [Table.get?_map] at hv
    obtain ⟨r, -, rfl⟩ := Option.map_eq_some_iff.mp hv
    exact r.placeholder_plain
  method? t _ name := by
    rw [dummy, dummy, method?_foldl_bind, method?_bind]

end Environment

theorem dummies_interchangeable (fields : Requirements) (readOnly : Bool) (ns : Ident) {e : Expr}
    (he : ∀ n ∈ e.nodes, n.isCall = false ∧ n.isAssign = false)
    (library : Library) (fuel : Nat) :
    let flat := Environment.dummy none readOnly none fields
    let grouped := Environment.dummy none readOnly (some ns.name) fields
    ∃ result calls, e.eval library fuel flat = ⟨result, flat, calls⟩ ∧
      (e.qualify ns).eval library fuel grouped = ⟨result, grouped, calls⟩ := by
  intro flat grouped
  have hgrouped := Environment.grouped_dummy fields readOnly ns.name
  have hsim : (exact fun e e' => e = flat ∧ e' = grouped).Simulates Eq (e.eval library fuel)
      ((e.qualify ns).eval library fuel) :=
    (hgrouped.evalWith_qualify he).mono fun _ _ => And.left
  exact exists_run_of_simulates hsim

-- A field is named like the namespace, one has a type without a stand-in of its own, and the last
-- name is none of a field.
theorem dummies_interchangeable_missing :
    let fields : Requirements :=
      .ofList [("ns", .scalar "number"), ("odd", .list ["text", "text"])]
    let ns := Ident.synthetic "ns"
    let flat := Environment.dummy none true none fields
    let grouped := Environment.dummy none true (some ns.name) fields
    let sum := Build.binary (Build.name "ns") (.arithmetic .add) (Build.name "odd")
    let formula := Build.binary (Build.binary sum .eq (Build.string "'0a'")) .and (Build.name "x")
    let qualified := Build.binary
      (Build.binary
        (Build.binary (Build.member (Build.name "ns") "ns") (.arithmetic .add)
          (Build.member (Build.name "ns") "odd")) .eq (Build.string "'0a'")) .and
      (Build.member (Build.name "ns") "x")
    (∀ n ∈ formula.nodes, n.isCall = false ∧ n.isAssign = false) ∧
      formula.qualify ns = qualified ∧ ∀ library fuel,
        (formula.eval library fuel flat).result =
          .error (.error (.unresolved (.synthetic "x"))) ∧
        ∃ result calls, formula.eval library fuel flat = ⟨result, flat, calls⟩ ∧
          qualified.eval library fuel grouped = ⟨result, grouped, calls⟩ := by
  intro fields ns flat grouped sum formula qualified
  have hnodes : ∀ n ∈ formula.nodes, n.isCall = false ∧ n.isAssign = false := by decide
  refine ⟨hnodes, rfl, fun library fuel => ⟨rfl, ?_⟩⟩
  exact dummies_interchangeable fields true ns hnodes library fuel

end ScopedFormulas
