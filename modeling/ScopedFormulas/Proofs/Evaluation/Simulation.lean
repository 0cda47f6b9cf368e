import ScopedFormulas.Proofs.Evaluation.Comparison
import ScopedFormulas.Proofs.Expr.Nodes

/-!
Evaluation in two environments. A simulation relates environments and values so that reads give
related values, writes keep environments related, and operators treat related operands alike. Then
a formula evaluates alike in both, if each of its nodes is one that the simulation takes in.
-/

namespace ScopedFormulas

open Comparison

structure Simulation extends Comparison where
  value : Value → Value → Prop
  node : Expr → Prop
  number : ∀ {x span}, node (.number x span) → value (.number x) (.number x)
  text : ∀ s, value (.text s) (.text s)
  texts : ∀ segments : List String,
    value (.array .text (segments.map .text)) (.array .text (segments.map .text))
  type_eq : ∀ {v w}, value v w → v.type = w.type
  bindMethod : ∀ {v w a b}, value v w → value a b → value (v.bindMethod a) (w.bindMethod b)
  error : ∀ cause, stop (.error cause) (.error cause)
  name? : ∀ {e e'}, env e e' → ∀ name, Option.Rel value (e.name? name) (e'.name? name)
  member? : ∀ {e e' v w}, env e e' → value v w →
    ∀ name, Option.Rel value (e.member? v name) (e'.member? w name)
  assign : ∀ {targets part span}, node (.assign targets part span) →
    ∀ {e e' v w}, env e e' → value v w → ∀ path,
      (e.assign path v).1 = (e'.assign path w).1 ∧ env (e.assign path v).2 (e'.assign path w).2
  unary : ∀ {v w} (op : UnaryOp), value v w →
    toComparison.Simulates value (EvalM.ofExcept (op.eval v)) (EvalM.ofExcept (op.eval w))
  binary : ∀ {l l' r r'} (op : BinaryOp), value l l' → value r r' →
    toComparison.Simulates value (EvalM.ofExcept (op.eval l r)) (EvalM.ofExcept (op.eval l' r'))

namespace Simulation

variable {S : Simulation} {call call' : Caller}

def Callers (S : Simulation) (call call' : Caller) : Prop :=
  ∀ f g args args', S.value (.function f) (.function g) → List.Forall₂ S.value args args' →
    S.Simulates S.value (call f args) (call' g args')

theorem fail (S : Simulation) {α β : Type} {A : α → β → Prop} (cause : EvalError) :
    S.Simulates A (EvalM.fail cause) (EvalM.fail cause) := .stop (S.error cause)

theorem assignAll {whole : List QualifiedName} {part : Expr} {span : Span}
    (hnode : S.node (.assign whole part span)) {v w : Value} (h : S.value v w)
    (targets : List QualifiedName) :
    S.Simulates (fun _ _ => True) (assignAll v targets) (ScopedFormulas.assignAll w targets) := by
  induction targets with
  | nil => exact .pure trivial
  | cons target targets ih =>
    apply Simulates.bind (A := Eq) (.modify fun e e' he => S.assign hnode he h target.segments)
    rintro answer _ rfl
    cases answer with
    | ok => exact ih
    | error cause => exact S.fail _

theorem callValue (hcall : S.Callers call call') (callee : Expr) {t u : Value}
    {args args' : List Value} (h : S.value t u) (hargs : List.Forall₂ S.value args args') :
    S.Simulates S.value (callValue call callee t args)
      (ScopedFormulas.callValue call' callee u args') := by
  have htype := S.type_eq h
  by_cases hfun : t.type = .function
  · cases t with
    | function f =>
      cases u with
      | function g => exact hcall f g args args' h hargs
      | _ => cases htype
    | _ => cases hfun
  · have ht : ∀ (call : Caller) (v : Value), v.type ≠ .function → ∀ args,
        ScopedFormulas.callValue call callee v args = EvalM.fail (.notCallable callee v.type) := by
      intro call v hv args
      cases v with
      | function f => exact absurd rfl hv
      | _ => rfl
    rw [ht call t hfun, ht call' u (htype ▸ hfun), htype]
    exact S.fail _

theorem evalArgs {args : List Expr}
    (h : ∀ arg ∈ args, S.Simulates S.value (arg.evalWith call) (arg.evalWith call')) :
    S.Simulates (List.Forall₂ S.value) (Expr.evalArgs call args) (Expr.evalArgs call' args) := by
  induction args with
  | nil => exact .pure .nil
  | cons arg args ih =>
    apply Simulates.bind (h arg List.mem_cons_self)
    intro v w hv
    apply Simulates.bind (ih fun a ha => h a (List.mem_cons_of_mem _ ha))
    intro vs ws hvs
    exact .pure (.cons hv hvs)

theorem evalWith (hcall : S.Callers call call') {e : Expr} (he : ∀ n ∈ e.nodes, S.node n) :
    S.Simulates S.value (e.evalWith call) (e.evalWith call') := by
  have hself := he e e.self_mem_nodes
  induction e with
  | number value span => exact .pure (S.number hself)
  | string raw span => exact .pure (S.text _)
  | target path span => exact .pure (S.texts _)
  | unary op operand span ih =>
    rw [Expr.nodes, List.forall_mem_append] at he
    exact .bind (ih he.1 (he.1 _ operand.self_mem_nodes)) fun v w hv => S.unary op hv
  | binary op left right span ihl ihr =>
    rw [Expr.nodes, List.forall_mem_append, List.forall_mem_append] at he
    obtain ⟨⟨hl, hr⟩, -⟩ := he
    apply Simulates.bind (ihl hl (hl _ left.self_mem_nodes))
    intro l l' hleft
    apply Simulates.bind (ihr hr (hr _ right.self_mem_nodes))
    intro r r' hright
    exact S.binary op hleft hright
  | name ident span =>
    apply Simulates.bind (.read fun e e' he => S.name? he ident.name)
    intro found found' h
    cases h with
    | some hv => exact .pure hv
    | none => exact S.fail _
  | member rest ident span ih =>
    rw [Expr.nodes, List.forall_mem_append] at he
    apply Simulates.bind (ih he.1 (he.1 _ rest.self_mem_nodes))
    intro scope scope' hscope
    apply Simulates.bind (.read fun e e' he => S.member? he hscope ident.name)
    intro found found' h
    cases h with
    | some hv => exact .pure (S.bindMethod hscope hv)
    | none => exact S.fail _
  | call callee args span ihc iha =>
    rw [Expr.nodes, List.forall_mem_append, List.forall_mem_append] at he
    obtain ⟨⟨hcallee, hargs⟩, -⟩ := he
    apply Simulates.bind (ihc hcallee (hcallee _ callee.self_mem_nodes))
    intro f g hf
    have heach : ∀ arg ∈ args, ∀ n ∈ arg.nodes, S.node n :=
      fun arg harg n hn => hargs n (Expr.mem_argNodes harg hn)
    apply Simulates.bind (evalArgs fun arg harg =>
      iha arg harg (heach arg harg) (heach arg harg _ arg.self_mem_nodes))
    intro vs ws hvs
    exact callValue hcall callee hf hvs
  | assign targets value span ih =>
    rw [Expr.nodes, List.forall_mem_append] at he
    apply Simulates.bind (ih he.1 (he.1 _ value.self_mem_nodes))
    intro v w hv
    apply Simulates.bind (assignAll hself hv targets)
    intro _ _ _
    exact .pure hv

theorem evalAll {formulas : List Expr}
    (h : ∀ e ∈ formulas, S.Simulates S.value (e.evalWith call) (e.evalWith call')) :
    S.Simulates (Option.Rel S.value) (evalAllWith call formulas) (evalAllWith call' formulas) := by
  suffices ∀ last last', Option.Rel S.value last last' →
      S.Simulates (Option.Rel S.value) (evalAllWith.go call last formulas)
        (evalAllWith.go call' last' formulas) from this none none .none
  induction formulas with
  | nil => exact fun last last' hlast => .pure hlast
  | cons e rest ih =>
    intro last last' _
    apply Simulates.bind (h e List.mem_cons_self)
    intro v w hv
    exact ih (fun a ha => h a (List.mem_cons_of_mem _ ha)) _ _ (.some hv)

end Simulation

end ScopedFormulas
