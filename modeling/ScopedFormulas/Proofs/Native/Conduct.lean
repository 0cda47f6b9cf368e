import ScopedFormulas.Evaluation.Basic
import ScopedFormulas.Proofs.Environment.Assignment
import ScopedFormulas.Proofs.Expr.Nodes
import ScopedFormulas.Proofs.Operator.Typing

/-!
What native functions are held to. Rules say which nodes the formulas may have that a native body
evaluates, which values it may assign, and which it may seed; a conduct says besides which values it
may hand on, given such values. An environment is confined to rules when every native function that
can be reached from it keeps to them.
-/

namespace ScopedFormulas

structure Rules where
  node : Expr → Prop
  assigned : Value → Prop
  seeded : Value → Prop

structure Conduct extends Rules where
  value : Value → Prop

def Conduct.Finds (c : Conduct) (name : String) : Option Value → Option Value → Prop
  | some (.group members), found => found = members.get? name
  | _, found => ∀ v, found = some v → c.value v

inductive Action.Keeps (c : Conduct) : Action → Prop where
  | done {result : Except EvalError Value} (value : ∀ v, result = .ok v → c.value v) :
    Keeps c (.done result)
  | assign {path : List String} {v : Value} {next : Except AssignError Unit → Action}
    (assigned : c.assigned v) (rest : ∀ answer, Keeps c (next answer)) :
    Keeps c (.assign path v next)
  | seed {name : String} {v : Value} {next : Action} (seeded : c.seeded v) (rest : Keeps c next) :
    Keeps c (.seed name v next)
  | lookup {name : String} {scope : Option Value} {next : Option Value → Action}
    (rest : ∀ found, c.Finds name scope found → Keeps c (next found)) :
    Keeps c (.lookup name scope next)
  | evaluate {formula : Expr} {next : Except EvalError Value → Action}
    (nodes : ∀ n ∈ formula.nodes, c.node n)
    (rest : ∀ answer, (∀ v, answer = .ok v → c.value v) → Keeps c (next answer)) :
    Keeps c (.evaluate formula next)
  | call {f : Function} {args : List Value} {next : Except EvalError Value → Action}
    (function : c.value (.function f)) (values : ∀ v ∈ args, c.value v)
    (rest : ∀ answer, (∀ v, answer = .ok v → c.value v) → Keeps c (next answer)) :
    Keeps c (.call f args next)

def Library.Keeps (library : Library) (c : Conduct) : Prop :=
  ∀ f args, c.value (.function f) → (∀ v ∈ args, c.value v) →
    (library f.body (f.arguments args)).Keeps c

inductive Value.Within (bodies : NativeId → Prop) : Value → Prop where
  | number (x : Float) : Within bodies (.number x)
  | text (s : String) : Within bodies (.text s)
  | bool (b : Bool) : Within bodies (.bool b)
  | array {elem : ValueType} {items : List Value} (each : ∀ v ∈ items, Within bodies v) :
    Within bodies (.array elem items)
  | function {f : Function} (body : bodies f.body) (receiver : ∀ v ∈ f.receiver, Within bodies v) :
    Within bodies (.function f)
  | latitude (x : Float) : Within bodies (.latitude x)
  | longitude (x : Float) : Within bodies (.longitude x)
  | timestamp (seconds : Int) : Within bodies (.timestamp seconds)
  | group {members : Namespace}
    (each : ∀ name v, Table.get? members name = some v → Within bodies v) :
    Within bodies (.group members)

def Rules.among (rules : Rules) (bodies : NativeId → Prop) : Conduct :=
  ⟨rules, Value.Within bodies⟩

/-- Some set of native functions contains those that lookups find and is closed: given values with
functions of the set only, each of them keeps to the rules and hands on such values only. The
functions that can be reached from the environment are the least set that contains the former and
is closed in the latter. -/
def Environment.Confined (env : Environment) (library : Library) (rules : Rules) : Prop :=
  ∃ bodies : NativeId → Prop,
    (∀ name v, env.name? name = some v → v.Within bodies) ∧
    (∀ t, t ≠ .group → ∀ name f, env.method? t name = some f → (Value.function f).Within bodies) ∧
    ∀ id args, bodies id → (∀ v ∈ args, v.Within bodies) →
      (library id args).Keeps (rules.among bodies)

namespace Conduct

structure Lawful (c : Conduct) : Prop where
  number : ∀ {x span}, c.node (.number x span) → c.value (.number x)
  text : ∀ s, c.value (.text s)
  texts : ∀ segments : List String, c.value (.array .text (segments.map .text))
  unary : ∀ {op : UnaryOp} {v w}, c.value v → op.eval v = .ok w → c.value w
  binary : ∀ {op : BinaryOp} {l r w}, c.value l → c.value r → op.eval l r = .ok w → c.value w
  bindMethod : ∀ {v w}, c.value v → c.value w → c.value (v.bindMethod w)
  member : ∀ {members : Namespace} {name v}, c.value (.group members) →
    members.get? name = some v → c.value v
  assigned : ∀ {targets part span v}, c.node (.assign targets part span) → c.value v → c.assigned v

def free : Conduct := ⟨⟨fun _ => True, fun _ => True, fun _ => True⟩, fun _ => True⟩

theorem free_lawful : free.Lawful := by
  constructor <;> intros <;> trivial

end Conduct

theorem Action.keeps_free (a : Action) : a.Keeps .free := by
  induction a with
  | done result => exact .done fun _ _ => trivial
  | assign path v next ih => exact .assign trivial ih
  | seed name v next ih => exact .seed trivial ih
  | lookup name scope next ih => exact .lookup fun found _ => ih found
  | evaluate formula next ih => exact .evaluate (fun _ _ => trivial) fun answer _ => ih answer
  | call f args next ih => exact .call trivial (fun _ _ => trivial) fun answer _ => ih answer

namespace Value.Within

variable {bodies : NativeId → Prop} {v w : Value}

theorem texts (segments : List String) : Within bodies (.array .text (segments.map .text)) := by
  refine .array fun v hv => ?_
  obtain ⟨s, -, rfl⟩ := List.mem_map.mp hv
  exact .text s

theorem bindMethod (hv : v.Within bodies) (hw : w.Within bodies) :
    (v.bindMethod w).Within bodies := by
  refine Value.bindMethod_preserves (fun f hf => ?_) hw
  cases hf with
  | function body => exact .function body fun u hu => Option.some.inj hu ▸ hv

theorem arguments {f : Function} {args : List Value} (hf : (Value.function f).Within bodies)
    (hargs : ∀ v ∈ args, v.Within bodies) : ∀ v ∈ f.arguments args, v.Within bodies := by
  cases hf with
  | function body receiver => exact Callable.forall_mem_arguments receiver hargs

theorem of_type {t : ValueType} (ht : v.type = t) (h : t = .number ∨ t = .text ∨ t = .bool) :
    v.Within bodies := by
  cases v with
  | number x => exact .number x
  | text s => exact .text s
  | bool b => exact .bool b
  | _ =>
    subst ht
    simp [Value.type] at h

end Value.Within

theorem BinaryOp.type?_cases {op : BinaryOp} {l r t : ValueType} (h : op.type? l r = some t) :
    t = .number ∨ t = .text ∨ t = .bool := by
  cases op with
  | arithmetic op =>
    simp only [type?, ArithmeticOp.type?] at h
    split at h <;> cases h <;> simp
  | _ =>
    simp only [type?] at h
    split at h <;> cases h
    simp

theorem UnaryOp.type?_cases {op : UnaryOp} {v t : ValueType} (h : op.type? v = some t) :
    t = .number ∨ t = .text ∨ t = .bool := by
  simp only [type?] at h
  split at h <;> cases h
  simp

theorem Rules.among_lawful {rules : Rules} (bodies : NativeId → Prop)
    (h : ∀ {targets part span v}, rules.node (.assign targets part span) → rules.assigned v) :
    (rules.among bodies).Lawful where
  number _ := .number _
  text := .text
  texts := .texts
  unary {op v w} _ hw := by
    have hout := op.eval_outcome v
    rw [hw] at hout
    cases hout with
    | value accepted type => exact .of_type type (UnaryOp.type?_cases accepted)
  binary {op l r w} _ _ hw := by
    have hout := op.eval_outcome l r
    rw [hw] at hout
    cases hout with
    | value accepted type => exact .of_type type (BinaryOp.type?_cases accepted)
  bindMethod := .bindMethod
  member hv hget := by
    cases hv with
    | group each => exact each _ _ hget
  assigned hnode _ := h hnode

end ScopedFormulas
