import ScopedFormulas.Evaluation.Operation

namespace ScopedFormulas

def UnaryOp.type? : UnaryOp → ValueType → Option ValueType
  | not, .bool => some .bool
  | not, _ => none

def ArithmeticOp.type? : ArithmeticOp → ValueType → ValueType → Option ValueType
  | add, .text, _ | add, _, .text => some .text
  | mul, .text, .number | mul, .number, .text => some .text
  | _, .number, .number => some .number
  | _, _, _ => none

def BinaryOp.type? (op : BinaryOp) (l r : ValueType) : Option ValueType :=
  match op with
  | arithmetic op => op.type? l r
  | and | or => if l = .bool ∧ r = .bool then some .bool else none
  | eq | ne => if l = r ∧ l.supportsEq = true then some .bool else none
  | order _ => if l = r ∧ l.supportsOrd = true then some .bool else none

def Typed (t : ValueType) (outcome : Except Trap Value) : Prop := ∀ v, outcome = .ok v → v.type = t

theorem typed_ok {v : Value} : Typed v.type (.ok v) := fun _ h => by cases h; rfl

theorem typed_map {α : Type} {t : ValueType} (outcome : Except Trap α) {f : α → Value}
    (hf : ∀ a, (f a).type = t) : Typed t (outcome.map f) := by
  intro v hv
  cases outcome with
  | ok a =>
    cases hv
    exact hf a
  | error cause => cases hv

namespace BinaryOp

theorem arithmetic?_type (op : ArithmeticOp) (l r : Value) :
    Option.Rel Typed (op.type? l.type r.type) (arithmetic? op l r) := by
  cases l with
  | number a =>
    cases r with
    | number b => cases op <;> exact .some (typed_map _ fun _ => rfl)
    | text s =>
      cases op with
      | add => exact .some typed_ok
      | mul => exact .some (typed_map _ fun _ => rfl)
      | _ => exact .none
    | _ => cases op <;> exact .none
  | text s =>
    cases op with
    | add => exact .some typed_ok
    | mul =>
      cases r with
      | number b => exact .some (typed_map _ fun _ => rfl)
      | _ => exact .none
    | _ => cases r <;> exact .none
  | _ =>
    cases r with
    | text s =>
      cases op with
      | add => exact .some typed_ok
      | _ => exact .none
    | _ => cases op <;> exact .none

theorem equals_type (l r : Value) (f : Bool → Bool) :
    Option.Rel Typed (if l.type = r.type ∧ l.type.supportsEq = true then some .bool else none)
      ((l.equals r).map fun b => .ok (.bool (f b))) := by
  rw [Value.equals.eq_def]
  split
  · exact .some typed_ok
  · exact .none

theorem type?_ne_group {op : BinaryOp} {l r t : ValueType} (h : op.type? l r = some t) :
    t ≠ .group := by
  rintro rfl
  cases op with
  | arithmetic op =>
    simp only [type?, ArithmeticOp.type?] at h
    split at h <;> cases h
  | _ =>
    simp only [type?] at h
    split at h <;> cases h

theorem result?_type (op : BinaryOp) (l r : Value) :
    Option.Rel Typed (op.type? l.type r.type) (op.result? l r) := by
  cases op with
  | arithmetic op => exact arithmetic?_type op l r
  | and | or =>
    cases l with
    | bool a =>
      cases r with
      | bool b => exact .some typed_ok
      | _ => exact .none
    | _ => exact .none
  | eq => exact equals_type l r id
  | ne => exact equals_type l r Bool.not
  | order op =>
    simp only [type?, result?]
    split
    · exact .some typed_ok
    · exact .none

inductive Outcome (op : BinaryOp) (l r : Value) : Except EvalError Value → Prop where
  | value {t : ValueType} {v : Value} (accepted : op.type? l.type r.type = some t)
    (type : v.type = t) : Outcome op l r (.ok v)
  | trap {t : ValueType} {cause : Trap} (accepted : op.type? l.type r.type = some t) :
    Outcome op l r (.error (.trap cause))
  | declined (declined : op.type? l.type r.type = none) :
    Outcome op l r (.error (.argumentType op.symbol [op.expected, op.expected] [l.type, r.type]))

theorem eval_outcome (op : BinaryOp) (l r : Value) : op.Outcome l r (op.eval l r) := by
  have h := op.result?_type l r
  rw [eval]
  generalize op.result? l r = result at h ⊢
  generalize htype : op.type? l.type r.type = o at h
  cases h with
  | none => exact .declined htype
  | @some t outcome typed =>
    cases outcome with
    | ok v => exact .value htype (typed v rfl)
    | error cause => exact .trap htype

theorem eval_ne_group {op : BinaryOp} {l r v : Value} (h : op.eval l r = .ok v) :
    v.type ≠ .group := by
  have houtcome := op.eval_outcome l r
  rw [h] at houtcome
  cases houtcome with
  | value accepted type => exact type ▸ type?_ne_group accepted

end BinaryOp

inductive UnaryOp.Outcome (op : UnaryOp) (v : Value) : Except EvalError Value → Prop where
  | value {t : ValueType} {w : Value} (accepted : op.type? v.type = some t) (type : w.type = t) :
    Outcome op v (.ok w)
  | declined (declined : op.type? v.type = none) :
    Outcome op v (.error (.argumentType op.symbol [.type .bool] [v.type]))

theorem UnaryOp.eval_outcome (op : UnaryOp) (v : Value) : op.Outcome v (op.eval v) := by
  cases op with
  | not =>
    cases v with
    | bool b => exact .value (t := .bool) rfl rfl
    | _ => exact .declined rfl

theorem UnaryOp.type?_ne_group {op : UnaryOp} {v t : ValueType} (h : op.type? v = some t) :
    t ≠ .group := by
  rintro rfl
  simp only [type?] at h
  split at h <;> cases h

theorem UnaryOp.eval_ne_group {op : UnaryOp} {v w : Value} (h : op.eval v = .ok w) :
    w.type ≠ .group := by
  have houtcome := op.eval_outcome v
  rw [h] at houtcome
  cases houtcome with
  | value accepted type => exact type ▸ type?_ne_group accepted

end ScopedFormulas
