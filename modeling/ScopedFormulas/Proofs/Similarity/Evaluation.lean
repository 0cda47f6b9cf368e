import ScopedFormulas.Proofs.Evaluation.Sequence
import ScopedFormulas.Proofs.Evaluation.Simulation
import ScopedFormulas.Proofs.Operator.Typing
import ScopedFormulas.Proofs.Similarity.Basic

namespace ScopedFormulas

open Comparison

def Expr.callFree : Expr → Bool
  | number .. | string .. | name .. | target .. => true
  | unary _ operand _ => operand.callFree
  | binary _ left right _ => left.callFree && right.callFree
  | member rest _ _ => rest.callFree
  | call .. => false
  | assign _ value _ => value.callFree

theorem Expr.evalWith_of_callFree {e : Expr} (h : e.callFree = true) (call call' : Caller) :
    e.evalWith call = e.evalWith call' := by
  induction e with
  | unary op operand span ih => rw [evalWith, evalWith, ih h]
  | binary op left right span ihl ihr =>
    obtain ⟨hl, hr⟩ := Bool.and_eq_true_iff.mp h
    rw [evalWith, evalWith, ihl hl, ihr hr]
  | member rest ident span ih => rw [evalWith, evalWith, ih h]
  | call callee args span _ _ => cases h
  | assign targets value span ih => rw [evalWith, evalWith, ih h]
  | _ => rfl

def Run.Trapped {α : Type} (r : Run α) : Prop := ∃ cause, r.result = .error (.error (.trap cause))

/-- Runs in similar environments, compared until one of them traps. -/
def shape : Comparison where
  env := Environment.Similar
  stop s t := s = t ∧ s ≠ .outOfFuel
  excused s := ∃ cause, s = .error (.trap cause)

theorem shape_error {α β : Type} {A : α → β → Prop} (cause : EvalError) :
    shape.Simulates A (EvalM.fail cause) (EvalM.fail cause) := .stop ⟨rfl, nofun⟩

theorem shape_trapLeft {α β : Type} {A : α → β → Prop} (cause : Trap) (y : EvalM β) :
    shape.Simulates A (EvalM.fail (.trap cause)) y := fun _ _ _ => .excusedLeft rfl ⟨cause, rfl⟩

theorem shape_trapRight {α β : Type} {A : α → β → Prop} (x : EvalM α) (cause : Trap) :
    shape.Simulates A x (EvalM.fail (.trap cause)) := fun _ _ _ => .excusedRight rfl ⟨cause, rfl⟩

theorem BinaryOp.eval_similar (op : BinaryOp) {l l' r r' : Value} (hl : l.type = l'.type)
    (hr : r.type = r'.type) :
    shape.Simulates Value.Similar (EvalM.ofExcept (op.eval l r))
      (EvalM.ofExcept (op.eval l' r')) := by
  have hleft := op.eval_outcome l r
  have hright := op.eval_outcome l' r'
  generalize op.eval l r = x at hleft ⊢
  generalize op.eval l' r' = y at hright ⊢
  rcases hleft with ⟨accepted, type⟩ | ⟨accepted⟩ | declined
  · rcases hright with ⟨accepted', type'⟩ | ⟨-⟩ | declined'
    · rw [← hl, ← hr, accepted] at accepted'
      cases accepted'
      exact .pure (.plain (type.trans type'.symm) (type ▸ type?_ne_group accepted))
    · exact shape_trapRight _ _
    · rw [← hl, ← hr, accepted] at declined'
      cases declined'
  · exact shape_trapLeft _ _
  · rcases hright with ⟨accepted', -⟩ | ⟨-⟩ | -
    · rw [← hl, ← hr, declined] at accepted'
      cases accepted'
    · exact shape_trapRight _ _
    · rw [hl, hr]
      exact shape_error _

theorem UnaryOp.eval_similar (op : UnaryOp) {v w : Value} (h : v.type = w.type) :
    shape.Simulates Value.Similar (EvalM.ofExcept (op.eval v)) (EvalM.ofExcept (op.eval w)) := by
  have hleft := op.eval_outcome v
  have hright := op.eval_outcome w
  generalize op.eval v = x at hleft ⊢
  generalize op.eval w = y at hright ⊢
  rcases hleft with ⟨accepted, type⟩ | declined
  · rcases hright with ⟨accepted', type'⟩ | declined'
    · rw [← h, accepted] at accepted'
      cases accepted'
      exact .pure (.plain (type.trans type'.symm) (type ▸ type?_ne_group accepted))
    · rw [← h, accepted] at declined'
      cases declined'
  · rcases hright with ⟨accepted', -⟩ | -
    · rw [← h, declined] at accepted'
      cases accepted'
    · rw [h]
      exact shape_error _

theorem Value.Similar.bindMethod {v w a b : Value} (h : a.Similar b) :
    (v.bindMethod a).Similar (w.bindMethod b) := by
  cases h with
  | group names members => exact .group names members
  | plain type plain =>
    have htype : ∀ scope found : Value, (scope.bindMethod found).type = found.type := by
      intro scope found
      cases found <;> rfl
    exact .plain (by rw [htype, htype, type]) (by rwa [htype])

def similarity : Simulation where
  toComparison := shape
  value := Value.Similar
  node _ := True
  number _ := .refl _
  text _ := .refl _
  texts _ := .refl _
  type_eq h := h.type_eq
  bindMethod _ h := h.bindMethod
  error _ := ⟨rfl, nofun⟩
  name? h := Environment.Similar.name? h
  member? h hv := Environment.Similar.member? h hv
  assign _ _ _ _ _ h hv := Environment.Similar.assign h hv
  unary op h := op.eval_similar h.type_eq
  binary op hl hr := op.eval_similar hl.type_eq hr.type_eq

variable {a b : Environment} {formulas : List Expr}

theorem evalAll_similar (library : Library) (fuel : Nat)
    (hcalls : ∀ e ∈ formulas, e.callFree = true) :
    shape.Simulates (Option.Rel Value.Similar) (evalAll library fuel formulas)
      (evalAll library fuel formulas) := by
  apply similarity.evalAll
  intro e he
  -- Without calls any way to call will do, and this one treats all functions alike.
  rw [e.evalWith_of_callFree (hcalls e he) _ fun _ _ => pure (.bool false)]
  exact similarity.evalWith (fun _ _ _ _ _ _ => .pure (.refl _)) fun _ _ => trivial

theorem check_result (library : Library) (fuel : Nat) (expected : ValueType)
    (formulas : List Expr) (env : Environment) :
    (check library fuel expected formulas env).result =
      (CheckOutcome.ofRun expected (evalAll library fuel formulas env)).result := by
  rw [check_eq]

theorem trapped_of_check {library : Library} {fuel : Nat} {expected : ValueType}
    {env : Environment} {cause : Trap}
    (h : (check library fuel expected formulas env).result =
      .ok (.failed (EvalError.trap cause).message)) :
    (evalAll library fuel formulas env).Trapped := by
  rw [check_result, CheckOutcome.ofRun] at h
  split at h
  next last _ =>
    obtain _ | v := last
    · cases h
    · simp only [CheckOutcome.ofLast, Except.ok.injEq] at h
      split at h <;> cases h
  next other hrun =>
    obtain ⟨own, rfl⟩ :=
      EvalError.exists_trap_of_message_eq (CheckOutcome.failed.inj (Except.ok.inj h))
    exact ⟨own, hrun⟩
  next => cases h

theorem CheckOutcome.ofLast_eq_passed_iff {expected : ValueType} {last : Option Value} :
    CheckOutcome.ofLast expected last = .passed ↔ ∃ v, last = some v ∧ v.type = expected := by
  constructor
  · intro h
    cases last with
    | none => cases h
    | some v =>
      simp only [CheckOutcome.ofLast] at h
      split at h
      next htype => exact ⟨v, rfl, htype⟩
      next => cases h
  · rintro ⟨v, rfl, htype⟩
    exact if_pos htype

theorem check_of_passed (h : a.Similar b) (library : Library) (fuel : Nat)
    (hcalls : ∀ e ∈ formulas, e.callFree = true) {expected : ValueType}
    (hpass : (check library fuel expected formulas a).result = .ok .passed) :
    (check library fuel expected formulas b).result = .ok .passed ∨
      ∃ cause : Trap, (check library fuel expected formulas b).result =
        .ok (.failed (EvalError.trap cause).message) := by
  rw [check_result, CheckOutcome.ofRun] at hpass
  rw [check_result, CheckOutcome.ofRun]
  cases evalAll_similar library fuel hcalls a b h with
  | @ok last last' left right value =>
    left
    simp only [left, Except.ok.injEq] at hpass
    obtain ⟨v, rfl, htype⟩ := CheckOutcome.ofLast_eq_passed_iff.mp hpass
    cases value with
    | some hv =>
      simp only [right, Except.ok.injEq]
      exact CheckOutcome.ofLast_eq_passed_iff.mpr ⟨_, rfl, hv.type_eq.symm.trans htype⟩
  | @stop s t left right stop =>
    rw [left] at hpass
    cases s <;> cases hpass
  | excusedLeft left excused =>
    obtain ⟨cause, rfl⟩ := excused
    rw [left] at hpass
    cases hpass
  | excusedRight right excused =>
    obtain ⟨cause, rfl⟩ := excused
    exact .inr ⟨cause, by simp only [right]⟩

theorem similar_runs (h : a.Similar b) (library : Library) (fuel : Nat)
    (hcalls : ∀ e ∈ formulas, e.callFree = true) :
    (¬ (evalAll library fuel formulas a).Trapped → ¬ (evalAll library fuel formulas b).Trapped →
      ((∃ last last', (evalAll library fuel formulas a).result = .ok last ∧
          (evalAll library fuel formulas b).result = .ok last' ∧
          Option.Rel Value.Similar last last') ∨
        ∃ cause, (evalAll library fuel formulas a).result = .error (.error cause) ∧
          (evalAll library fuel formulas b).result = .error (.error cause)) ∧
      (evalAll library fuel formulas a).env.Similar (evalAll library fuel formulas b).env) ∧
    ∀ expected,
      ((check library fuel expected formulas a).result = .ok .passed →
        (check library fuel expected formulas b).result = .ok .passed ∨
          ∃ cause : Trap, (check library fuel expected formulas b).result =
            .ok (.failed (EvalError.trap cause).message)) ∧
      ((check library fuel expected formulas b).result = .ok .passed →
        (check library fuel expected formulas a).result = .ok .passed ∨
          ∃ cause : Trap, (check library fuel expected formulas a).result =
            .ok (.failed (EvalError.trap cause).message)) := by
  refine ⟨fun ha hb => ?_, fun expected => ?_⟩
  · cases evalAll_similar library fuel hcalls a b h with
    | ok left right value env => exact ⟨.inl ⟨_, _, left, right, value⟩, env⟩
    | @stop s t left right stop env =>
      obtain ⟨rfl, hfuel⟩ := stop
      cases s with
      | error cause => exact ⟨.inr ⟨cause, left, right⟩, env⟩
      | outOfFuel => exact absurd rfl hfuel
    | excusedLeft left excused =>
      obtain ⟨cause, rfl⟩ := excused
      exact absurd ⟨cause, left⟩ ha
    | excusedRight right excused =>
      obtain ⟨cause, rfl⟩ := excused
      exact absurd ⟨cause, right⟩ hb
  · exact ⟨check_of_passed h library fuel hcalls, check_of_passed h.symm library fuel hcalls⟩

-- The empty name stands in for a real one.
theorem similar_runs_of_placeholder :
    let standIn := (Environment.root false).bind "name" (.text "")
    let real := (Environment.root false).bind "name" (.text "ann")
    let known := Expr.binary .eq (.name (.synthetic "name") .synthetic)
      (.string "'ann'" .synthetic) .synthetic
    let formulas :=
      [.assign [.member (.root (.synthetic "flags")) (.synthetic "known")] known .synthetic,
        .member (.name (.synthetic "flags") .synthetic) (.synthetic "known") .synthetic]
    standIn.Similar real ∧ (∀ e ∈ formulas, e.callFree = true) ∧
      ∀ library fuel,
        (check library fuel .bool formulas standIn).result = .ok .passed ∧
          ((check library fuel .bool formulas real).result = .ok .passed ∨
            ∃ cause : Trap, (check library fuel .bool formulas real).result =
              .ok (.failed (EvalError.trap cause).message)) := by
  intro standIn real known formulas
  have htext : (Value.text "").Similar (.text "ann") := .plain rfl (by simp [Value.type])
  have hsimilar : standIn.Similar real := (Environment.Similar.refl (.root false)).bind htext "name"
  have hcalls : ∀ e ∈ formulas, e.callFree = true := by decide
  refine ⟨hsimilar, hcalls, fun library fuel => ?_⟩
  have hpass : (check library fuel .bool formulas standIn).result = .ok .passed := rfl
  obtain ⟨-, hcheck⟩ := similar_runs hsimilar library fuel hcalls
  exact ⟨hpass, (hcheck .bool).1 hpass⟩

end ScopedFormulas
