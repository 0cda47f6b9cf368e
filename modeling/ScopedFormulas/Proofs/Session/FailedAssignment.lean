import ScopedFormulas.Proofs.Evaluation.Interchange
import ScopedFormulas.Proofs.Evaluation.Sequence
import ScopedFormulas.Proofs.Session.Basic

namespace ScopedFormulas

namespace Environment.Indistinct

variable {a b : Environment}

theorem ofScope (h : Indistinct a b) : Answer.ofScope a = .ofScope b := by
  rw [Answer.ofScope, Answer.ofScope, h.depth, h.agrees.readOnly]

theorem answer (h : Indistinct a b) (library : Library) (fuel : Nat) (op : Operation) :
    (op.perform library fuel a).1 = (op.perform library fuel b).1 ∧
      Indistinct (op.perform library fuel a).2 (op.perform library fuel b).2 := by
  cases op with
  | lookup name scope =>
    exact ⟨congrArg Answer.found (interchange.lookup? h name scope), h⟩
  | assign path v => exact ⟨congrArg Answer.assigned (h.assign path v).1, (h.assign path v).2⟩
  | seed name v => exact ⟨rfl, h.bind name v⟩
  | defineMethod t f => exact ⟨rfl, h.defineMethod t f⟩
  | push readOnly => exact ⟨(h.push readOnly).ofScope, h.push readOnly⟩
  | pop =>
    have hpop := h.pop?
    simp only [Operation.perform]
    generalize a.pop? = pa at hpop ⊢
    generalize b.pop? = pb at hpop ⊢
    cases hpop with
    | some hparent => exact ⟨hparent.ofScope, hparent⟩
    | none => exact ⟨rfl, h⟩
  | evaluate formula =>
    obtain ⟨hresult, hcalls, henv⟩ := (interchange.eval library fuel formula).exact h
    exact ⟨congrArg₂ Answer.value hresult hcalls, henv⟩
  | evaluateAll formulas =>
    obtain ⟨hresult, hcalls, henv⟩ := (interchange.evalAll library fuel formulas).exact h
    exact ⟨congrArg₂ Answer.last hresult hcalls, henv⟩
  | check expected formulas =>
    obtain ⟨hresult, hcalls, henv⟩ := (interchange.evalAll library fuel formulas).exact h
    simp only [Operation.perform, check_eq, CheckOutcome.ofRun, hresult, hcalls]
    exact ⟨trivial, henv⟩

theorem answers (h : Indistinct a b) (library : Library) (fuel : Nat) (ops : List Operation) :
    (perform library fuel ops a).1 = (perform library fuel ops b).1 := by
  induction ops generalizing a b with
  | nil => rfl
  | cons op ops ih =>
    obtain ⟨hanswer, hafter⟩ := h.answer library fuel op
    exact congrArg₂ List.cons hanswer (ih hafter)

end Environment.Indistinct

theorem perform_after_failed_assign {env : Environment} {path : List String} {v : Value}
    {cause : AssignError} (h : (env.assign path v).1 = .error cause) (library : Library) (fuel : Nat)
    (ops : List Operation) :
    (perform library fuel ops (env.assign path v).2).1 = (perform library fuel ops env).1 :=
  ((Environment.Indistinct.of_assign_error h).answers library fuel ops).symm

-- The failed write copies the inherited namespace, so the two environments differ.
theorem perform_after_copy :
    let outer := (Environment.root false).bind "ns" (.group (.ofList [("x", .text "1")]))
    let env := outer.push false
    let after := (env.assign ["ns", "x", "y"] (.text "2")).2
    (env.assign ["ns", "x", "y"] (.text "2")).1 = .error (.notNamespace "x" .text) ∧
      env.scope.bindings.size = 0 ∧ after.scope.bindings.size = 1 ∧
      ∀ library fuel ops, (perform library fuel ops after).1 = (perform library fuel ops env).1 := by
  intro outer env after
  have herror : (env.assign ["ns", "x", "y"] (.text "2")).1 = .error (.notNamespace "x" .text) := rfl
  exact ⟨herror, rfl, rfl, perform_after_failed_assign herror⟩

end ScopedFormulas
