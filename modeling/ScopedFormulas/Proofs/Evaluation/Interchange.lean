import ScopedFormulas.Proofs.Environment.Indistinct
import ScopedFormulas.Proofs.Evaluation.Lockstep

/-!
Environments between which evaluation makes no difference. Native bodies are included: whatever
they do, they see the environment through the same reads and change it through the same writes. An
invariant of single writes is the special case of one environment on both sides, so it holds after
every run, however the run ends.
-/

namespace ScopedFormulas

open Comparison

structure Interchange (E : Environment → Environment → Prop) : Prop where
  name? : ∀ {e e'}, E e e' → ∀ name, e.name? name = e'.name? name
  method? : ∀ {e e'}, E e e' → ∀ t name, e.method? t name = e'.method? t name
  assign : ∀ {e e'}, E e e' → ∀ path v,
    (e.assign path v).1 = (e'.assign path v).1 ∧ E (e.assign path v).2 (e'.assign path v).2
  bind : ∀ {e e'}, E e e' → ∀ name v, E (e.bind name v) (e'.bind name v)

namespace Interchange

variable {E : Environment → Environment → Prop}

theorem lockstep (h : Interchange E) : Conduct.free.Lockstep E where
  toLawful := Conduct.free_lawful
  name? he name := ⟨h.name? he name, fun _ _ => trivial⟩
  method? he _ _ name := ⟨h.method? he _ name, fun _ _ => trivial⟩
  assign he path _ _ := h.assign he path _
  bind he name _ _ := h.bind he name _

theorem keeps_free (library : Library) : library.Keeps .free :=
  fun f args _ _ => (library f.body (f.arguments args)).keeps_free

theorem lookup? (h : Interchange E) {e e' : Environment} (he : E e e') (name : String)
    (scope : Option Value) : e.lookup? name scope = e'.lookup? name scope :=
  (h.lockstep.lookup? he name scope).1

theorem eval (h : Interchange E) (library : Library) (fuel : Nat) (e : Expr) :
    (exact E).Simulates Eq (e.eval library fuel) (e.eval library fuel) :=
  h.lockstep.eval (keeps_free library) fuel fun _ _ => trivial

theorem evalAll (h : Interchange E) (library : Library) (fuel : Nat) (formulas : List Expr) :
    (exact E).Simulates Eq (evalAll library fuel formulas) (evalAll library fuel formulas) :=
  h.lockstep.evalAll (keeps_free library) fuel fun _ _ _ _ => trivial

theorem ofInvariant {I : Environment → Prop}
    (hassign : ∀ env path v, I env → I (env.assign path v).2)
    (hbind : ∀ env name v, I env → I (env.bind name v)) :
    Interchange fun e e' => e = e' ∧ I e where
  name? := by rintro e _ ⟨rfl, -⟩ name; rfl
  method? := by rintro e _ ⟨rfl, -⟩ t name; rfl
  assign := by
    rintro e _ ⟨rfl, he⟩ path v
    exact ⟨rfl, rfl, hassign e path v he⟩
  bind := by
    rintro e _ ⟨rfl, he⟩ name v
    exact ⟨rfl, hbind e name v he⟩

end Interchange

theorem Environment.Indistinct.interchange : Interchange Indistinct where
  name? h := h.agrees.name?
  method? h := h.method?
  assign h := h.assign
  bind h := h.bind

end ScopedFormulas
