import ScopedFormulas.Proofs.Environment.Assignment

namespace ScopedFormulas

namespace Table

variable {α : Type}

/-- The entries of both tables; those of the first win. -/
def overlay (t u : Table α) : Table α := t.entries.foldr (fun e rest => rest.insert e.1 e.2) u

theorem get?_overlay (t u : Table α) (name : String) :
    (t.overlay u).get? name = (t.get? name).or (u.get? name) := by
  obtain ⟨entries⟩ := t
  induction entries with
  | nil => rfl
  | cons e entries ih =>
    obtain ⟨k, a⟩ := e
    change (Table.insert (overlay ⟨entries⟩ u) k a).get? name =
      (findEntry name ((k, a) :: entries)).or _
    rw [get?_insert, findEntry, ih]
    split
    · rfl
    · rfl

end Table

namespace Environment

variable (env : Environment) (readOnly : Bool) (name : String)

@[simp] theorem name?_root : (root readOnly).name? name = none := rfl

@[simp] theorem name?_push : (env.push readOnly).name? name = env.name? name := rfl

@[simp] theorem name?_defineMethod (t : ValueType) (f : Function) :
    (env.defineMethod t f).name? name = env.name? name := rfl

@[simp] theorem method?_root (t : ValueType) : (root readOnly).method? t name = none := rfl

@[simp] theorem method?_push (t : ValueType) :
    (env.push readOnly).method? t name = env.method? t name := rfl

@[simp] theorem method?_bind (t : ValueType) (bound : String) (v : Value) :
    (env.bind bound v).method? t name = env.method? t name := rfl

theorem method?_defineMethod (t u : ValueType) (f : Function) :
    (env.defineMethod t f).method? u name =
      if t = u ∧ f.name = name then some f else env.method? u name := by
  by_cases h : t = u ∧ f.name = name
  · simp [method?, scopes, defineMethod, Scope.method?, h]
  · have hentry : decide (t = u ∧ f.name = name) = false := decide_eq_false h
    rw [if_neg h]
    simp only [method?, scopes, defineMethod, List.findSome?_cons, Scope.method?, List.find?_cons,
      hentry]

structure SameLookups (a b : Environment) : Prop where
  name? : ∀ name, a.name? name = b.name? name
  method? : ∀ t, t ≠ .group → ∀ name, a.method? t name = b.method? t name

def flatten : Environment where
  scope :=
    { bindings := env.scopes.foldr (fun s rest => s.bindings.overlay rest) ∅
      methods := env.scopes.flatMap (·.methods)
      readOnly }
  outer := []

theorem get?_foldr_overlay (scopes : List Scope) :
    (scopes.foldr (fun (s : Scope) rest => s.bindings.overlay rest) ∅).get? name =
      Scope.binding? name scopes := by
  induction scopes with
  | nil => rfl
  | cons s scopes ih => rw [List.foldr_cons, Table.get?_overlay, ih, Scope.binding?_cons]

theorem find?_flatMap_methods (scopes : List Scope) (p : MethodEntry → Bool) :
    ((scopes.flatMap (·.methods)).find? p).map (·.function) =
      scopes.findSome? fun s => (s.methods.find? p).map (·.function) := by
  induction scopes with
  | nil => rfl
  | cons s scopes ih =>
    rw [List.flatMap_cons, List.find?_append, Option.map_or, ih, List.findSome?_cons]
    cases (s.methods.find? p).map (·.function) <;> rfl

namespace SameLookups

theorem refl : SameLookups env env := ⟨fun _ => rfl, fun _ _ _ => rfl⟩

theorem push : SameLookups env (env.push readOnly) :=
  ⟨fun _ => rfl, fun _ _ _ => rfl⟩

theorem flatten : SameLookups env (env.flatten readOnly) where
  name? name := by
    rw [name?_eq (env.flatten readOnly), Environment.name?, ← get?_foldr_overlay]
    exact (Option.or_none).symm
  method? t _ name := by
    have hflat := find?_flatMap_methods env.scopes fun m => m.type = t ∧ m.function.name = name
    change _ = [(env.flatten readOnly).scope].findSome? fun s => s.method? t name
    rw [List.findSome?_singleton]
    exact hflat.symm

end SameLookups

end Environment

end ScopedFormulas
