import ScopedFormulas.Proofs.Environment.Assignment

/-!
Environments that no operation tells apart. A failed assignment can leave the copy of an inherited
namespace behind, so such environments need not be equal: a scope may bind a name to the namespace
that the name is given by the scopes around it. What counts is, in every scope of the chain, what
each name means and what a qualified write through it goes into.
-/

namespace ScopedFormulas

structure Environment.Agrees (a b : Environment) : Prop where
  methods : a.scope.methods = b.scope.methods
  readOnly : a.scope.readOnly = b.scope.readOnly
  name? : ∀ name, a.name? name = b.name? name
  base : ∀ name, a.base name = b.base name

inductive Scope.Indistinct : List Scope → List Scope → Prop where
  | nil : Indistinct [] []
  | cons {s t : Scope} {outer outer' : List Scope} (agrees : Environment.Agrees ⟨s, outer⟩ ⟨t, outer'⟩)
    (rest : Indistinct outer outer') : Indistinct (s :: outer) (t :: outer')

def Environment.Indistinct (a b : Environment) : Prop := Scope.Indistinct a.scopes b.scopes

namespace Environment.Agrees

variable {a b c : Environment}

theorem refl (a : Environment) : Agrees a a := ⟨rfl, rfl, fun _ => rfl, fun _ => rfl⟩

theorem symm (h : Agrees a b) : Agrees b a :=
  ⟨h.methods.symm, h.readOnly.symm, fun n => (h.name? n).symm, fun n => (h.base n).symm⟩

theorem trans (h : Agrees a b) (h' : Agrees b c) : Agrees a c :=
  ⟨h.methods.trans h'.methods, h.readOnly.trans h'.readOnly,
    fun n => (h.name? n).trans (h'.name? n), fun n => (h.base n).trans (h'.base n)⟩

end Environment.Agrees

namespace Scope.Indistinct

variable {a b c : List Scope}

theorem refl (a : List Scope) : Indistinct a a := by
  induction a with
  | nil => exact .nil
  | cons s outer ih => exact .cons (.refl _) ih

theorem symm (h : Indistinct a b) : Indistinct b a := by
  induction h with
  | nil => exact .nil
  | cons agrees _ ih => exact .cons agrees.symm ih

theorem trans (h : Indistinct a b) (h' : Indistinct b c) : Indistinct a c := by
  induction h generalizing c with
  | nil => exact h'
  | cons agrees _ ih =>
    cases h' with
    | cons agrees' rest' => exact .cons (agrees.trans agrees') (ih rest')

theorem binding? (h : Indistinct a b) (name : String) :
    Scope.binding? name a = Scope.binding? name b := by
  cases h with
  | nil => rfl
  | cons agrees _ => exact agrees.name? name

theorem method? (h : Indistinct a b) (t : ValueType) (name : String) :
    a.findSome? (·.method? t name) = b.findSome? (·.method? t name) := by
  induction h with
  | nil => rfl
  | @cons s s' _ _ agrees _ ih =>
    have hmethods : s.methods = s'.methods := agrees.methods
    have hs : s.method? t name = s'.method? t name := by
      rw [Scope.method?, Scope.method?, hmethods]
    rw [List.findSome?_cons, List.findSome?_cons, hs, ih]

theorem length_eq (h : Indistinct a b) : a.length = b.length := by
  induction h with
  | nil => rfl
  | cons _ _ ih => rw [List.length_cons, List.length_cons, ih]

end Scope.Indistinct

theorem Namespace.insertPath_empty (v : Value) {path : List String} (h : path ≠ []) :
    ∃ written, insertPath v path ∅ = .ok written := by
  induction path with
  | nil => exact absurd rfl h
  | cons name rest ih =>
    cases rest with
    | nil => exact ⟨_, rfl⟩
    | cons next rest =>
      obtain ⟨inner, hinner⟩ := ih (List.cons_ne_nil next rest)
      exact ⟨Table.insert ∅ name (.group inner), by rw [insertPath_group rfl, hinner]; rfl⟩

namespace Environment.Indistinct

variable {a b c : Environment}

theorem refl (a : Environment) : Indistinct a a := Scope.Indistinct.refl _

theorem symm (h : Indistinct a b) : Indistinct b a := Scope.Indistinct.symm h

theorem trans (h : Indistinct a b) (h' : Indistinct b c) : Indistinct a c :=
  Scope.Indistinct.trans h h'

theorem agrees (h : Indistinct a b) : Agrees a b := by
  cases h with
  | cons agrees _ => exact agrees

theorem outer (h : Indistinct a b) : Scope.Indistinct a.outer b.outer := by
  cases h with
  | cons _ rest => exact rest

theorem depth (h : Indistinct a b) : a.depth = b.depth := Scope.Indistinct.length_eq h

theorem method? (h : Indistinct a b) (t : ValueType) (name : String) :
    a.method? t name = b.method? t name := Scope.Indistinct.method? h t name

theorem bind (h : Indistinct a b) (name : String) (v : Value) :
    Indistinct (a.bind name v) (b.bind name v) := by
  refine .cons ⟨h.agrees.methods, h.agrees.readOnly, fun other => ?_, fun other => ?_⟩ h.outer
  · have hname := h.agrees.name? other
    change (a.bind name v).name? other = (b.bind name v).name? other
    rw [name?_bind, name?_bind, hname]
  · have hbase := h.agrees.base other
    change (a.bind name v).base other = (b.bind name v).base other
    rw [base_bind, base_bind, hbase]

theorem defineMethod (h : Indistinct a b) (t : ValueType) (f : Function) :
    Indistinct (a.defineMethod t f) (b.defineMethod t f) := by
  have hmethods : MethodEntry.mk t f :: a.scope.methods = ⟨t, f⟩ :: b.scope.methods := by
    rw [h.agrees.methods]
  exact .cons ⟨hmethods, h.agrees.readOnly, h.agrees.name?, h.agrees.base⟩ h.outer

theorem push (h : Indistinct a b) (readOnly : Bool) :
    Indistinct (a.push readOnly) (b.push readOnly) := by
  refine .cons ⟨rfl, rfl, fun name => h.agrees.name? name, fun name => ?_⟩ h
  have hname := Scope.Indistinct.binding? h name
  change Value.group ((a.push readOnly).inherited name) = .group ((b.push readOnly).inherited name)
  simp only [inherited, Environment.push, ← scopes.eq_1, hname]

theorem pop? (h : Indistinct a b) : Option.Rel Indistinct a.pop? b.pop? := by
  have houter := h.outer
  rw [Environment.pop?, Environment.pop?]
  generalize a.outer = sa at houter ⊢
  generalize b.outer = sb at houter ⊢
  cases houter with
  | nil => exact .none
  | cons agrees rest => exact .some (.cons agrees rest)

/-- A write that fails below a namespace finds something there, so a namespace copied on the way
is one that the outer scopes have, and not an empty one that shadows another value. -/
theorem adopt {name next : String} {rest : List String} {members : Namespace}
    {v : Value} {cause : AssignError} (hbase : a.base name = .group members)
    (hwrite : Namespace.insertPath v (next :: rest) members = .error cause) :
    Indistinct a (a.adopt name) := by
  rw [Environment.adopt]
  split
  next => exact refl a
  next hown =>
    have hmembers : a.inherited name = members := by
      rw [base, hown, Option.getD_none] at hbase
      exact Value.group.inj hbase
    have hne : members ≠ ∅ := by
      rintro rfl
      obtain ⟨written, hw⟩ := Namespace.insertPath_empty v (List.cons_ne_nil next rest)
      cases hwrite.symm.trans hw
    have hname : a.name? name = some (.group members) := by
      rw [name?_eq, hown, Option.none_or, binding?_of_inherited (hmembers ▸ hne), hmembers]
    rw [hmembers]
    refine .cons ⟨rfl, rfl, fun other => ?_, fun other => ?_⟩ (Scope.Indistinct.refl a.outer)
    · change a.name? other = (a.bind name _).name? other
      rw [name?_bind]
      split
      next heq => rw [← heq, hname]
      next => rfl
    · change a.base other = (a.bind name _).base other
      rw [base_bind]
      split
      next heq => rw [← heq, hbase]
      next => rfl

theorem assign (h : Indistinct a b) (path : List String) (v : Value) :
    (a.assign path v).1 = (b.assign path v).1 ∧
      Indistinct (a.assign path v).2 (b.assign path v).2 := by
  have hflag := h.agrees.readOnly
  have hbase := h.agrees.base
  rcases hout : a.assign path v with ⟨result, after⟩
  cases assign_eq_iff.mp hout with
  | readOnly flag =>
    rw [(Assigns.readOnly (hflag ▸ flag)).eq]
    exact ⟨rfl, h⟩
  | emptyTarget flag =>
    rw [(Assigns.emptyTarget (hflag ▸ flag)).eq]
    exact ⟨rfl, h⟩
  | name flag =>
    rw [(Assigns.name (hflag ▸ flag)).eq]
    exact ⟨rfl, h.bind _ v⟩
  | member flag base write =>
    rw [(Assigns.member (hflag ▸ flag) (hbase _ ▸ base) write).eq]
    exact ⟨rfl, h.bind _ _⟩
  | blocked flag base write =>
    rw [(Assigns.blocked (hflag ▸ flag) (hbase _ ▸ base) write).eq]
    exact ⟨rfl, (adopt base write).symm.trans (h.trans (adopt (hbase _ ▸ base) write))⟩
  | notNamespace flag base =>
    rw [(Assigns.notNamespace (hflag ▸ flag) (hbase _ ▸ base)).eq, hbase]
    exact ⟨rfl, h⟩

theorem of_assign_error {path : List String} {v : Value} {cause : AssignError}
    (h : (a.assign path v).1 = .error cause) : Indistinct a (a.assign path v).2 := by
  rcases hout : a.assign path v with ⟨result, after⟩
  rw [hout] at h
  cases assign_eq_iff.mp hout with
  | readOnly | emptyTarget | notNamespace => exact refl a
  | blocked flag base write => exact adopt base write
  | name | member => cases h

end Environment.Indistinct

end ScopedFormulas
