import ScopedFormulas.Evaluation.Basic
import ScopedFormulas.Proofs.Environment.Resolution

namespace ScopedFormulas

inductive Value.Clean : Value → Prop where
  | number {x : Float} (finite : Number.isFinite x = true) : Clean (.number x)
  | text (s : String) : Clean (.text s)
  | bool (b : Bool) : Clean (.bool b)
  | array {elem : ValueType} {items : List Value} (type : ∀ v ∈ items, v.type = elem)
    (each : ∀ v ∈ items, Clean v) : Clean (.array elem items)
  | function {f : Function} (receiver : ∀ v ∈ f.receiver, Clean v) : Clean (.function f)
  | latitude {x : Float} (finite : Number.isFinite x = true) : Clean (.latitude x)
  | longitude {x : Float} (finite : Number.isFinite x = true) : Clean (.longitude x)
  | timestamp (seconds : Int) : Clean (.timestamp seconds)
  | group {members : Namespace} (each : ∀ name v, Table.get? members name = some v → Clean v) :
    Clean (.group members)

structure Scope.Clean (s : Scope) : Prop where
  bindings : ∀ name v, s.bindings.get? name = some v → v.Clean
  methods : ∀ t name f, s.method? t name = some f → (Value.function f).Clean

def Environment.Clean (env : Environment) : Prop := ∀ s ∈ env.scopes, s.Clean

namespace Value.Clean

variable {v w : Value}

theorem texts (segments : List String) : Clean (.array .text (segments.map .text)) := by
  refine .array (fun v hv => ?_) fun v hv => ?_
  · obtain ⟨s, -, rfl⟩ := List.mem_map.mp hv
    rfl
  · obtain ⟨s, -, rfl⟩ := List.mem_map.mp hv
    exact .text s

theorem bindMethod (hv : v.Clean) (hw : w.Clean) : (v.bindMethod w).Clean :=
  Value.bindMethod_preserves (fun _ _ => .function fun _ hu => Option.some.inj hu ▸ hv) hw

theorem arguments {f : Function} {args : List Value} (hf : (Value.function f).Clean)
    (hargs : ∀ v ∈ args, v.Clean) : ∀ v ∈ f.arguments args, v.Clean := by
  cases hf with
  | function receiver => exact Callable.forall_mem_arguments receiver hargs

theorem member {members : Namespace} {name : String} (h : Clean (.group members))
    (hget : members.get? name = some v) : v.Clean := by
  cases h with
  | group each => exact each name v hget

theorem plain (name : String) (body : NativeId) : Clean (.function (.plain name body)) :=
  .function fun _ h => nomatch h

theorem empty : Clean (.group ∅) := .group fun _ _ h => nomatch h

end Value.Clean

namespace BinaryOp

variable {l r v : Value}

end BinaryOp

namespace Namespace

variable {v : Value} {path : List String} {members written : Namespace}

theorem clean_insert {name : String} (h : (Value.group members).Clean) (hv : v.Clean) :
    (Value.group (Table.insert members name v)).Clean := by
  refine .group fun other w hget => ?_
  rw [Table.get?_insert] at hget
  split at hget
  · exact Option.some.inj hget ▸ hv
  · exact h.member hget

theorem clean_getD {o : Option Value} (h : ∀ w, o = some w → w.Clean) :
    (o.getD (.group ∅)).Clean := by
  cases o with
  | none => exact .empty
  | some w => exact h w rfl

theorem clean_insertPath (h : (Value.group members).Clean) (hv : v.Clean)
    (hwrite : insertPath v path members = .ok written) : (Value.group written).Clean := by
  induction path generalizing members written with
  | nil => cases hwrite
  | cons name rest ih =>
    cases rest with
    | nil =>
      cases hwrite
      exact clean_insert h hv
    | cons next rest =>
      obtain ⟨inner, innerWritten, hget, hinner, rfl⟩ := insertPath_cons hwrite
      have hslot : ((Table.get? members name).getD (.group ∅)).Clean :=
        clean_getD fun w hw => h.member hw
      rw [hget] at hslot
      exact clean_insert h (ih hslot hinner)

end Namespace

namespace Environment.Clean

variable {env : Environment} {v : Value}

theorem root (readOnly : Bool) : (Environment.root readOnly).Clean := by
  intro s hs
  cases List.mem_singleton.mp hs
  exact ⟨(fun _ _ h => nomatch h), fun _ _ _ h => nomatch h⟩

theorem scope (h : env.Clean) : env.scope.Clean := h env.scope List.mem_cons_self

theorem binding? {scopes : List Scope} (h : ∀ s ∈ scopes, s.Clean) {name : String}
    (hv : Scope.binding? name scopes = some v) : v.Clean := by
  obtain ⟨s, hs, hget⟩ := List.exists_of_findSome?_eq_some hv
  exact (h s hs).bindings name v hget

theorem name? (h : env.Clean) {name : String} (hv : env.name? name = some v) : v.Clean :=
  binding? h hv

theorem method? (h : env.Clean) {t : ValueType} {name : String} {f : Function}
    (hf : env.method? t name = some f) : (Value.function f).Clean := by
  obtain ⟨s, hs, hget⟩ := List.exists_of_findSome?_eq_some hf
  exact (h s hs).methods t name f hget

theorem inherited (h : env.Clean) (name : String) : (Value.group (env.inherited name)).Clean := by
  rw [Environment.inherited]
  split
  next members hm => exact binding? (fun s hs => h s (List.mem_cons_of_mem _ hs)) hm
  next => exact .empty

theorem base (h : env.Clean) (name : String) : (env.base name).Clean := by
  rw [Environment.base]
  cases hown : env.scope.bindings.get? name with
  | some own => exact h.scope.bindings name own hown
  | none => exact h.inherited name

theorem bind (h : env.Clean) (name : String) (hv : v.Clean) : (env.bind name v).Clean := by
  intro s hs
  rcases List.mem_cons.mp hs with rfl | hs
  · refine ⟨fun other w hget => ?_, h.scope.methods⟩
    simp only [Environment.bind, Table.get?_insert] at hget
    split at hget
    · exact Option.some.inj hget ▸ hv
    · exact h.scope.bindings other w hget
  · exact h s (List.mem_cons_of_mem _ hs)

theorem assign (h : env.Clean) (path : List String) (hv : v.Clean) :
    (env.assign path v).2.Clean := by
  rcases hout : env.assign path v with ⟨result, after⟩
  cases assign_eq_iff.mp hout with
  | readOnly | emptyTarget | notNamespace => exact h
  | name => exact h.bind _ hv
  | @member name next rest members written flag base write =>
    exact h.bind name (Namespace.clean_insertPath (base ▸ h.base name) hv write)
  | blocked =>
    rw [adopt]
    split
    · exact h
    · exact h.bind _ (h.inherited _)

end Environment.Clean

end ScopedFormulas
