import Mathlib.Data.List.Forall2
import ScopedFormulas.Proofs.Environment.Assignment

/-!
Values and environments of the same shape. Similar values have the same type, and similar
namespaces have the same members up to similarity. Similar environments bind the same names to
similar values, scope by scope. Reads from similar environments are similar, and so are the
environments after writing similar values.
-/

namespace ScopedFormulas

inductive Value.Similar : Value → Value → Prop where
  | plain {v w : Value} (type : v.type = w.type) (plain : v.type ≠ .group) : Similar v w
  | group {as bs : Namespace} (names : ∀ name, (as.get? name).isSome = (bs.get? name).isSome)
    (members : ∀ name a b, as.get? name = some a → bs.get? name = some b → Similar a b) :
    Similar (.group as) (.group bs)

def Namespace.Similar (as bs : Namespace) : Prop :=
  ∀ name, Option.Rel Value.Similar (Table.get? as name) (Table.get? bs name)

structure Scope.Similar (s t : Scope) : Prop where
  readOnly : s.readOnly = t.readOnly
  bindings : ∀ name, Option.Rel Value.Similar (s.bindings.get? name) (t.bindings.get? name)
  methods : ∀ type name, (s.method? type name).isSome = (t.method? type name).isSome

def Environment.Similar (a b : Environment) : Prop := List.Forall₂ Scope.Similar a.scopes b.scopes

theorem rel_iff {α β : Type} {R : α → β → Prop} {o : Option α} {o' : Option β} :
    Option.Rel R o o' ↔ o.isSome = o'.isSome ∧ ∀ a b, o = some a → o' = some b → R a b := by
  constructor
  · intro h
    cases h with
    | none => exact ⟨rfl, fun a b ha => nomatch ha⟩
    | some hab =>
      refine ⟨rfl, fun a b ha hb => ?_⟩
      cases ha
      cases hb
      exact hab
  · rintro ⟨hsome, hrel⟩
    cases o with
    | none =>
      cases o' with
      | none => exact .none
      | some b => cases hsome
    | some a =>
      cases o' with
      | none => cases hsome
      | some b => exact .some (hrel a b rfl rfl)

theorem rel_isSome {α β : Type} {o : Option α} {o' : Option β} (h : o.isSome = o'.isSome) :
    Option.Rel (fun _ _ => True) o o' := rel_iff.mpr ⟨h, fun _ _ _ _ => trivial⟩

theorem findSome?_rel {α β γ δ : Type} {R : α → β → Prop} {V : γ → δ → Prop} {f : α → Option γ}
    {g : β → Option δ} {l : List α} {l' : List β} (h : List.Forall₂ R l l')
    (hfg : ∀ a b, R a b → Option.Rel V (f a) (g b)) :
    Option.Rel V (l.findSome? f) (l'.findSome? g) := by
  induction h with
  | nil => exact .none
  | @cons a b l l' hab _ ih =>
    have hrel := hfg a b hab
    rw [List.findSome?_cons, List.findSome?_cons]
    generalize f a = o at hrel ⊢
    generalize g b = o' at hrel ⊢
    cases hrel with
    | none => exact ih
    | some hv => exact .some hv

namespace Value.Similar

variable {v w : Value} {as bs : Namespace}

theorem type_eq (h : v.Similar w) : v.type = w.type := by
  cases h with
  | plain type _ => exact type
  | group => rfl

theorem group_iff : (Value.group as).Similar (.group bs) ↔ Namespace.Similar as bs := by
  constructor
  · intro h name
    cases h with
    | plain _ plain => exact absurd rfl plain
    | group names members => exact rel_iff.mpr ⟨names name, members name⟩
  · exact fun h => .group (fun name => (rel_iff.mp (h name)).1) fun name => (rel_iff.mp (h name)).2

theorem exists_group (h : (Value.group as).Similar w) :
    ∃ bs, w = .group bs ∧ Namespace.Similar as bs := by
  have htype := h.type_eq
  cases w with
  | group bs => exact ⟨bs, rfl, group_iff.mp h⟩
  | _ => cases htype

theorem refl (v : Value) : v.Similar v := by
  induction v with
  | group members ih =>
    refine .group (fun _ => rfl) fun name a b ha hb => ?_
    cases ha.symm.trans hb
    exact ih (name, a) (Table.mem_of_get? ha)
  | _ => exact .plain rfl (by simp [Value.type])

theorem symm (h : v.Similar w) : w.Similar v := by
  induction h with
  | plain type plain => exact .plain type.symm (type ▸ plain)
  | group names _ ih =>
    exact .group (fun name => (names name).symm) fun name a b ha hb => ih name b a hb ha

end Value.Similar

namespace Namespace.Similar

variable {as bs : Namespace} {v w : Value}

theorem empty : Similar ∅ ∅ := fun _ => .none

theorem insert (h : Similar as bs) (hv : v.Similar w) (name : String) :
    Similar (Table.insert as name v) (Table.insert bs name w) := by
  intro other
  rw [Table.get?_insert, Table.get?_insert]
  split
  · exact .some hv
  · exact h other

theorem getD_group {o o' : Option Value} (h : Option.Rel Value.Similar o o') :
    (o.getD (.group ∅)).Similar (o'.getD (.group ∅)) := by
  cases h with
  | none => exact .refl _
  | some hv => exact hv

theorem insertPath (h : Similar as bs) (hv : v.Similar w) (path : List String) :
    (∃ cause, Namespace.insertPath v path as = .error cause ∧
        Namespace.insertPath w path bs = .error cause) ∨
      ∃ as' bs', Namespace.insertPath v path as = .ok as' ∧
        Namespace.insertPath w path bs = .ok bs' ∧ Similar as' bs' := by
  induction path generalizing as bs with
  | nil => exact .inl ⟨_, rfl, rfl⟩
  | cons name rest ih =>
    cases rest with
    | nil => exact .inr ⟨_, _, rfl, rfl, h.insert hv name⟩
    | cons next rest =>
      have hinner := getD_group (h name)
      by_cases hgroup : ((Table.get? as name).getD (.group ∅)).type = .group
      · obtain ⟨inner, hl⟩ := Value.exists_group hgroup
        rw [hl] at hinner
        obtain ⟨inner', hr, hsim⟩ := hinner.exists_group
        rw [insertPath_group hl, insertPath_group hr]
        rcases ih hsim with ⟨cause, hl', hr'⟩ | ⟨as', bs', hl', hr', hsim'⟩
        · exact .inl ⟨cause, by rw [hl']; rfl, by rw [hr']; rfl⟩
        · refine .inr ⟨_, _, by rw [hl']; rfl, by rw [hr']; rfl, ?_⟩
          exact h.insert (Value.Similar.group_iff.mpr hsim') name
      · have htype := hinner.type_eq
        rw [insertPath_blocked hgroup, insertPath_blocked (htype ▸ hgroup), htype]
        exact .inl ⟨_, rfl, rfl⟩

end Namespace.Similar

namespace Environment.Similar

variable {a b : Environment} {v w : Value}

theorem scope (h : Similar a b) : Scope.Similar a.scope b.scope := by
  cases h with
  | cons scope _ => exact scope

theorem outer (h : Similar a b) : List.Forall₂ Scope.Similar a.outer b.outer := by
  cases h with
  | cons _ outer => exact outer

theorem refl (env : Environment) : Similar env env := by
  refine List.forall₂_same.mpr fun s _ => ⟨rfl, fun name => rel_iff.mpr ⟨rfl, ?_⟩, fun _ _ => rfl⟩
  intro v w hv hw
  cases hv.symm.trans hw
  exact .refl v

theorem symm (h : Similar a b) : Similar b a := by
  refine List.Forall₂.flip (h.imp fun s t hst => ?_)
  refine ⟨hst.readOnly.symm, fun name => ?_, fun type name => (hst.methods type name).symm⟩
  obtain ⟨hsome, hrel⟩ := rel_iff.mp (hst.bindings name)
  exact rel_iff.mpr ⟨hsome.symm, fun v w hv hw => (hrel w v hw hv).symm⟩

theorem binding? {ss ts : List Scope} (h : List.Forall₂ Scope.Similar ss ts) (name : String) :
    Option.Rel Value.Similar (Scope.binding? name ss) (Scope.binding? name ts) :=
  findSome?_rel h fun _ _ hst => hst.bindings name

theorem name? (h : Similar a b) (name : String) :
    Option.Rel Value.Similar (a.name? name) (b.name? name) := binding? h name

theorem method? (h : Similar a b) (t : ValueType) (name : String) :
    Option.Rel (fun _ _ => True) (a.method? t name) (b.method? t name) :=
  findSome?_rel h fun _ _ hst => rel_isSome (hst.methods t name)

theorem member? (h : Similar a b) (hv : v.Similar w) (name : String) :
    Option.Rel Value.Similar (a.member? v name) (b.member? w name) := by
  cases hv with
  | group names members => exact rel_iff.mpr ⟨names name, members name⟩
  | plain type plain =>
    have hmethod := h.method? v.type name
    rw [member?_of_type plain, member?_of_type (type ▸ plain), ← type]
    generalize a.method? v.type name = f at hmethod ⊢
    generalize b.method? v.type name = g at hmethod ⊢
    cases hmethod with
    | none => exact .none
    | some => exact .some (.plain rfl (by simp [Value.type]))

theorem inherited (h : Similar a b) (name : String) :
    Namespace.Similar (a.inherited name) (b.inherited name) := by
  have hname := binding? h.outer name
  rw [Environment.inherited, Environment.inherited]
  generalize Scope.binding? name a.outer = o at hname ⊢
  generalize Scope.binding? name b.outer = o' at hname ⊢
  cases hname with
  | none => exact .empty
  | some hv =>
    cases hv with
    | group names members => exact Value.Similar.group_iff.mp (.group names members)
    | @plain v w type plain =>
      split
      next members heq => cases heq; exact absurd rfl plain
      next =>
        split
        next members heq => cases heq; exact absurd type plain
        next => exact .empty

theorem base (h : Similar a b) (name : String) : (a.base name).Similar (b.base name) := by
  have hown := h.scope.bindings name
  rw [Environment.base, Environment.base]
  generalize a.scope.bindings.get? name = o at hown ⊢
  generalize b.scope.bindings.get? name = o' at hown ⊢
  cases hown with
  | none => exact Value.Similar.group_iff.mpr (h.inherited name)
  | some hv => exact hv

theorem bind (h : Similar a b) (hv : v.Similar w) (name : String) :
    Similar (a.bind name v) (b.bind name w) := by
  refine .cons ⟨h.scope.readOnly, fun other => ?_, h.scope.methods⟩ h.outer
  have hother := h.scope.bindings other
  simp only [Environment.bind, Table.get?_insert]
  split
  · exact .some hv
  · exact hother

theorem adopt (h : Similar a b) (name : String) : Similar (a.adopt name) (b.adopt name) := by
  have hown := h.scope.bindings name
  rw [Environment.adopt, Environment.adopt]
  generalize a.scope.bindings.get? name = o at hown ⊢
  generalize b.scope.bindings.get? name = o' at hown ⊢
  cases hown with
  | none => exact h.bind (Value.Similar.group_iff.mpr (h.inherited name)) name
  | some _ => exact h

theorem assign (h : Similar a b) (hv : v.Similar w) (path : List String) :
    (a.assign path v).1 = (b.assign path w).1 ∧
      Similar (a.assign path v).2 (b.assign path w).2 := by
  have hflag := h.scope.readOnly
  rcases hout : a.assign path v with ⟨result, after⟩
  cases assign_eq_iff.mp hout with
  | readOnly flag =>
    rw [(Assigns.readOnly (hflag ▸ flag)).eq]
    exact ⟨rfl, h⟩
  | emptyTarget flag =>
    rw [(Assigns.emptyTarget (hflag ▸ flag)).eq]
    exact ⟨rfl, h⟩
  | name flag =>
    rw [(Assigns.name (hflag ▸ flag)).eq]
    exact ⟨rfl, h.bind hv _⟩
  | @member name next rest members written flag base write =>
    obtain ⟨members', base', hmembers⟩ := (base ▸ h.base name).exists_group
    rcases hmembers.insertPath hv (next :: rest) with ⟨cause, hl, -⟩ | ⟨as, bs, hl, hr, hsim⟩
    · cases write.symm.trans hl
    · cases write.symm.trans hl
      rw [(Assigns.member (hflag ▸ flag) base' hr).eq]
      exact ⟨rfl, h.bind (Value.Similar.group_iff.mpr hsim) name⟩
  | @blocked name next rest members cause flag base write =>
    obtain ⟨members', base', hmembers⟩ := (base ▸ h.base name).exists_group
    rcases hmembers.insertPath hv (next :: rest) with ⟨cause', hl, hr⟩ | ⟨as, bs, hl, -, -⟩
    · cases write.symm.trans hl
      rw [(Assigns.blocked (hflag ▸ flag) base' hr).eq]
      exact ⟨rfl, h.adopt name⟩
    · cases write.symm.trans hl
  | @notNamespace name next rest flag base =>
    have htype := (h.base name).type_eq
    rw [(Assigns.notNamespace (hflag ▸ flag) (htype ▸ base)).eq, htype]
    exact ⟨rfl, h⟩

end Environment.Similar

end ScopedFormulas
