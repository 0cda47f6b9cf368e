import ScopedFormulas.Proofs.Environment.Assignment

namespace ScopedFormulas

inductive Apart : List String → List String → Prop where
  | here {name other : String} (h : name ≠ other) (p q : List String) :
    Apart (name :: p) (other :: q)
  | deeper (name : String) {p q : List String} (h : Apart p q) : Apart (name :: p) (name :: q)

namespace Apart

variable {p q : List String}

theorem of_not_prefix (hpq : ¬ p <+: q) (hqp : ¬ q <+: p) : Apart p q := by
  induction p generalizing q with
  | nil => exact absurd List.nil_prefix hpq
  | cons name rest ih =>
    cases q with
    | nil => exact absurd List.nil_prefix hqp
    | cons other tail =>
      by_cases hname : name = other
      · subst hname
        rw [List.prefix_cons_inj] at hpq hqp
        exact .deeper name (ih hpq hqp)
      · exact .here hname rest tail

theorem left_ne_nil (h : Apart p q) : p ≠ [] := by
  cases h <;> exact List.cons_ne_nil _ _

theorem right_ne_nil (h : Apart p q) : q ≠ [] := by
  cases h <;> exact List.cons_ne_nil _ _

end Apart

/-- Two writes to one state, either of which may be refused: neither changes the answer to the
other, and where both are made their order makes no difference. -/
inductive Independent {σ ε : Type} (f g : σ → Except ε σ) (s : σ) : Prop where
  | both {a b c : σ} (left : f s = .ok a) (right : g s = .ok b) (leftRight : g a = .ok c)
    (rightLeft : f b = .ok c)
  | leftOnly {a : σ} {d : ε} (left : f s = .ok a) (right : g s = .error d) (after : g a = .error d)
  | rightOnly {b : σ} {d : ε} (left : f s = .error d) (right : g s = .ok b) (after : f b = .error d)
  | neither {d e : ε} (left : f s = .error d) (right : g s = .error e)

namespace Independent

variable {σ τ ε : Type} {f g : σ → Except ε σ} {f' g' : τ → Except ε τ}

theorem extend {s : σ} (set : σ → τ) (hf : ∀ a, f' (set a) = (f a).map set)
    (hg : ∀ a, g' (set a) = (g a).map set) (h : Independent f g s) {t : τ}
    (hft : f' t = (f s).map set) (hgt : g' t = (g s).map set) : Independent f' g' t := by
  cases h with
  | both left right leftRight rightLeft =>
    rw [left] at hft
    rw [right] at hgt
    exact .both hft hgt (by rw [hg, leftRight]; rfl) (by rw [hf, rightLeft]; rfl)
  | leftOnly left right after =>
    rw [left] at hft
    rw [right] at hgt
    exact .leftOnly hft hgt (by rw [hg, after]; rfl)
  | rightOnly left right after =>
    rw [left] at hft
    rw [right] at hgt
    exact .rightOnly hft hgt (by rw [hf, after]; rfl)
  | neither left right =>
    rw [left] at hft
    rw [right] at hgt
    exact .neither hft hgt

theorem of_disjoint {t : τ} {x y : Except ε σ} (setLeft setRight : τ → σ → τ)
    (hf : f' t = x.map (setLeft t)) (hg : g' t = y.map (setRight t))
    (hfg : ∀ b, f' (setRight t b) = x.map (setLeft (setRight t b)))
    (hgf : ∀ a, g' (setLeft t a) = y.map (setRight (setLeft t a)))
    (hcomm : ∀ a b, setRight (setLeft t a) b = setLeft (setRight t b) a) :
    Independent f' g' t := by
  cases x with
  | ok a =>
    cases y with
    | ok b => exact .both hf hg (hgf a) ((hfg b).trans (congrArg Except.ok (hcomm a b).symm))
    | error d => exact .leftOnly hf hg (hgf a)
  | error d =>
    cases y with
    | ok b => exact .rightOnly hf hg (hfg b)
    | error e => exact .neither hf hg

end Independent

variable {v w : Value} {p q : List String}

namespace Value

theorem writeBelow_independent (h : Apart p q)
    (hinsert : ∀ members, Independent (Namespace.insertPath v p) (Namespace.insertPath w q) members)
    (name : String) (slot : Value) :
    Independent (writeBelow name v p) (writeBelow name w q) slot := by
  by_cases hslot : slot.type = .group
  · obtain ⟨members, rfl⟩ := Value.exists_group hslot
    have hl := writeBelow_group (v := v) h.left_ne_nil name
    have hr := writeBelow_group (v := w) h.right_ne_nil name
    exact (hinsert members).extend .group hl hr (hl members) (hr members)
  · exact .neither (writeBelow_of_type h.left_ne_nil hslot name)
      (writeBelow_of_type h.right_ne_nil hslot name)

end Value

namespace Namespace

theorem insertPath_independent (h : Apart p q) (members : Namespace) :
    Independent (insertPath v p) (insertPath w q) members := by
  induction h generalizing members with
  | @here name other hname rest tail =>
    have hleft := insertPath_cons_eq (v := v) name rest
    have hright := insertPath_cons_eq (v := w) other tail
    refine .of_disjoint (Table.insert · name) (Table.insert · other) (hleft members)
      (hright members) (fun b => ?_) (fun a => ?_) fun a b => Table.insert_comm members a b hname
    · rw [hleft, Table.get?_insert_of_ne members b (Ne.symm hname)]
    · rw [hright, Table.get?_insert_of_ne members a hname]
  | @deeper name rest tail hrest ih =>
    have hleft := insertPath_cons_eq (v := v) name rest
    have hright := insertPath_cons_eq (v := w) name tail
    have hset : ∀ a, Table.insert (Table.insert members name a) name = Table.insert members name :=
      fun a => funext fun b => Table.insert_insert_self members name b a
    refine (Value.writeBelow_independent hrest ih name _).extend (Table.insert members name)
      (fun a => ?_) (fun a => ?_) (hleft members) (hright members)
    · rw [hleft, Table.get?_insert_self, hset, Option.getD_some]
    · rw [hright, Table.get?_insert_self, hset, Option.getD_some]

end Namespace

namespace Environment

variable {env : Environment} {name other : String}

theorem bind_comm (h : name ≠ other) :
    (env.bind name v).bind other w = (env.bind other w).bind name v := by
  simp only [bind, Table.insert_comm _ v w h]

@[simp] theorem bind_bind_self : (env.bind name v).bind name w = env.bind name w := by
  simp only [bind, Table.insert_insert_self]

@[simp] theorem adopt_bind_self : (env.bind name v).adopt name = env.bind name v :=
  adopt_of_bound (Table.get?_insert_self env.scope.bindings name v)

@[simp] theorem bind_adopt_self : (env.adopt name).bind name v = env.bind name v := by
  rw [adopt]
  split
  · rfl
  · exact bind_bind_self

theorem adopt_bind_of_ne (h : name ≠ other) :
    (env.bind name v).adopt other = (env.adopt other).bind name v := by
  have hown : (env.bind name v).scope.bindings.get? other = env.scope.bindings.get? other :=
    Table.get?_insert_of_ne env.scope.bindings v h
  cases hbound : env.scope.bindings.get? other with
  | some own => rw [adopt_of_bound (hown.trans hbound), adopt_of_bound hbound]
  | none =>
    rw [adopt_of_unbound (hown.trans hbound), adopt_of_unbound hbound]
    exact bind_comm h

theorem adopt_comm (h : name ≠ other) :
    (env.adopt name).adopt other = (env.adopt other).adopt name := by
  cases hname : env.scope.bindings.get? name with
  | some own =>
    cases hother : env.scope.bindings.get? other with
    | some own' => rw [adopt_of_bound hname, adopt_of_bound hother, adopt_of_bound hname]
    | none =>
      rw [adopt_of_bound hname, adopt_of_unbound hother, adopt_bind_of_ne h.symm,
        adopt_of_bound hname]
  | none =>
    cases hother : env.scope.bindings.get? other with
    | some own' =>
      rw [adopt_of_bound hother, adopt_of_unbound hname, adopt_bind_of_ne h, adopt_of_bound hother]
    | none =>
      rw [adopt_of_unbound hname, adopt_bind_of_ne h, adopt_of_unbound hother,
        adopt_bind_of_ne h.symm, adopt_of_unbound hname]
      exact bind_comm h.symm

theorem base_adopt (env : Environment) (name other : String) :
    (env.adopt name).base other = env.base other := by
  cases hname : env.scope.bindings.get? name with
  | some own => rw [adopt_of_bound hname]
  | none =>
    rw [adopt_of_unbound hname, base_bind]
    split
    next heq => rw [← heq, base, hname, Option.getD_none]
    next => rfl

theorem readOnly_adopt (env : Environment) (name : String) :
    (env.adopt name).scope.readOnly = env.scope.readOnly := by
  rw [adopt]
  split <;> rfl

variable {outcome outcome' : Except AssignError Value}

theorem readOnly_settle : (env.settle name outcome).2.scope.readOnly = env.scope.readOnly := by
  cases outcome with
  | ok written => rfl
  | error cause => exact readOnly_adopt env name

theorem base_settle_of_ne (h : name ≠ other) :
    (env.settle name outcome).2.base other = env.base other := by
  cases outcome with
  | ok written => rw [settle, base_bind, if_neg h]
  | error cause => exact base_adopt env name other

inductive Commutes (f g : Environment → Except AssignError Unit × Environment)
    (env : Environment) : Prop where
  | intro (after : Environment) {x y : Except AssignError Unit} {ef eg : Environment}
    (left : f env = (x, ef)) (right : g env = (y, eg)) (leftRight : g ef = (y, after))
    (rightLeft : f eg = (x, after))

theorem settle_commutes (env : Environment) (h : name ≠ other)
    (outcome outcome' : Except AssignError Value) :
    Commutes (·.settle name outcome) (·.settle other outcome') env := by
  cases outcome with
  | ok written =>
    cases outcome' with
    | ok written' => exact .intro _ rfl rfl rfl (congrArg (Prod.mk _) (bind_comm h).symm)
    | error cause => exact .intro _ rfl rfl rfl (congrArg (Prod.mk _) (adopt_bind_of_ne h).symm)
  | error cause =>
    cases outcome' with
    | ok written' => exact .intro _ rfl rfl rfl (congrArg (Prod.mk _) (adopt_bind_of_ne h.symm))
    | error cause' => exact .intro _ rfl rfl rfl (congrArg (Prod.mk _) (adopt_comm h).symm)

theorem assign_commutes_of_ne (flag : env.scope.readOnly = false) (h : name ≠ other) :
    Commutes (·.assign (name :: p) v) (·.assign (other :: q) w) env := by
  obtain ⟨after, left, right, leftRight, rightLeft⟩ := settle_commutes env h
    (Value.writeBelow name v p (env.base name)) (Value.writeBelow other w q (env.base other))
  refine .intro after ((assign_cons flag name p v).trans left)
    ((assign_cons flag other q w).trans right) ?_ ?_
  · obtain rfl := congrArg Prod.snd left
    rw [assign_cons (readOnly_settle.trans flag), base_settle_of_ne h]
    exact leftRight
  · obtain rfl := congrArg Prod.snd right
    rw [assign_cons (readOnly_settle.trans flag), base_settle_of_ne h.symm]
    exact rightLeft

theorem assign_commutes_of_independent (flag : env.scope.readOnly = false)
    (h : Independent (Value.writeBelow name v p) (Value.writeBelow name w q) (env.base name)) :
    Commutes (·.assign (name :: p) v) (·.assign (name :: q) w) env := by
  have hp := assign_cons flag name p v
  have hq := assign_cons flag name q w
  have hbind (a : Value) : (env.bind name a).scope.readOnly = false := flag
  have hadopt : (env.adopt name).scope.readOnly = false := (readOnly_adopt env name).trans flag
  cases h with
  | @both a b c left right leftRight rightLeft =>
    rw [left] at hp
    rw [right] at hq
    refine .intro (env.bind name c) hp hq ?_ ?_
    · rw [assign_cons (hbind a), base_bind, if_pos rfl, leftRight, settle, bind_bind_self]
    · rw [assign_cons (hbind b), base_bind, if_pos rfl, rightLeft, settle, bind_bind_self]
  | @leftOnly a d left right after =>
    rw [left] at hp
    rw [right] at hq
    refine .intro (env.bind name a) hp hq ?_ ?_
    · rw [assign_cons (hbind a), base_bind, if_pos rfl, after, settle, adopt_bind_self]
    · rw [assign_cons hadopt, base_adopt, left, settle, bind_adopt_self]
  | @rightOnly b d left right after =>
    rw [left] at hp
    rw [right] at hq
    refine .intro (env.bind name b) hp hq ?_ ?_
    · rw [assign_cons hadopt, base_adopt, right, settle, bind_adopt_self]
    · rw [assign_cons (hbind b), base_bind, if_pos rfl, after, settle, adopt_bind_self]
  | neither left right =>
    rw [left] at hp
    rw [right] at hq
    refine .intro ((env.adopt name).adopt name) hp hq ?_ ?_
    · rw [assign_cons hadopt, base_adopt, right, settle]
    · rw [assign_cons hadopt, base_adopt, left, settle]

theorem assign_comm (hpq : ¬ p <+: q) (hqp : ¬ q <+: p) (env : Environment) (v w : Value) :
    ((env.assign p v).2.assign q w).1 = (env.assign q w).1 ∧
      ((env.assign q w).2.assign p v).1 = (env.assign p v).1 ∧
      ((env.assign p v).2.assign q w).2 = ((env.assign q w).2.assign p v).2 := by
  suffices h : Commutes (·.assign p v) (·.assign q w) env by
    obtain ⟨after, left, right, leftRight, rightLeft⟩ := h
    rw [left, right, leftRight, rightLeft]
    exact ⟨rfl, rfl, rfl⟩
  cases flag : env.scope.readOnly with
  | true =>
    have hp := (Assigns.readOnly flag : Assigns env v p _ _).eq
    have hq := (Assigns.readOnly flag : Assigns env w q _ _).eq
    exact .intro env hp hq hq hp
  | false =>
    cases Apart.of_not_prefix hpq hqp with
    | here hname rest tail => exact assign_commutes_of_ne flag hname
    | deeper name hrest =>
      exact assign_commutes_of_independent flag
        (Value.writeBelow_independent hrest (Namespace.insertPath_independent hrest) name _)

-- One write fails in a namespace that both inherit, and leaves the copy that the other goes into.
theorem assign_comm_inherited :
    let env := ((root true).bind "ns" (.group (.ofList [("x", .text "1")]))).push false
    let p := ["ns", "x", "y"]
    let q := ["ns", "z", "y"]
    ¬ p <+: q ∧ ¬ q <+: p ∧
      (env.assign p (.text "2")).1 = .error (.notNamespace "x" .text) ∧
      ((env.assign q (.text "3")).2.assign p (.text "2")).1 = .error (.notNamespace "x" .text) ∧
      ((env.assign p (.text "2")).2.assign q (.text "3")).1 = .ok () ∧
      ((env.assign p (.text "2")).2.assign q (.text "3")).2 =
        ((env.assign q (.text "3")).2.assign p (.text "2")).2 := by
  intro env p q
  have hpq : ¬ p <+: q := by decide
  have hqp : ¬ q <+: p := by decide
  obtain ⟨hright, hleft, henv⟩ := assign_comm hpq hqp env (.text "2") (.text "3")
  exact ⟨hpq, hqp, rfl, hleft, hright, henv⟩

end Environment

end ScopedFormulas
