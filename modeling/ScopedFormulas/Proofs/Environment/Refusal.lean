import ScopedFormulas.Proofs.Environment.Resolution

/-!
When an assignment is refused. Besides a read-only scope and an empty path, the one reason is a
value on the way that is not a namespace: the write goes from the first name of the path into
namespaces, those that are missing are made, and nothing can be made below any other value. No two
prefixes of a path lead to such a value, so the error names the shortest.
-/

namespace ScopedFormulas

theorem map_eq_error_iff {α β ε : Type} {f : α → β} {outcome : Except ε α} {e : ε} :
    outcome.map f = .error e ↔ outcome = .error e := by
  cases outcome with
  | ok a => exact ⟨nofun, nofun⟩
  | error d => exact ⟨fun h => congrArg Except.error (Except.error.inj h), fun h => h ▸ rfl⟩

namespace Value

structure Blocks (slot : Value) (path front : List String) (w : Value) : Prop where
  before : front <+: path
  proper : front ≠ path
  reached : slot.follow? front = some w
  type : w.type ≠ .group

variable {slot w u v : Value} {name : String} {path rest front other : List String}
  {members : Namespace} {cause : AssignError}

theorem not_blocks_nil : ¬ slot.Blocks [] front w := by
  intro h
  exact h.proper (List.prefix_nil.mp h.before)

theorem Blocks.not_prefix (h : slot.Blocks path front w) (h' : slot.Blocks path other u)
    (hle : front <+: other) : front = other := by
  obtain ⟨tail, rfl⟩ := hle
  have hread := h'.reached
  rw [follow?_append, h.reached, Option.bind_some] at hread
  by_cases htail : tail = []
  · rw [htail, List.append_nil]
  · rw [follow?_of_type h.type htail] at hread
    cases hread

theorem Blocks.front_eq (h : slot.Blocks path front w) (h' : slot.Blocks path other u) :
    front = other := by
  rcases List.prefix_or_prefix_of_prefix h.before h'.before with hle | hle
  · exact h.not_prefix h' hle
  · exact (h'.not_prefix h hle).symm

theorem blocks_of_type (hslot : slot.type ≠ .group) :
    slot.Blocks (name :: rest) front w ↔ front = [] ∧ w = slot := by
  constructor
  · intro h
    by_cases hfront : front = []
    · subst hfront
      have hread := h.reached
      rw [follow?_nil] at hread
      exact ⟨rfl, (Option.some.inj hread).symm⟩
    · have hread := h.reached
      rw [follow?_of_type hslot hfront] at hread
      cases hread
  · rintro ⟨rfl, rfl⟩
    exact ⟨List.nil_prefix, (List.cons_ne_nil _ _).symm, follow?_nil _, hslot⟩

theorem blocks_group :
    (Value.group members).Blocks (name :: rest) front w ↔
      ∃ below, front = name :: below ∧
        ((Table.get? members name).getD (.group ∅)).Blocks rest below w := by
  constructor
  · intro h
    cases front with
    | nil =>
      have hread := h.reached
      rw [follow?_nil] at hread
      exact absurd (congrArg Value.type (Option.some.inj hread)).symm h.type
    | cons first below =>
      obtain ⟨rfl, hbefore⟩ := List.cons_prefix_cons.mp h.before
      have hread := h.reached
      rw [follow?_group] at hread
      obtain ⟨inner, hget, hfollow⟩ := Option.bind_eq_some_iff.mp hread
      have hproper : below ≠ rest := fun heq => h.proper (heq ▸ rfl)
      refine ⟨below, rfl, hbefore, hproper, ?_, h.type⟩
      rw [hget, Option.getD_some]
      exact hfollow
  · rintro ⟨below, rfl, h⟩
    have hproper : name :: below ≠ name :: rest := fun heq => h.proper (List.cons.inj heq).2
    refine ⟨List.cons_prefix_cons.mpr ⟨rfl, h.before⟩, hproper, ?_, h.type⟩
    have hread := h.reached
    rw [follow?_group]
    cases hget : Table.get? members name with
    | some inner =>
      rw [hget, Option.getD_some] at hread
      exact hread
    | none =>
      rw [hget, Option.getD_none] at hread
      by_cases hbelow : below = []
      · subst hbelow
        rw [follow?_nil] at hread
        exact absurd (congrArg Value.type (Option.some.inj hread)).symm h.type
      · rw [follow?_empty hbelow] at hread
        cases hread

theorem writeBelow_eq_error_iff :
    writeBelow name v path slot = .error cause ↔
      ∃ front w, slot.Blocks path front w ∧
        cause = .notNamespace ((name :: front).getLast (List.cons_ne_nil name front)) w.type := by
  induction path generalizing name slot with
  | nil =>
    constructor
    · intro h
      cases h
    · rintro ⟨front, w, h, -⟩
      exact absurd h not_blocks_nil
  | cons next rest ih =>
    by_cases hslot : slot.type = .group
    · obtain ⟨members, rfl⟩ := exists_group hslot
      rw [writeBelow_group (List.cons_ne_nil next rest), Namespace.insertPath_cons_eq]
      rw [map_eq_error_iff, map_eq_error_iff, ih]
      constructor
      · rintro ⟨below, w, h, rfl⟩
        exact ⟨next :: below, w, blocks_group.mpr ⟨below, rfl, h⟩, rfl⟩
      · rintro ⟨front, w, h, rfl⟩
        obtain ⟨below, rfl, hbelow⟩ := blocks_group.mp h
        exact ⟨below, w, hbelow, rfl⟩
    · rw [writeBelow_of_type (List.cons_ne_nil next rest) hslot]
      constructor
      · intro h
        cases h
        exact ⟨[], slot, (blocks_of_type hslot).mpr ⟨rfl, rfl⟩, rfl⟩
      · rintro ⟨front, w, h, rfl⟩
        obtain ⟨rfl, rfl⟩ := (blocks_of_type hslot).mp h
        rfl

end Value

namespace Environment

/-- A qualified write through a name goes into what the innermost scope binds to it, else into the
namespace that the name has in the scopes around, else into an empty one. -/
inductive GoesInto (env : Environment) (name : String) : Value → Prop where
  | own {v : Value} (bound : env.scope.bindings.get? name = some v) : GoesInto env name v
  | inherited {parent : Environment} {members : Namespace}
    (unbound : env.scope.bindings.get? name = none) (around : env.pop? = some parent)
    (found : parent.name? name = some (.group members)) : GoesInto env name (.group members)
  | fresh (unbound : env.scope.bindings.get? name = none)
    (missing : ∀ parent members, env.pop? = some parent →
      parent.name? name ≠ some (.group members)) : GoesInto env name (.group ∅)

inductive Reaches (env : Environment) : List String → Value → Prop where
  | intro {name : String} {rest : List String} {slot w : Value} (start : env.GoesInto name slot)
    (follow : slot.follow? rest = some w) : Reaches env (name :: rest) w

/-- A nonempty proper part of the path, from its beginning, leads to a value that is not a
namespace. -/
structure Blocks (env : Environment) (path front : List String) (w : Value) : Prop where
  before : front <+: path
  proper : front ≠ path
  reached : env.Reaches front w
  type : w.type ≠ .group

variable {env : Environment} {name segment : String} {path rest front other : List String}
  {v w u : Value} {cause : AssignError}

theorem binding?_outer (env : Environment) (name : String) :
    Scope.binding? name env.outer = env.pop?.bind (·.name? name) := by
  obtain ⟨scope, outer⟩ := env
  cases outer <;> rfl

theorem inherited_of_missing
    (h : ∀ members, Scope.binding? name env.outer ≠ some (.group members)) :
    env.inherited name = ∅ := by
  rw [inherited]
  split
  next members found => exact absurd found (h members)
  next => rfl

theorem GoesInto.base_eq (h : env.GoesInto name v) : env.base name = v := by
  cases h with
  | own bound => rw [base, bound, Option.getD_some]
  | @inherited parent members unbound around found =>
    have hfound : Scope.binding? name env.outer = some (.group members) := by
      rw [binding?_outer, around, Option.bind_some, found]
    rw [base, unbound, Option.getD_none, Environment.inherited, hfound]
  | fresh unbound missing =>
    have hmissing : ∀ members, Scope.binding? name env.outer ≠ some (.group members) := by
      intro members found
      rw [binding?_outer] at found
      obtain ⟨parent, around, hname⟩ := Option.bind_eq_some_iff.mp found
      exact missing parent members around hname
    rw [base, unbound, Option.getD_none, inherited_of_missing hmissing]

theorem goesInto_base (env : Environment) (name : String) : env.GoesInto name (env.base name) := by
  cases hown : env.scope.bindings.get? name with
  | some v =>
    rw [base, hown, Option.getD_some]
    exact .own hown
  | none =>
    rw [base, hown, Option.getD_none]
    by_cases h : ∃ members, Scope.binding? name env.outer = some (.group members)
    · obtain ⟨members, found⟩ := h
      rw [inherited, found]
      rw [binding?_outer] at found
      obtain ⟨parent, around, hname⟩ := Option.bind_eq_some_iff.mp found
      exact .inherited hown around hname
    · rw [inherited_of_missing fun members found => h ⟨members, found⟩]
      refine .fresh hown fun parent members around hname => h ⟨members, ?_⟩
      rw [binding?_outer, around, Option.bind_some, hname]

theorem not_blocks_nil : ¬ env.Blocks [] front w := by
  intro h
  exact h.proper (List.prefix_nil.mp h.before)

theorem blocks_cons_iff :
    env.Blocks (name :: rest) front w ↔
      ∃ below, front = name :: below ∧ (env.base name).Blocks rest below w := by
  constructor
  · rintro ⟨before, proper, @⟨first, below, slot, w, start, follow⟩, type⟩
    obtain ⟨rfl, hbefore⟩ := List.cons_prefix_cons.mp before
    have hproper : below ≠ rest := fun heq => proper (heq ▸ rfl)
    rw [← start.base_eq] at follow
    exact ⟨below, rfl, hbefore, hproper, follow, type⟩
  · rintro ⟨below, rfl, h⟩
    have hproper : name :: below ≠ name :: rest := fun heq => h.proper (List.cons.inj heq).2
    exact ⟨List.cons_prefix_cons.mpr ⟨rfl, h.before⟩, hproper,
      ⟨goesInto_base env name, h.reached⟩, h.type⟩

theorem Blocks.front_eq (h : env.Blocks path front w) (h' : env.Blocks path other u) :
    front = other := by
  cases path with
  | nil => exact absurd h not_blocks_nil
  | cons name rest =>
    obtain ⟨below, rfl, hbelow⟩ := blocks_cons_iff.mp h
    obtain ⟨below', rfl, hbelow'⟩ := blocks_cons_iff.mp h'
    rw [hbelow.front_eq hbelow']

theorem assign_cons_eq_error_iff (flag : env.scope.readOnly = false) :
    (env.assign (name :: rest) v).1 = .error cause ↔
      ∃ front w segment, env.Blocks (name :: rest) front w ∧ front.getLast? = some segment ∧
        cause = .notNamespace segment w.type := by
  rw [assign_cons flag, settle_fst, map_eq_error_iff, Value.writeBelow_eq_error_iff]
  constructor
  · rintro ⟨below, w, h, rfl⟩
    exact ⟨name :: below, w, _, blocks_cons_iff.mpr ⟨below, rfl, h⟩,
      List.getLast?_eq_some_getLast (List.cons_ne_nil name below), rfl⟩
  · rintro ⟨front, w, segment, h, hlast, rfl⟩
    obtain ⟨below, rfl, hbelow⟩ := blocks_cons_iff.mp h
    rw [List.getLast?_eq_some_getLast (List.cons_ne_nil name below)] at hlast
    cases hlast
    exact ⟨below, w, hbelow, rfl⟩

theorem assign_of_blocks (flag : env.scope.readOnly = false) (h : env.Blocks path front w)
    (v : Value) : ∃ segment, front.getLast? = some segment ∧
      (env.assign path v).1 = .error (.notNamespace segment w.type) := by
  cases path with
  | nil => exact absurd h not_blocks_nil
  | cons name rest =>
    obtain ⟨below, rfl, -⟩ := blocks_cons_iff.mp h
    have hlast := List.getLast?_eq_some_getLast (List.cons_ne_nil name below)
    exact ⟨_, hlast, (assign_cons_eq_error_iff flag).mpr ⟨_, w, _, h, hlast, rfl⟩⟩

theorem assign_of_not_blocks (flag : env.scope.readOnly = false) (hpath : path ≠ [])
    (h : ∀ front w, ¬ env.Blocks path front w) (v : Value) : (env.assign path v).1 = .ok () := by
  cases path with
  | nil => exact absurd rfl hpath
  | cons name rest =>
    cases hresult : (env.assign (name :: rest) v).1 with
    | ok => rfl
    | error cause =>
      obtain ⟨front, w, -, hblocks, -⟩ := (assign_cons_eq_error_iff flag).mp hresult
      exact absurd hblocks (h front w)

theorem assign_refused_iff (env : Environment) (path : List String) (v : Value) :
    ((env.assign path v).1 = .error .readOnly ↔ env.scope.readOnly = true) ∧
    ((env.assign path v).1 = .error .emptyTarget ↔ env.scope.readOnly = false ∧ path = []) ∧
    ((∃ segment actual, (env.assign path v).1 = .error (.notNamespace segment actual)) ↔
      env.scope.readOnly = false ∧ ∃ front w, env.Blocks path front w) ∧
    (∀ segment actual, (env.assign path v).1 = .error (.notNamespace segment actual) →
      ∃ front w, env.Blocks path front w ∧
        (∀ other u, env.Blocks path other u → front.length ≤ other.length) ∧
        front.getLast? = some segment ∧ actual = w.type) ∧
    ((env.assign path v).1 = .ok () ↔
      env.scope.readOnly = false ∧ path ≠ [] ∧ ∀ front w, ¬ env.Blocks path front w) := by
  cases flag : env.scope.readOnly with
  | true =>
    rw [(Assigns.readOnly flag : Assigns env v path _ _).eq]
    simp
  | false =>
    by_cases hpath : path = []
    · subst hpath
      rw [(Assigns.emptyTarget flag : Assigns env v [] _ _).eq]
      simp [not_blocks_nil]
    by_cases hblocked : ∃ front w, env.Blocks path front w
    · obtain ⟨front, w, h⟩ := hblocked
      obtain ⟨segment, hlast, hresult⟩ := assign_of_blocks flag h v
      have hshortest : ∀ other u, env.Blocks path other u → front.length ≤ other.length :=
        fun other u h' => h.front_eq h' ▸ Nat.le_refl _
      rw [hresult]
      refine ⟨by simp, by simp [hpath], ?_, ?_, ?_⟩
      · exact ⟨fun _ => ⟨rfl, front, w, h⟩, fun _ => ⟨segment, w.type, rfl⟩⟩
      · rintro _ _ ⟨⟩
        exact ⟨front, w, h, hshortest, hlast, rfl⟩
      · exact ⟨nofun, fun hfree => absurd h (hfree.2.2 front w)⟩
    · have hfree : ∀ front w, ¬ env.Blocks path front w :=
        fun front w h => hblocked ⟨front, w, h⟩
      rw [assign_of_not_blocks flag hpath hfree v]
      simp [hpath, hfree]

-- A value of the scope's own blocks, an inherited one is shadowed, and members of an inherited
-- namespace block like those of an own one.
theorem assign_refused_iff_inherited :
    let outer := ((root false).bind "a" (.bool true)).bind "ns" (.group (.ofList [("x", .text "1")]))
    let env := (outer.push false).bind "b" (.bool true)
    (∀ front w, ¬ env.Blocks ["a", "y"] front w) ∧
      (∃ front w, env.Blocks ["b", "y"] front w) ∧
      (env.assign ["ns", "x", "y", "z"] (.text "2")).1 = .error (.notNamespace "x" .text) ∧
      ∃ front w, env.Blocks ["ns", "x", "y", "z"] front w ∧
        (∀ other u, env.Blocks ["ns", "x", "y", "z"] other u → front.length ≤ other.length) ∧
        front.getLast? = some "x" ∧ ValueType.text = w.type := by
  intro outer env
  obtain ⟨-, -, -, -, hshadowed⟩ := assign_refused_iff env ["a", "y"] (.text "2")
  obtain ⟨-, -, hown, -, -⟩ := assign_refused_iff env ["b", "y"] (.text "2")
  obtain ⟨-, -, -, hinside, -⟩ := assign_refused_iff env ["ns", "x", "y", "z"] (.text "2")
  obtain ⟨-, -, hfree⟩ := hshadowed.mp rfl
  obtain ⟨-, hblocked⟩ := hown.mp ⟨"b", .bool, rfl⟩
  have hrefused :
      (env.assign ["ns", "x", "y", "z"] (.text "2")).1 = .error (.notNamespace "x" .text) := rfl
  exact ⟨hfree, hblocked, hrefused, hinside "x" .text hrefused⟩

end Environment

end ScopedFormulas
