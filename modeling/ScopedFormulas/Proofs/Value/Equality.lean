import Mathlib
import ScopedFormulas.Proofs.Number.Line
import ScopedFormulas.Value.Comparison

namespace ScopedFormulas.Value

inductive SameType : Value → Value → Prop where
  | number (x y : Float) : SameType (.number x) (.number y)
  | text (s t : String) : SameType (.text s) (.text t)
  | bool (b c : Bool) : SameType (.bool b) (.bool c)
  | array (elem : ValueType) (as bs : List Value) : SameType (.array elem as) (.array elem bs)
  | function (f g : Function) : SameType (.function f) (.function g)
  | latitude (x y : Float) : SameType (.latitude x) (.latitude y)
  | longitude (x y : Float) : SameType (.longitude x) (.longitude y)
  | timestamp (t u : Int) : SameType (.timestamp t) (.timestamp u)
  | group (as bs : Namespace) : SameType (.group as) (.group bs)

theorem sameType {a b : Value} (h : a.type = b.type) : SameType a b := by
  cases a <;> cases b <;> cases h <;> constructor

/-- No array in the value, down through the items of arrays, has an item of another type than its
element type. Functions and namespaces have no equality, so what they hold does not matter. -/
inductive Homogeneous : Value → Prop where
  | array {elem : ValueType} {items : List Value} (type : ∀ v ∈ items, v.type = elem)
    (each : ∀ v ∈ items, Homogeneous v) : Homogeneous (.array elem items)
  | other {v : Value} (type : ∀ elem, v.type ≠ .array elem) : Homogeneous v

variable {a b c : Value} {as bs cs : List Value}

theorem equalItems_iff :
    equalItems as bs = true ↔ List.Forall₂ (fun a b => a.equals b = some true) as bs := by
  induction as generalizing bs with
  | nil => cases bs <;> simp [equalItems]
  | cons a as ih =>
    cases bs with
    | nil => simp [equalItems]
    | cons b bs =>
      rw [equalItems, Bool.and_eq_true, ih, List.forall₂_cons]
      cases a.equals b <;> simp

theorem sameItems_iff :
    sameItems as bs = true ↔ List.Forall₂ (fun a b => a.same b = true) as bs := by
  induction as generalizing bs with
  | nil => cases bs <;> simp [sameItems]
  | cons a as ih =>
    cases bs with
    | nil => simp [sameItems]
    | cons b bs => rw [sameItems, Bool.and_eq_true, ih, List.forall₂_cons]

theorem equals_isSome_iff :
    (a.equals b).isSome = true ↔ a.type = b.type ∧ a.type.supportsEq = true := by
  rw [equals.eq_def]
  split
  next h => exact ⟨fun _ => h, fun _ => rfl⟩
  next h => exact ⟨nofun, fun h' => absurd h' h⟩

theorem equals_eq_none (h : ¬ (a.type = b.type ∧ a.type.supportsEq = true)) :
    a.equals b = none := by
  rw [equals.eq_def, if_neg h]

theorem types_of_equals (h : a.equals b = some true) :
    a.type = b.type ∧ a.type.supportsEq = true :=
  equals_isSome_iff.mp (by rw [h]; rfl)

inductive Equals : Value → Value → Prop where
  | number {x y : Float} (h : (x == y) = true) : Equals (.number x) (.number y)
  | text (s : String) : Equals (.text s) (.text s)
  | bool (b : Bool) : Equals (.bool b) (.bool b)
  | array {elem : ValueType} {as bs : List Value} (capable : elem.supportsEq = true)
    (items : List.Forall₂ (fun v w => v.equals w = some true) as bs) :
    Equals (.array elem as) (.array elem bs)
  | latitude {x y : Float} (h : (x == y) = true) : Equals (.latitude x) (.latitude y)
  | longitude {x y : Float} (h : (x == y) = true) : Equals (.longitude x) (.longitude y)
  | timestamp (t : Int) : Equals (.timestamp t) (.timestamp t)

theorem equals_iff : a.equals b = some true ↔ Equals a b := by
  constructor
  · intro h
    obtain ⟨htype, hcapable⟩ := types_of_equals h
    rw [equals.eq_def, if_pos ⟨htype, hcapable⟩, Option.some.injEq] at h
    cases sameType htype with
    | number x y => exact .number h
    | text s t => exact eq_of_beq h ▸ .text s
    | bool b c => exact eq_of_beq h ▸ .bool b
    | array elem as bs => exact .array hcapable (equalItems_iff.mp h)
    | latitude x y => exact .latitude h
    | longitude x y => exact .longitude h
    | timestamp t u => exact eq_of_beq h ▸ .timestamp t
    | function | group => cases h
  · intro h
    cases h with
    | number h | latitude h | longitude h => simpa [equals, type, ValueType.supportsEq] using h
    | text | bool | timestamp => simp [equals, type, ValueType.supportsEq]
    | array capable items => rw [equals, if_pos ⟨rfl, capable⟩, equalItems_iff.mpr items]

theorem type_eq_of_same (h : a.same b = true) : a.type = b.type := by
  cases a <;> cases b <;> simp_all [same, type]

theorem same_array_iff {elem : ValueType} :
    (array elem as).same (array elem bs) = true ↔
      List.Forall₂ (fun a b => a.same b = true) as bs := by
  rw [same, beq_self_eq_true, Bool.true_and, sameItems_iff]

theorem same_of_equals (h : a.equals b = some true) : a.same b = true := by
  induction a generalizing b with
  | array elem items ih =>
    cases equals_iff.mp h with
    | array capable hitems =>
      have hboth := (List.forall₂_and_left _ _).mpr ⟨ih, hitems⟩
      exact same_array_iff.mpr (hboth.imp fun v w hvw => hvw.1 hvw.2)
  | _ => cases equals_iff.mp h <;> simp_all [same]

theorem equals_of_same (ha : a.Homogeneous) (hcapable : a.type.supportsEq = true)
    (h : a.same b = true) : a.equals b = some true := by
  induction ha generalizing b with
  | @array elem items type each ih =>
    cases sameType (type_eq_of_same h) with
    | array _ _ items' =>
      have hboth := (List.forall₂_and_left _ _).mpr ⟨fun v hv => hv, same_array_iff.mp h⟩
      refine equals_iff.mpr (.array hcapable (hboth.imp fun v w hvw => ?_))
      exact ih v hvw.1 (type v hvw.1 ▸ hcapable) hvw.2
  | other type =>
    cases sameType (type_eq_of_same h) with
    | array elem => exact absurd rfl (type elem)
    | function | group => cases hcapable
    | _ => simpa [equals, same, Value.type, ValueType.supportsEq] using h

theorem equals_symm (h : a.equals b = some true) : b.equals a = some true := by
  induction a generalizing b with
  | array elem items ih =>
    cases equals_iff.mp h with
    | array capable hitems =>
      have hboth := (List.forall₂_and_left _ _).mpr ⟨ih, hitems⟩
      exact equals_iff.mpr (.array capable (hboth.imp fun v w hvw => hvw.1 hvw.2).flip)
  | number x | latitude x | longitude x =>
    cases equals_iff.mp h
    next hxy =>
      rw [equals_iff]
      constructor
      exact Number.beq_comm _ _ ▸ hxy
  | _ => cases equals_iff.mp h <;> exact h

theorem forall₂_trans {R S T : Value → Value → Prop} (h : ∀ v w u, R v w → S w u → T v u)
    (hab : List.Forall₂ R as bs) (hbc : List.Forall₂ S bs cs) : List.Forall₂ T as cs := by
  induction hab generalizing cs with
  | nil =>
    cases hbc
    exact .nil
  | cons hvw _ ih =>
    cases hbc with
    | cons hwu hrest => exact .cons (h _ _ _ hvw hwu) (ih hrest)

theorem equals_trans (hab : a.equals b = some true) (hbc : b.equals c = some true) :
    a.equals c = some true := by
  induction a generalizing b c with
  | array elem items ih =>
    cases equals_iff.mp hab with
    | array capable hitems =>
      cases equals_iff.mp hbc with
      | array _ hitems' =>
        have hboth := (List.forall₂_and_left _ _).mpr ⟨ih, hitems⟩
        refine equals_iff.mpr (.array capable (forall₂_trans ?_ hboth hitems'))
        exact fun v w u hvw hwu => hvw.1 hvw.2 hwu
  | number x | latitude x | longitude x =>
    cases equals_iff.mp hab
    next hxy =>
      cases equals_iff.mp hbc
      next hyz =>
        rw [equals_iff]
        constructor
        exact Number.beq_trans hxy hyz
  | _ => cases equals_iff.mp hab <;> exact hbc

theorem equals_of_types (h : a.type = b.type ∧ a.type.supportsEq = true) :
    a.equals b = some (a.equals b == some true) := by
  obtain ⟨r, hr⟩ := Option.isSome_iff_exists.mp (equals_isSome_iff.mpr h)
  rw [hr]
  cases r <;> rfl

theorem equals_comm (a b : Value) : a.equals b = b.equals a := by
  by_cases h : a.type = b.type ∧ a.type.supportsEq = true
  · have h' : b.type = a.type ∧ b.type.supportsEq = true := ⟨h.1.symm, h.1 ▸ h.2⟩
    rw [equals_of_types h, equals_of_types h', Option.some.injEq, Bool.eq_iff_iff, beq_iff_eq,
      beq_iff_eq]
    exact ⟨equals_symm, equals_symm⟩
  · have h' : ¬ (b.type = a.type ∧ b.type.supportsEq = true) :=
      fun hba => h ⟨hba.1.symm, hba.1 ▸ hba.2⟩
    rw [equals_eq_none h, equals_eq_none h']

theorem equals_of_homogeneous (ha : a.Homogeneous) :
    a.equals b =
      if a.type = b.type ∧ a.type.supportsEq = true then some (a.same b) else none := by
  split
  next h =>
    rw [equals_of_types h, Option.some.injEq, Bool.eq_iff_iff, beq_iff_eq]
    exact ⟨same_of_equals, equals_of_same ha h.2⟩
  next h => exact equals_eq_none h

theorem equals_refines_same (a b : Value) :
    (a.equals b = some true → a.same b = true) ∧
      (a.Homogeneous → a.equals b =
        if a.type = b.type ∧ a.type.supportsEq = true then some (a.same b) else none) ∧
      a.equals b = b.equals a ∧
      ∀ c, a.equals b = some true → b.equals c = some true → a.equals c = some true :=
  ⟨same_of_equals, equals_of_homogeneous, equals_comm a b, fun _ => equals_trans⟩

-- The rows are equal although their zeros differ in sign.
theorem equals_refines_same_nested :
    let rows (x : Float) : Value :=
      .array (.array .number) [.array .number [.number x, .number 1], .array .number []]
    let a := rows 0
    let b := rows (-0)
    a.Homogeneous ∧ a.equals b = some true ∧ a.same b = true ∧ b.equals a = some true ∧
      a.equals a = some true ∧ a.equals (.array .number []) = none := by
  intro rows a b
  have hnumber : ∀ x, (Value.number x).Homogeneous := fun x => .other nofun
  have hrow : (Value.array .number [.number 0, .number 1]).Homogeneous :=
    .array (by simp [type]) (by simp [hnumber])
  have hempty : (Value.array .number []).Homogeneous := .array nofun nofun
  have ha : a.Homogeneous := .array (by simp [type]) (by simp [hrow, hempty])
  have hab : a.equals b = some true := by decide +kernel
  obtain ⟨hsame, -, hcomm, htrans⟩ := equals_refines_same a b
  have hba : b.equals a = some true := hcomm ▸ hab
  obtain ⟨-, hhomogeneous, -⟩ := equals_refines_same a (.array .number [])
  exact ⟨ha, hab, hsame hab, hba, htrans a hab hba, hhomogeneous ha⟩

example :
    let v := Value.array .number [.function (.plain "f" ⟨0⟩)]
    v.same v = true ∧ v.equals v = some false := by decide +kernel

end ScopedFormulas.Value
