import Mathlib
import ScopedFormulas.Value.Comparison

namespace ScopedFormulas

section Places

variable {α β : Type} [LinearOrder α] [LinearOrder β]

def comparePlaces (p q : Option α) : Option Ordering := p.bind fun a => q.map fun b => cmp a b

variable {p q : Option α}

theorem comparePlaces_swap (p q : Option α) :
    comparePlaces q p = (comparePlaces p q).map Ordering.swap := by
  cases p with
  | none => cases q <;> rfl
  | some a =>
    cases q with
    | none => rfl
    | some b => exact congrArg some (cmp_swap a b).symm

theorem comparePlaces_map {f : α → β} (hf : StrictMono f) (p q : Option α) :
    comparePlaces (p.map f) (q.map f) = comparePlaces p q := by
  cases p with
  | none => rfl
  | some a =>
    cases q with
    | none => rfl
    | some b => exact congrArg some (hf.cmp_map_eq a b)

theorem comparePlaces_eq_none_iff : comparePlaces p q = none ↔ p = none ∨ q = none := by
  cases p <;> cases q <;> simp [comparePlaces]

theorem comparePlaces_eq_some_iff {o : Ordering} :
    comparePlaces p q = some o ↔ ∃ a b, p = some a ∧ q = some b ∧ cmp a b = o := by
  cases p <;> cases q <;> simp [comparePlaces]

theorem comparePlaces_eq_iff :
    comparePlaces p q = some .eq ↔ ∃ a, p = some a ∧ q = some a := by
  rw [comparePlaces_eq_some_iff]
  constructor
  · rintro ⟨a, b, hp, hq, hcmp⟩
    obtain rfl := (cmp_eq_eq_iff a b).mp hcmp
    exact ⟨a, hp, hq⟩
  · rintro ⟨a, hp, hq⟩
    exact ⟨a, a, hp, hq, cmp_self_eq_eq a⟩

end Places

namespace Number

open Float.Model UnpackedFloat

/-- The outermost part is the side of zero, with the infinities outside, and then come the exponent
and the mantissa, negated left of zero. -/
abbrev Place := Int ×ₗ Int ×ₗ Int

namespace Place

def of (side exponent mantissa : Int) : Place := toLex (side, toLex (exponent, mantissa))

variable {side side' : Int} (e m e' m' : Int)

theorem cmp_of :
    cmp (of side e m) (of side' e' m') = (cmp side side').then ((cmp e e').then (cmp m m')) := by
  simp [of, cmp_eq_compare, Prod.Lex.compare_def, compareLex, compareOn]

theorem cmp_of_lt (h : side < side') : cmp (of side e m) (of side' e' m') = .lt := by
  rw [cmp_of, (cmp_eq_lt_iff side side').mpr h]
  rfl

theorem cmp_of_gt (h : side' < side) : cmp (of side e m) (of side' e' m') = .gt := by
  rw [cmp_of, (cmp_eq_gt_iff side side').mpr h]
  rfl

theorem cmp_of_same :
    cmp (of side e m) (of side e' m') = (cmp e e').then (cmp m m') := by
  rw [cmp_of, cmp_self_eq_eq]
  rfl

end Place

def unpackedPlace? : UnpackedFloat → Option Place
  | notANumber => none
  | zero _ => some (.of 0 0 0)
  | finite sign m e _ => some (.of (sign.apply 1) (sign.apply e) (sign.apply m))
  | infinity sign => some (.of (sign.apply 2) 0 0)

theorem compare_sign (s t : Sign) :
    compare s t = cmp (Place.of (s.apply 2) 0 0) (Place.of (t.apply 2) 0 0) := by
  cases s <;> cases t <;> rfl

theorem compare_eq (a b : UnpackedFloat) :
    a.compare b = comparePlaces (unpackedPlace? a) (unpackedPlace? b) := by
  have hcast : ∀ m n : Nat, compare m n = cmp (m : Int) n := fun m n =>
    (cmp_eq_compare m n).symm.trans (Nat.strictMono_cast.cmp_map_eq m n).symm
  have hneg : ∀ i j : Int, cmp (-i) (-j) = (cmp i j).swap := fun i j =>
    (StrictAnti.cmp_map_eq (fun _ _ h => Int.neg_lt_neg h) i j).trans (cmp_swap i j).symm
  rcases a with ⟨_ | _⟩ | _ | _ | ⟨_ | _, m, e, hm⟩ <;>
  rcases b with ⟨_ | _⟩ | _ | _ | ⟨_ | _, m', e', hm'⟩ <;>
  simp [comparePlaces, unpackedPlace?, UnpackedFloat.compare, compare_sign, Sign.apply, hcast, hneg,
    Place.cmp_of_lt, Place.cmp_of_gt, Place.cmp_of_same, ← cmp_eq_compare, Ordering.swap_then]

def place? (x : Float) : Option Place := unpackedPlace? x.toModel.unpack

theorem place?_eq_none_iff {x : Float} : place? x = none ↔ x.isNaN = true := by
  change unpackedPlace? x.toModel.unpack = none ↔ x.toModel.unpack.isNaN = true
  cases x.toModel.unpack <;> simp [unpackedPlace?, UnpackedFloat.isNaN]

theorem lt_iff {x y : Float} : x < y ↔ comparePlaces (place? x) (place? y) = some .lt := by
  rw [place?, place?, ← compare_eq]
  change decide ((x.toModel.unpack.compare y.toModel.unpack == some .lt) = true) = true ↔ _
  rw [decide_eq_true_iff, beq_iff_eq]

theorem beq_iff {x y : Float} :
    (x == y) = true ↔ comparePlaces (place? x) (place? y) = some .eq := by
  rw [place?, place?, ← compare_eq]
  change (x.toModel.unpack.compare y.toModel.unpack == some .eq) = true ↔ _
  rw [beq_iff_eq]

theorem compareNumbers_eq (x y : Float) :
    Value.compareNumbers x y = comparePlaces (place? x) (place? y) := by
  rw [Value.compareNumbers]
  simp only [lt_iff, beq_iff, comparePlaces_swap (place? x) (place? y)]
  generalize comparePlaces (place? x) (place? y) = o
  match o with
  | none | some .lt | some .eq | some .gt => rfl

theorem beq_comm (x y : Float) : (x == y) = (y == x) := by
  rw [Bool.eq_iff_iff, beq_iff, beq_iff, comparePlaces_eq_iff, comparePlaces_eq_iff]
  exact exists_congr fun _ => and_comm

theorem beq_trans {x y z : Float} (hxy : (x == y) = true) (hyz : (y == z) = true) :
    (x == z) = true := by
  rw [beq_iff, comparePlaces_eq_iff] at hxy hyz ⊢
  obtain ⟨a, hx, hy⟩ := hxy
  obtain ⟨b, hy', hz⟩ := hyz
  cases hy.symm.trans hy'
  exact ⟨a, hx, hz⟩

end Number

end ScopedFormulas
