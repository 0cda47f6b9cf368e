import Mathlib
import ScopedFormulas.Proofs.Operator.Typing
import ScopedFormulas.Proofs.Value.Equality

namespace ScopedFormulas

def OrderOp.Relates {α : Type} [LinearOrder α] : OrderOp → α → α → Prop
  | lt, a, b => a < b
  | le, a, b => a ≤ b
  | gt, a, b => b < a
  | ge, a, b => b ≤ a

section Relates

variable {α : Type} [LinearOrder α] {op : OrderOp} {a b c : α}

theorem OrderOp.holds_cmp_iff : op.holds (cmp a b) = true ↔ op.Relates a b := by
  rcases lt_trichotomy a b with h | rfl | h
  · rw [(cmp_eq_lt_iff a b).mpr h]
    cases op <;> simp [holds, Relates, h, h.le, h.not_gt]
  · rw [cmp_self_eq_eq]
    cases op <;> simp [holds, Relates]
  · rw [(cmp_eq_gt_iff a b).mpr h]
    cases op <;> simp [holds, Relates, h, h.le, h.not_gt]

theorem OrderOp.Relates.trans (hab : op.Relates a b) (hbc : op.Relates b c) : op.Relates a c := by
  cases op with
  | lt => exact lt_trans hab hbc
  | le => exact le_trans hab hbc
  | gt => exact lt_trans hbc hab
  | ge => exact le_trans hbc hab

end Relates

namespace Value

def isNaN : Value → Bool
  | number x | latitude x | longitude x => x.isNaN
  | _ => false

/-- One line for all types. Where values of different types stand to each other does not matter. -/
abbrev Place := Number.Place ⊕ₗ String ⊕ₗ Int

namespace Place

def ofNumber (p : Number.Place) : Place := toLex (.inl p)

def ofText (s : String) : Place := toLex (.inr (toLex (.inl s)))

def ofTimestamp (t : Int) : Place := toLex (.inr (toLex (.inr t)))

theorem ofNumber_strictMono : StrictMono ofNumber := fun _ _ h => Sum.Lex.inl_lt_inl_iff.mpr h

theorem ofText_strictMono : StrictMono ofText := fun _ _ h =>
  Sum.Lex.inr_lt_inr_iff.mpr (Sum.Lex.inl_lt_inl_iff.mpr h)

theorem ofTimestamp_strictMono : StrictMono ofTimestamp := fun _ _ h =>
  Sum.Lex.inr_lt_inr_iff.mpr (Sum.Lex.inr_lt_inr_iff.mpr h)

end Place

def place? : Value → Option Place
  | number x | latitude x | longitude x => (Number.place? x).map .ofNumber
  | text s => some (.ofText s)
  | timestamp t => some (.ofTimestamp t)
  | _ => none

variable {a b : Value}

theorem place?_eq_none_iff (h : a.type.supportsOrd = true) :
    a.place? = none ↔ a.isNaN = true := by
  cases a with
  | number x | latitude x | longitude x =>
    exact Option.map_eq_none_iff.trans Number.place?_eq_none_iff
  | text | timestamp => exact ⟨nofun, nofun⟩
  | _ => cases h

theorem comparePlaces_place?_eq_none_iff (htype : a.type = b.type)
    (hord : a.type.supportsOrd = true) :
    comparePlaces a.place? b.place? = none ↔ a.isNaN = true ∨ b.isNaN = true := by
  rw [comparePlaces_eq_none_iff, place?_eq_none_iff hord, place?_eq_none_iff (htype ▸ hord)]

theorem compare?_eq (htype : a.type = b.type) (hord : a.type.supportsOrd = true) :
    a.compare? b = comparePlaces a.place? b.place? := by
  rw [compare?.eq_def, if_pos ⟨htype, hord⟩]
  cases sameType htype with
  | number x y | latitude x y | longitude x y =>
    exact (Number.compareNumbers_eq x y).trans
      (comparePlaces_map Place.ofNumber_strictMono _ _).symm
  | text s t =>
    exact congrArg some ((cmp_eq_compare s t).symm.trans
      (Place.ofText_strictMono.cmp_map_eq s t).symm)
  | timestamp t u =>
    exact congrArg some ((cmp_eq_compare t u).symm.trans
      (Place.ofTimestamp_strictMono.cmp_map_eq t u).symm)
  | _ => cases hord

theorem beq_eq_of_strictMono {α : Type} [LinearOrder α] [BEq α] [LawfulBEq α] {f : α → Place}
    (hf : StrictMono f) (x y : α) :
    (x == y) = (comparePlaces (some (f x)) (some (f y)) == some .eq) := by
  rw [Bool.eq_iff_iff, beq_iff_eq, beq_iff_eq, ← cmp_eq_eq_iff, ← hf.cmp_map_eq]
  exact Option.some_inj.symm

theorem equals_eq (htype : a.type = b.type) (hord : a.type.supportsOrd = true) :
    a.equals b = some (comparePlaces a.place? b.place? == some .eq) := by
  have heq := ValueType.supportsEq_of_supportsOrd hord
  rw [equals.eq_def, if_pos ⟨htype, heq⟩, Option.some.injEq]
  cases sameType htype with
  | number x y | latitude x y | longitude x y =>
    rw [place?, place?, comparePlaces_map Place.ofNumber_strictMono]
    exact Bool.eq_iff_iff.mpr (Number.beq_iff.trans beq_iff_eq.symm)
  | text s t => exact beq_eq_of_strictMono Place.ofText_strictMono s t
  | timestamp t u => exact beq_eq_of_strictMono Place.ofTimestamp_strictMono t u
  | _ => cases hord

end Value

namespace BinaryOp

def Tells (op : BinaryOp) (l r : Value) (b : Bool) : Prop := op.eval l r = .ok (.bool b)

def Declines (op : BinaryOp) (l r : Value) : Prop :=
  ∃ symbol expected actual, op.eval l r = .error (.argumentType symbol expected actual)

variable {op : BinaryOp} {a b c : Value}

theorem declines_iff : op.Declines a b ↔ op.type? a.type b.type = none := by
  have h := op.eval_outcome a b
  rw [Declines]
  generalize op.eval a b = outcome at h ⊢
  cases h with
  | declined hnone => exact ⟨fun _ => hnone, fun _ => ⟨_, _, _, rfl⟩⟩
  | value accepted | trap accepted => simp [accepted]

theorem order_declines_iff {op : OrderOp} :
    (order op).Declines a b ↔ ¬ (a.type = b.type ∧ a.type.supportsOrd = true) := by
  rw [declines_iff]
  simp [type?]

theorem order_tells {op : OrderOp} (htype : a.type = b.type) (hord : a.type.supportsOrd = true) :
    (order op).Tells a b ((comparePlaces a.place? b.place?).any op.holds) := by
  rw [Tells, eval, result?, if_pos ⟨htype, hord⟩, Value.compare?_eq htype hord]

theorem eq_tells (htype : a.type = b.type) (hord : a.type.supportsOrd = true) :
    eq.Tells a b (comparePlaces a.place? b.place? == some .eq) := by
  rw [Tells, eval, result?, Value.equals_eq htype hord]
  rfl

theorem ne_tells {r : Bool} (h : eq.Tells a b r) : ne.Tells a b !r := by
  simp only [Tells, eval, result?] at h ⊢
  cases hequals : a.equals b with
  | none =>
    rw [hequals] at h
    cases h
  | some x =>
    rw [hequals] at h
    cases h
    rfl

theorem order_tells_iff {op : OrderOp} :
    (order op).Tells a b true ↔ a.type = b.type ∧ a.type.supportsOrd = true ∧
      ∃ p q, a.place? = some p ∧ b.place? = some q ∧ op.Relates p q := by
  by_cases h : a.type = b.type ∧ a.type.supportsOrd = true
  · have htells : (order op).Tells a b _ := order_tells h.1 h.2
    rw [Tells] at htells ⊢
    rw [htells]
    have hvalue : ∀ r, (Except.ok (.bool r) : Except EvalError Value) = .ok (.bool true) ↔
        r = true := by simp
    rw [hvalue, and_iff_right h.1, and_iff_right h.2]
    cases a.place? <;> cases b.place? <;> simp [comparePlaces, OrderOp.holds_cmp_iff]
  · obtain ⟨_, _, _, herror⟩ := order_declines_iff.mpr h
    rw [Tells, herror]
    constructor
    · intro htells
      cases htells
    · rintro ⟨htype, hord, -⟩
      exact absurd ⟨htype, hord⟩ h

theorem order_tells_trans {op : OrderOp} (hab : (order op).Tells a b true)
    (hbc : (order op).Tells b c true) : (order op).Tells a c true := by
  rw [order_tells_iff] at hab hbc ⊢
  obtain ⟨hab, hord, p, q, hp, hq, hpq⟩ := hab
  obtain ⟨hbc, -, q', r, hq', hr, hqr⟩ := hbc
  cases hq.symm.trans hq'
  exact ⟨hab.trans hbc, hord, p, r, hp, hr, hpq.trans hqr⟩

structure Verdict (a b : Value) (below level above : Bool) : Prop where
  lt : (order .lt).Tells a b below
  eq : BinaryOp.eq.Tells a b level
  gt : (order .gt).Tells a b above
  le : (order .le).Tells a b (below || level)
  ge : (order .ge).Tells a b (above || level)
  ne : BinaryOp.ne.Tells a b !level

theorem verdict (htype : a.type = b.type) (hord : a.type.supportsOrd = true) :
    Verdict a b (comparePlaces a.place? b.place? == some .lt)
      (comparePlaces a.place? b.place? == some .eq)
      (comparePlaces a.place? b.place? == some .gt) := by
  have horder : ∀ op, (order op).Tells a b _ := fun _ => order_tells htype hord
  have heq := eq_tells htype hord
  have hne := ne_tells heq
  generalize comparePlaces a.place? b.place? = o at horder heq hne ⊢
  match o with
  | none | some .lt | some .eq | some .gt =>
    exact ⟨horder .lt, heq, horder .gt, horder .le, horder .ge, hne⟩

theorem verdict_swap (htype : a.type = b.type) (hord : a.type.supportsOrd = true) :
    Verdict b a (comparePlaces a.place? b.place? == some .gt)
      (comparePlaces a.place? b.place? == some .eq)
      (comparePlaces a.place? b.place? == some .lt) := by
  have h := verdict htype.symm (htype ▸ hord)
  rw [comparePlaces_swap a.place? b.place?] at h
  generalize comparePlaces a.place? b.place? = o at h ⊢
  match o with
  | none | some .lt | some .eq | some .gt => exact h

theorem comparisons_coherent :
    (∀ a b : Value, a.type = b.type → a.type.supportsOrd = true →
      ∃ below level above, Verdict a b below level above ∧ Verdict b a above level below ∧
        (a.isNaN = false → b.isNaN = false → [below, level, above].count true = 1) ∧
        (a.isNaN = true ∨ b.isNaN = true →
          (∀ op : OrderOp, (order op).Tells a b false) ∧ BinaryOp.eq.Tells a b false ∧
            BinaryOp.ne.Tells a b true)) ∧
    (∀ (op : OrderOp) (a b c : Value), (order op).Tells a b true → (order op).Tells b c true →
      (order op).Tells a c true) ∧
    ∀ a b : Value,
      (∀ op op' : OrderOp, (order op).Declines a b → (order op').Declines a b) ∧
      (BinaryOp.eq.Declines a b ↔ BinaryOp.ne.Declines a b) ∧
      (∀ r, BinaryOp.eq.Tells a b r → BinaryOp.ne.Tells a b !r) ∧
      ∀ op : OrderOp, ¬ (order op).Declines a b →
        ∃ below level above, Verdict a b below level above := by
  refine ⟨fun a b htype hord => ?_, fun op a b c => order_tells_trans,
    fun a b => ⟨?_, ?_, fun r => ne_tells, ?_⟩⟩
  · refine ⟨_, _, _, verdict htype hord, verdict_swap htype hord, ?_, ?_⟩
    · intro ha hb
      have hplaces := (Value.comparePlaces_place?_eq_none_iff htype hord).not
      rw [ha, hb] at hplaces
      generalize comparePlaces a.place? b.place? = o at hplaces ⊢
      match o with
      | none => exact absurd rfl (hplaces.mpr nofun)
      | some .lt | some .eq | some .gt => rfl
    · intro hnan
      have hnone := (Value.comparePlaces_place?_eq_none_iff htype hord).mpr hnan
      have horder : ∀ op, (order op).Tells a b _ := fun _ => order_tells htype hord
      have heq := eq_tells htype hord
      have hne := ne_tells heq
      rw [hnone] at horder heq hne
      exact ⟨horder, heq, hne⟩
  · intro op op' hdeclines
    rw [order_declines_iff] at hdeclines ⊢
    exact hdeclines
  · rw [declines_iff, declines_iff]
    rfl
  · intro op haccepted
    rw [order_declines_iff, not_not] at haccepted
    exact ⟨_, _, _, verdict haccepted.1 haccepted.2⟩

-- A NaN is at no place, not even at its own, and the two zeros are at the same one.
theorem comparisons_coherent_longitudes :
    let nan := Value.longitude (0 / 0)
    let west := Value.longitude (-1)
    let east := Value.longitude 1
    let greenwich := Value.longitude (-0)
    (∀ op : OrderOp, (order op).Tells nan east false) ∧ BinaryOp.ne.Tells nan east true ∧
      (order .lt).Tells west greenwich true ∧ (order .lt).Tells greenwich east true ∧
      (order .lt).Tells west east true ∧ ¬ (order .ge).Declines nan nan ∧
      (∃ below level above, Verdict nan nan below level above) ∧
      (∃ below level above, Verdict greenwich (.longitude 0) below level above ∧
        [below, level, above].count true = 1) ∧
      (order .lt).Declines east (.number 1) ∧ (order .ge).Declines east (.number 1) := by
  intro nan west east greenwich
  obtain ⟨hverdict, htrans, hdeclined⟩ := comparisons_coherent
  have hnan : nan.isNaN = true := by decide +kernel
  obtain ⟨_, _, _, -, -, -, hfalse⟩ := hverdict nan east rfl rfl
  obtain ⟨horder, -, hne⟩ := hfalse (.inl hnan)
  have hwest : (order .lt).Tells west greenwich true := rfl
  have heast : (order .lt).Tells greenwich east true := rfl
  have haccepted : ¬ (order .ge).Declines nan nan := fun h => order_declines_iff.mp h ⟨rfl, rfl⟩
  obtain ⟨below, level, above, hsame, -, hone, -⟩ := hverdict greenwich (.longitude 0) rfl rfl
  have hlt : (order .lt).Declines east (.number 1) := ⟨_, _, _, rfl⟩
  exact ⟨horder, hne, hwest, heast, htrans .lt west greenwich east hwest heast, haccepted,
    (hdeclined nan nan).2.2.2 .ge haccepted,
    ⟨below, level, above, hsame, hone (by decide +kernel) (by decide +kernel)⟩,
    hlt, (hdeclined east (.number 1)).1 .lt .ge hlt⟩

end BinaryOp

end ScopedFormulas
