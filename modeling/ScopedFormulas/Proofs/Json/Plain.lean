import ScopedFormulas.Json.Text
import ScopedFormulas.Proofs.Json.Numerals

namespace ScopedFormulas

namespace Numeral

theorem isDigit_of_mem_toDigits {n : Nat} {c : Char} (h : c ∈ Nat.toDigits 10 n) :
    c.isDigit = true :=
  Nat.isDigit_of_mem_toDigits (by decide) (by decide) h

theorem chars_ofNat (n : Nat) : (ofNat n).chars = Nat.toDigits 10 n := by simp [chars, ofNat]

theorem natural?_ofNat (n : Nat) : (ofNat n).natural? = some n := by
  have h := Nat.ofDigitChars_ten_toDigits (n := n)
  rw [Nat.ofDigitChars_eq_foldl] at h
  exact congrArg some h

theorem head?_toDigits {n : Nat} (hn : 0 < n) : (Nat.toDigits 10 n).head? ≠ some '0' := by
  induction n using Nat.strong_induction_on with
  | _ n ih =>
    by_cases hlt : n < 10
    · rw [Nat.toDigits_of_lt_base hlt]
      have hdigit : ∀ d < 10, 0 < d → [d.digitChar].head? ≠ some '0' := by decide
      exact hdigit n hlt hn
    · rw [Nat.toDigits_of_base_le (by decide) (by omega),
        List.head?_append_of_ne_nil _ Nat.toDigits_ne_nil]
      exact ih (n / 10) (by omega) (by omega)

theorem digits_toDigits (n : Nat) : Digits (Nat.toDigits 10 n) :=
  ⟨Nat.toDigits_ne_nil, fun _ => isDigit_of_mem_toDigits⟩

theorem written_ofNat (n : Nat) : (ofNat n).Written (Nat.toDigits 10 n) := by
  have hzero : (Nat.toDigits 10 n).head? = some '0' → Nat.toDigits 10 n = ['0'] := by
    rcases Nat.eq_zero_or_pos n with rfl | hn
    · exact fun _ => rfl
    · exact fun h => absurd h (head?_toDigits hn)
  simpa [sign, ofNat] using Written.mk false (digits_toDigits n) hzero .none .none

theorem absorb_eq {digits : List Char} {value : Nat}
    (h : Nat.ofDigitChars 10 digits value < UInt64.size) :
    absorb value digits = (Nat.ofDigitChars 10 digits value, digits.length) := by
  induction digits generalizing value with
  | nil => rfl
  | cons c cs ih =>
    rw [Nat.ofDigitChars_cons] at h
    have hlonger : 10 * value + digitValue c < UInt64.size := by
      refine Nat.lt_of_le_of_lt ?_ h
      rw [Nat.ofDigitChars_eq_ofDigitChars_zero]
      have hpow : 1 ≤ 10 ^ cs.length := Nat.one_le_pow' cs.length 9
      exact Nat.le_add_right_of_le (Nat.le_mul_of_pos_left _ hpow)
    have hrest : absorb (10 * value + digitValue c) cs = _ := ih h
    rw [absorb, if_pos hlonger, hrest]
    rfl

theorem inRange_ofNat {n : Nat} (h : n < UInt64.size) : (ofNat n).inRange = true := by
  have hvalue : Nat.ofDigitChars 10 (Nat.toDigits 10 n) 0 = n := Nat.ofDigitChars_ten_toDigits
  have hdigits : absorb 0 (Nat.toDigits 10 n) = (n, (Nat.toDigits 10 n).length) := by
    rw [absorb_eq (hvalue.symm ▸ h), hvalue]
  simp [inRange, ofNat, hdigits, absorb]

end Numeral

namespace Json

inductive Plain : Json → Prop
  | null : Plain null
  | bool (b : Bool) : Plain (bool b)
  | natural {n : Nat} (small : n < UInt64.size) : Plain (ofNat n)
  | text (s : String) : Plain (ofText s)
  | array {items : List Json} (items_plain : ∀ j ∈ items, Plain j) : Plain (array items)
  | object {members : List (Option String × Json)} (named : ∀ m ∈ members, m.1.isSome = true)
      (contents_plain : ∀ m ∈ members, Plain m.2) : Plain (object members)

mutual

def depth : Json → Nat
  | null | bool _ | number _ | string _ => 0
  | array items => itemsDepth items + 1
  | object members => membersDepth members + 1

def itemsDepth : List Json → Nat
  | [] => 0
  | j :: rest => max j.depth (itemsDepth rest)

def membersDepth : List (Option String × Json) → Nat
  | [] => 0
  | (_, j) :: rest => max j.depth (membersDepth rest)

end

theorem itemsDepth_le_iff {items : List Json} {n : Nat} :
    itemsDepth items ≤ n ↔ ∀ j ∈ items, j.depth ≤ n := by
  induction items with
  | nil => simp [itemsDepth]
  | cons j rest ih => rw [itemsDepth, Nat.max_le, ih, List.forall_mem_cons]

theorem membersDepth_le_iff {members : List (Option String × Json)} {n : Nat} :
    membersDepth members ≤ n ↔ ∀ m ∈ members, m.2.depth ≤ n := by
  induction members with
  | nil => simp [membersDepth]
  | cons m rest ih => rw [membersDepth, Nat.max_le, ih, List.forall_mem_cons]

namespace Limits

variable {limits : Limits}

theorem admitsItems_eq (depth : Nat) (items : List Json) :
    limits.admitsItems depth items = items.all (limits.admitsWithin depth) := by
  induction items with
  | nil => rfl
  | cons j rest ih => rw [admitsItems, ih, List.all_cons]

theorem admitsMembers_eq (depth : Nat) (members : List (Option String × Json)) :
    limits.admitsMembers depth members =
      members.all fun m => m.1.isSome && limits.admitsWithin depth m.2 := by
  induction members with
  | nil => rfl
  | cons m rest ih => rw [admitsMembers, ih, List.all_cons]

def TakesNaturals (limits : Limits) : Prop :=
  ∀ n < UInt64.size, limits.inRange (.ofNat n) = true

theorem admitsWithin_iff (hlimits : limits.TakesNaturals) {j : Json} (hj : j.Plain) {depth : Nat} :
    limits.admitsWithin depth j = true ↔ j.depth ≤ depth := by
  induction hj generalizing depth with
  | null | bool b | text s => simp [admitsWithin, Json.depth, ofText]
  | natural small => simp [admitsWithin, Json.depth, ofNat, hlimits _ small]
  | array items_plain ih =>
    cases depth with
    | zero => simp [admitsWithin, Json.depth]
    | succ depth =>
      rw [admitsWithin, admitsItems_eq, List.all_eq_true, Json.depth, Nat.succ_le_succ_iff,
        itemsDepth_le_iff]
      exact forall₂_congr fun j hj => ih j hj
  | object named contents_plain ih =>
    cases depth with
    | zero => simp [admitsWithin, Json.depth]
    | succ depth =>
      rw [admitsWithin, admitsMembers_eq, List.all_eq_true, Json.depth, Nat.succ_le_succ_iff,
        membersDepth_le_iff]
      refine forall₂_congr fun m hm => ?_
      rw [named m hm, Bool.true_and]
      exact ih m hm

theorem admits_iff (hlimits : limits.TakesNaturals) {j : Json} (hj : j.Plain) :
    limits.admits j = true ↔ j.depth ≤ limits.depth := admitsWithin_iff hlimits hj

theorem takesNaturals_standard : standard.TakesNaturals := fun _ => Numeral.inRange_ofNat

end Limits

end Json

end ScopedFormulas
