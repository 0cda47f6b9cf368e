import ScopedFormulas.Json.Token
import Mathlib.Data.List.Basic
import Mathlib.Data.List.TakeWhile

namespace ScopedFormulas.Numeral

def Digits (cs : List Char) : Prop := cs ≠ [] ∧ ∀ c ∈ cs, c.isDigit = true

def sign (negative : Bool) : List Char := if negative then ['-'] else []

inductive Places : List Char → List Char → Prop
  | none : Places [] []
  | some {digits : List Char} (h : Digits digits) : Places ('.' :: digits) digits

inductive Power : List Char → Option Int → Prop
  | none : Power [] .none
  | unsigned {mark : Char} {digits : List Char} (hmark : mark = 'e' ∨ mark = 'E')
    (h : Digits digits) : Power (mark :: digits) (.some (Nat.ofDigitChars 10 digits 0))
  | plus {mark : Char} {digits : List Char} (hmark : mark = 'e' ∨ mark = 'E')
    (h : Digits digits) : Power (mark :: '+' :: digits) (.some (Nat.ofDigitChars 10 digits 0))
  | minus {mark : Char} {digits : List Char} (hmark : mark = 'e' ∨ mark = 'E')
    (h : Digits digits) :
    Power (mark :: '-' :: digits) (.some (-(Nat.ofDigitChars 10 digits 0 : Int)))

inductive Written : List Char → Numeral → Prop
  | mk (negative : Bool) {whole places power fraction : List Char} {exponent : Option Int}
    (hwhole : Digits whole) (hzero : whole.head? = some '0' → whole = ['0'])
    (hplaces : Places places fraction) (hpower : Power power exponent) :
    Written (sign negative ++ whole ++ places ++ power) ⟨negative, whole, fraction, exponent⟩

theorem Digits.exists_cons {cs : List Char} (h : Digits cs) :
    ∃ c rest, cs = c :: rest ∧ c.isDigit = true := by
  obtain ⟨c, rest, rfl⟩ := List.exists_cons_of_ne_nil h.1
  exact ⟨c, rest, rfl, h.2 c List.mem_cons_self⟩

theorem Written.exists_cons {cs : List Char} {n : Numeral} (h : Written cs n) :
    ∃ c rest, cs = c :: rest ∧ (c = '-' ∨ c.isDigit = true) := by
  cases h with
  | mk negative hwhole hzero hplaces hpower =>
    cases negative with
    | true => exact ⟨'-', _, rfl, .inl rfl⟩
    | false =>
      obtain ⟨c, rest, rfl, hc⟩ := hwhole.exists_cons
      exact ⟨c, _, rfl, .inr hc⟩

theorem Digits.takeWhile_append {digits : List Char} (h : Digits digits) (rest : List Char) :
    (digits ++ rest).takeWhile Char.isDigit = digits ++ rest.takeWhile Char.isDigit :=
  List.takeWhile_append_of_pos h.2

theorem Digits.dropWhile_append {digits : List Char} (h : Digits digits) (rest : List Char) :
    (digits ++ rest).dropWhile Char.isDigit = rest.dropWhile Char.isDigit :=
  List.dropWhile_append_of_pos h.2

theorem Power.takeWhile {power : List Char} {exponent : Option Int} (h : Power power exponent) :
    power.takeWhile Char.isDigit = [] := by
  cases h with
  | none => rfl
  | unsigned hmark _ | plus hmark _ | minus hmark _ => rcases hmark with rfl | rfl <;> rfl

theorem Power.dropWhile {power : List Char} {exponent : Option Int} (h : Power power exponent) :
    power.dropWhile Char.isDigit = power := by
  cases h with
  | none => rfl
  | unsigned hmark _ | plus hmark _ | minus hmark _ => rcases hmark with rfl | rfl <;> rfl

theorem digits_iff {digits : List Char} :
    (digits.isEmpty || !digits.all Char.isDigit) = false ↔ Digits digits := by
  simp [Digits]

theorem power_of_exponent? {power : List Char} {exponent : Option Int}
    (h : exponent? power = some exponent) : Power power exponent := by
  unfold exponent? at h
  split at h
  · cases h
    exact .none
  · split at h
    next hmark =>
      split at h
      next hsigned =>
        split at h
        · cases h
        next hdigits =>
          have hall := digits_iff.mp (Bool.eq_false_iff.mpr hdigits)
          split at hsigned <;> cases hsigned <;> cases h
          · exact .minus hmark hall
          · exact .plus hmark hall
          · exact .unsigned hmark hall
    · cases h

theorem Power.exponent? {power : List Char} {exponent : Option Int} (h : Power power exponent) :
    Numeral.exponent? power = some exponent := by
  cases h with
  | none => rfl
  | plus hmark h | minus hmark h =>
    rw [Numeral.exponent?, if_pos hmark, digits_iff.mpr h]
    rfl
  | @unsigned mark digits hmark h =>
    have hsign : ∀ c rest, digits = c :: rest → c.isDigit = true := by
      rintro c rest rfl
      exact h.2 c List.mem_cons_self
    rw [Numeral.exponent?, if_pos hmark, digits_iff.mpr h]
    · rfl
    · rintro rest heq
      exact absurd (hsign _ _ heq) (by decide)
    · rintro rest heq
      exact absurd (hsign _ _ heq) (by decide)

theorem Places.takeWhile {places fraction power : List Char} {exponent : Option Int}
    (h : Places places fraction) (hpower : Power power exponent) :
    (places ++ power).takeWhile Char.isDigit = [] := by
  cases h with
  | none => exact hpower.takeWhile
  | some h => rfl

theorem Places.dropWhile {places fraction power : List Char} {exponent : Option Int}
    (h : Places places fraction) (hpower : Power power exponent) :
    (places ++ power).dropWhile Char.isDigit = places ++ power := by
  cases h with
  | none => exact hpower.dropWhile
  | some h => rfl

theorem digits_takeWhile {cs : List Char} (h : cs.takeWhile Char.isDigit ≠ []) :
    Digits (cs.takeWhile Char.isDigit) :=
  ⟨h, List.all_eq_true.mp List.all_takeWhile⟩

theorem whole_iff {digits : List Char} :
    (digits.isEmpty || (digits.head? == some '0' && digits.length != 1)) = false ↔
      digits ≠ [] ∧ (digits.head? = some '0' → digits = ['0']) := by
  cases digits with
  | nil => simp
  | cons c rest =>
    cases rest with
    | nil => simp
    | cons d rest => simp

theorem signed_eq {cs digits : List Char} {negative : Bool}
    (h : (match cs with
      | '-' :: rest => (true, rest)
      | rest => (false, rest)) = (negative, digits)) : cs = sign negative ++ digits := by
  split at h <;> cases h <;> rfl

theorem signed_unique {negative negative' : Bool} {whole rest digits : List Char}
    (hwhole : Digits whole)
    (h : (match sign negative ++ (whole ++ rest) with
      | '-' :: rest => (true, rest)
      | rest => (false, rest)) = (negative', digits)) :
    negative' = negative ∧ digits = whole ++ rest := by
  obtain ⟨c, cs, rfl, hc⟩ := hwhole.exists_cons
  cases negative with
  | true =>
    cases h
    exact ⟨rfl, rfl⟩
  | false =>
    split at h
    next heq =>
      cases heq
      cases hc
    · cases h
      exact ⟨rfl, rfl⟩

theorem Power.ne_point {power : List Char} {exponent : Option Int} (h : Power power exponent)
    (rest : List Char) : power ≠ '.' :: rest := by
  rintro rfl
  cases h with
  | unsigned hmark _ | plus hmark _ | minus hmark _ => rcases hmark with h | h <;> cases h

theorem Written.ofChars? {cs : List Char} {n : Numeral} (h : Written cs n) :
    Numeral.ofChars? cs = some n := by
  cases h with
  | @mk negative whole places power fraction exponent hwhole hzero hplaces hpower =>
    have htake : (whole ++ (places ++ power)).takeWhile Char.isDigit = whole := by
      rw [hwhole.takeWhile_append, hplaces.takeWhile hpower, List.append_nil]
    have hdrop : (whole ++ (places ++ power)).dropWhile Char.isDigit = places ++ power := by
      rw [hwhole.dropWhile_append, hplaces.dropWhile hpower]
    rw [List.append_assoc, List.append_assoc]
    unfold Numeral.ofChars?
    split
    next negative' digits hsigned =>
      obtain ⟨rfl, rfl⟩ := signed_unique hwhole hsigned
      simp only [htake, hdrop, whole_iff.mpr ⟨hwhole.1, hzero⟩, Bool.false_eq_true, if_false]
      cases hplaces with
      | none =>
        split
        next heq => exact absurd heq (hpower.ne_point _)
        · simp [hpower.exponent?]
      | some hfraction =>
        have hmore : (fraction ++ power).takeWhile Char.isDigit = fraction := by
          rw [hfraction.takeWhile_append, hpower.takeWhile, List.append_nil]
        have hrest : (fraction ++ power).dropWhile Char.isDigit = power := by
          rw [hfraction.dropWhile_append, hpower.dropWhile]
        simp [hmore, hrest, hfraction.1, hpower.exponent?]

theorem written_of_ofChars? {cs : List Char} {n : Numeral} (h : ofChars? cs = some n) :
    Written cs n := by
  unfold ofChars? at h
  split at h
  next negative digits hsigned =>
    simp only at h
    split at h
    · cases h
    next hwhole =>
      obtain ⟨hne, hzero⟩ := whole_iff.mp (Bool.eq_false_iff.mpr hwhole)
      have hdigits := digits_takeWhile hne
      have hsplit : digits.takeWhile Char.isDigit ++ digits.dropWhile Char.isDigit = digits :=
        List.takeWhile_append_dropWhile
      rw [signed_eq hsigned, ← hsplit]
      split at h
      next places hplaces =>
        split at h
        · cases h
        next hfraction =>
          obtain ⟨e, he, rfl⟩ := Option.map_eq_some_iff.mp h
          have hmore := digits_takeWhile (by simpa using hfraction)
          have hpower := power_of_exponent? he
          have hwritten := Written.mk negative hdigits hzero (.some hmore) hpower
          simpa [hplaces] using hwritten
      next tail hnone =>
        obtain ⟨e, he, rfl⟩ := Option.map_eq_some_iff.mp h
        have hpower := power_of_exponent? he
        simpa using Written.mk negative hdigits hzero .none hpower

theorem ofChars?_eq_some_iff {cs : List Char} {n : Numeral} :
    ofChars? cs = some n ↔ Written cs n :=
  ⟨written_of_ofChars?, Written.ofChars?⟩

end ScopedFormulas.Numeral
