import Mathlib
import ScopedFormulas.Proofs.Number.Nearest
import ScopedFormulas.Proofs.Number.Value

/-!
Packing rounds correctly: a mantissa that is known up to two residual bits is packed to the double
that is nearest to the number it stands for, as far as that is not too large.
-/

namespace ScopedFormulas.Number

open Float.Model UnpackedFloat

theorem log2_mul_two_pow {m : ℕ} (hm : m ≠ 0) (k : ℕ) : (m * 2 ^ k).log2 = m.log2 + k := by
  induction k with
  | zero => simp
  | succ k ih =>
    have hne : m * 2 ^ k ≠ 0 := Nat.mul_ne_zero hm (Nat.two_pow_pos k).ne'
    rw [Nat.pow_succ, ← Nat.mul_assoc, Nat.mul_comm, Nat.log2_two_mul hne, ih, Nat.add_assoc]

theorem shiftRight_mul_two_pow (m k : ℕ) :
    (⟨m * 2 ^ k, false, false⟩ : ExtendedMantissa) >>> k = ⟨m, false, false⟩ := by
  induction k generalizing m with
  | zero => simp [HShiftRight.hShiftRight, Nat.repeat]
  | succ k ih =>
    have hshift := ih (2 * m)
    rw [show m * 2 ^ (k + 1) = 2 * m * 2 ^ k by ring]
    change ((⟨2 * m * 2 ^ k, false, false⟩ : ExtendedMantissa) >>> k).shiftRightOne = _
    rw [hshift]
    simp [ExtendedMantissa.shiftRightOne]

def Canonical (m : ℕ) (e : ℤ) : Prop := Format.binary64.targetExponent (totalExponent m e) = e

theorem shiftToTargetExponent_mul_two_pow {m : ℕ} {e : ℤ} (hm : m ≠ 0) (h : Canonical m e) (k : ℕ) :
    shiftToTargetExponent Format.binary64 (m * 2 ^ k) (e - k) .exact =
      (⟨m, false, false⟩, e) := by
  have htotal : totalExponent (m * 2 ^ k) (e - k) = totalExponent m e := by
    rw [totalExponent, totalExponent, log2_mul_two_pow hm]
    omega
  have hshift : (e - (e - k)).toNat = k := by omega
  rw [shiftToTargetExponent, htotal, h, shiftToExponent, hshift]
  simp only [ExtendedMantissa.ofMantissaAndAccuracy, shiftRight_mul_two_pow]
  congr 1
  omega

theorem unpack_packComponents {sign : Sign} {field m : ℕ} (hm : 0 < m) (hlow : 2 ^ 52 ≤ m)
    (hhigh : m < 2 ^ 53) (hpos : 0 < field) (hfield : field < 2047) :
    UnpackedFloat.unpack Format.binary64
        (packComponents Format.binary64 sign (BitVec.ofNat _ field) (BitVec.ofNat _ m)) =
      finite sign m (field - 1075) hm := by
  have hexponent : (BitVec.ofNat Format.binary64.exponentBits field).toNat = field :=
    Nat.mod_eq_of_lt (by change field < 2 ^ 11; omega)
  have hfull : BitVec.ofNat Format.binary64.exponentBits field ≠ -1#_ := by
    rw [ne_eq, ← BitVec.toNat_inj, hexponent]
    change field ≠ 2047
    omega
  have hempty : BitVec.ofNat Format.binary64.exponentBits field ≠ 0#_ := by
    rw [ne_eq, ← BitVec.toNat_inj, hexponent]
    change field ≠ 0
    omega
  have hmantissa : (1#1 ++ BitVec.ofNat Format.binary64.mantissaBitsWithoutImplicit m).toNat = m := by
    rw [toNat_append_one]
    change m % 2 ^ 52 + 2 ^ 52 = m
    omega
  simp only [UnpackedFloat.unpack, unpackExponent_packComponents, unpackMantissa_packComponents,
    unpackSign_packComponents, Sign.ofBitVec_toBitVec, if_neg hfull, if_neg hempty, hexponent, hmantissa]
  rfl

theorem unpack_pack {m : ℕ} {e : ℤ} (hm : 0 < m) (hlow : 2 ^ 52 ≤ m) (hhigh : m < 2 ^ 53)
    (hmin : -1074 ≤ e) (hmax : e ≤ 971) (sign : Sign) :
    (Float.Model.pack (finite sign m e hm)).unpack = finite sign m e hm := by
  obtain ⟨field, hfield⟩ := Int.eq_ofNat_of_zero_le (show 0 ≤ e + 1075 by omega)
  obtain rfl : e = field - 1075 := by omega
  have hlog : m.log2 + 1 = Format.binary64.mantissaBits := by
    rw [(Nat.log2_eq_iff hm.ne').mpr ⟨hlow, hhigh⟩]
    rfl
  have hbiased : ((field - 1075 : ℤ) + Format.binary64.exponentBias +
      Format.binary64.mantissaBitsWithoutImplicit).toNat = field := by
    change ((field - 1075 : ℤ) + 1023 + 52).toNat = field
    omega
  have hfits : ¬ 2 ^ Format.binary64.exponentBits ≤ field + 1 := by
    change ¬ 2 ^ 11 ≤ field + 1
    omega
  change UnpackedFloat.unpack Format.binary64 (UnpackedFloat.pack Format.binary64 _) = _
  simp only [UnpackedFloat.pack, hbiased, if_neg hfits, if_pos hlog]
  exact unpack_packComponents hm hlow hhigh (by omega) (by omega)

/-- A mantissa with its two residual bits says where a number is from the mantissa up to the next
one. -/
inductive Approximates : ExtendedMantissa → ℚ → Prop
  | exact (m : ℕ) : Approximates ⟨m, false, false⟩ m
  | below {m : ℕ} {x : ℚ} (hlow : m < x) (hhigh : x < m + 1 / 2) : Approximates ⟨m, false, true⟩ x
  | half (m : ℕ) : Approximates ⟨m, true, false⟩ (m + 1 / 2)
  | above {m : ℕ} {x : ℚ} (hlow : m + 1 / 2 < x) (hhigh : x < m + 1) :
      Approximates ⟨m, true, true⟩ x

namespace Approximates

variable {em : ExtendedMantissa} {x : ℚ}

theorem bounds (h : Approximates em x) : em.mantissa ≤ x ∧ x < em.mantissa + 1 := by
  cases h with
  | exact m => constructor <;> linarith
  | below hlow hhigh => constructor <;> linarith
  | half m => constructor <;> linarith
  | above hlow hhigh => constructor <;> linarith

theorem floor_eq (h : Approximates em x) : ⌊x⌋ = em.mantissa := by
  rw [Int.floor_eq_iff, Int.cast_natCast]
  exact h.bounds

theorem roundedMantissa_eq (h : Approximates em x) : (em.roundedMantissa : ℤ) = roundEven x := by
  have hfloor := h.floor_eq
  have hpart : x - (⌊x⌋ : ℚ) = x - em.mantissa := by
    rw [hfloor, Int.cast_natCast]
  rw [roundEven, hpart, hfloor]
  cases h with
  | exact m =>
    rw [if_pos (by norm_num)]
    rfl
  | below hlow hhigh =>
    rw [if_pos (by linarith)]
    rfl
  | half m =>
    rw [if_neg (by linarith), if_neg (by linarith)]
    push_cast [ExtendedMantissa.roundedMantissa, ExtendedMantissa.accuracy,
      Accuracy.roundToNearestEven]
    rfl
  | above hlow hhigh =>
    rw [if_neg (by linarith), if_pos (by linarith)]
    push_cast [ExtendedMantissa.roundedMantissa, ExtendedMantissa.accuracy,
      Accuracy.roundToNearestEven]
    rfl

theorem shiftRightOne_even (k : ℕ) (r s : Bool) :
    (⟨2 * k, r, s⟩ : ExtendedMantissa).shiftRightOne = ⟨k, false, r || s⟩ := by
  simp [ExtendedMantissa.shiftRightOne]

theorem shiftRightOne_odd (k : ℕ) (r s : Bool) :
    (⟨2 * k + 1, r, s⟩ : ExtendedMantissa).shiftRightOne = ⟨k, true, r || s⟩ := by
  simp [ExtendedMantissa.shiftRightOne, Nat.mul_add_div]

theorem half_of_even {k : ℕ} {r s : Bool} (h : Approximates ⟨2 * k, r, s⟩ x) :
    Approximates ⟨k, false, r || s⟩ (x / 2) := by
  cases h with
  | exact =>
    have hx : ((2 * k : ℕ) : ℚ) / 2 = k := by
      push_cast
      ring
    rw [hx]
    exact exact k
  | below hlow hhigh =>
    push_cast at hlow hhigh
    exact below (by linarith) (by linarith)
  | half =>
    push_cast
    exact below (by linarith) (by linarith)
  | above hlow hhigh =>
    push_cast at hlow hhigh
    exact below (by linarith) (by linarith)

theorem half_of_odd {k : ℕ} {r s : Bool} (h : Approximates ⟨2 * k + 1, r, s⟩ x) :
    Approximates ⟨k, true, r || s⟩ (x / 2) := by
  cases h with
  | exact =>
    have hx : ((2 * k + 1 : ℕ) : ℚ) / 2 = k + 1 / 2 := by
      push_cast
      ring
    rw [hx]
    exact half k
  | below hlow hhigh =>
    push_cast at hlow hhigh
    exact above (by linarith) (by linarith)
  | half =>
    push_cast
    exact above (by linarith) (by linarith)
  | above hlow hhigh =>
    push_cast at hlow hhigh
    exact above (by linarith) (by linarith)

theorem shiftRightOne (h : Approximates em x) : Approximates em.shiftRightOne (x / 2) := by
  obtain ⟨m, r, s⟩ := em
  obtain ⟨k, rfl | rfl⟩ := m.even_or_odd'
  · rw [shiftRightOne_even]
    exact h.half_of_even
  · rw [shiftRightOne_odd]
    exact h.half_of_odd

theorem shiftRight (h : Approximates em x) (k : ℕ) : Approximates (em >>> k) (x / 2 ^ k) := by
  induction k with
  | zero => simpa [HShiftRight.hShiftRight, Nat.repeat] using h
  | succ k ih =>
    rw [pow_succ, ← div_div]
    exact ih.shiftRightOne

end Approximates

theorem canonical_iff {m : ℕ} {e : ℤ} (hm : 0 < m) :
    Canonical m e ↔ m < 2 ^ 53 ∧ -1074 ≤ e ∧ (2 ^ 52 ≤ m ∨ e = -1074) := by
  have hlow : 2 ^ 52 ≤ m ↔ 52 ≤ m.log2 := (Nat.le_log2 hm.ne').symm
  have hhigh : m < 2 ^ 53 ↔ m.log2 < 53 := (Nat.log2_lt hm.ne').symm
  change max (((m.log2 : ℕ) : ℤ) + 1 + e - 53) (-1074) = e ↔ _
  rw [hlow, hhigh]
  omega

section Signs

def factor : Sign → ℚ
  | .negative => -1
  | .positive => 1

theorem cast_apply (s : Sign) (n : ℤ) : ((s.apply n : ℤ) : ℚ) = factor s * n := by
  cases s <;> simp [Sign.apply, factor]

theorem abs_factor (s : Sign) : |factor s| = 1 := by
  cases s <;> simp [factor]

theorem factor_ne_zero (s : Sign) : factor s ≠ 0 := by
  cases s <;> simp [factor]

theorem factor_neg (s : Sign) : factor (-s) = -factor s :=
  match s with
  | .negative => (neg_neg 1).symm
  | .positive => rfl

theorem factor_mul (s t : Sign) : factor (s * t) = factor s * factor t :=
  match s, t with
  | .negative, .negative => (by norm_num : (1 : ℚ) = -1 * -1)
  | .negative, .positive => (by norm_num : (-1 : ℚ) = -1 * 1)
  | .positive, .negative => (by norm_num : (-1 : ℚ) = 1 * -1)
  | .positive, .positive => (by norm_num : (1 : ℚ) = 1 * 1)

theorem factor_div (s t : Sign) : factor (s / t) = factor s / factor t :=
  match s, t with
  | .negative, .negative => (by norm_num : (1 : ℚ) = -1 / -1)
  | .negative, .positive => (by norm_num : (-1 : ℚ) = -1 / 1)
  | .positive, .negative => (by norm_num : (-1 : ℚ) = 1 / -1)
  | .positive, .positive => (by norm_num : (1 : ℚ) = 1 / 1)

theorem nearest_factor (s : Sign) (x : ℚ) : nearest (factor s * x) = factor s * nearest x := by
  cases s <;> simp [factor, nearest_neg]

end Signs

section Packing

def bounded (x : ℚ) : Option ℚ := if |x| < 2 ^ (1024 : ℤ) then some x else none

def packedValue? (u : UnpackedFloat) : Option ℚ := unpackedValue? (Float.Model.pack u).unpack

variable {m : ℕ} {e : ℤ} {s : Sign} (hm : 0 < m)

theorem unpack_pack_subnormal (h : m < 2 ^ 52) :
    (Float.Model.pack (finite s m (-1074) hm)).unpack = finite s m (-1074) hm := by
  have hlog : m.log2 + 1 ≠ Format.binary64.mantissaBits := by
    have := (Nat.log2_lt hm.ne').mpr h
    change m.log2 + 1 ≠ 53
    omega
  have hmantissa : (BitVec.ofNat Format.binary64.mantissaBitsWithoutImplicit m).toNat = m :=
    Nat.mod_eq_of_lt h
  have hne : BitVec.ofNat Format.binary64.mantissaBitsWithoutImplicit m ≠ 0#_ := by
    rw [ne_eq, ← BitVec.toNat_inj, hmantissa]
    exact hm.ne'
  have hfull : BitVec.ofNat Format.binary64.exponentBits 0 ≠ -1#_ := by decide
  have hfits : ¬ 2 ^ Format.binary64.exponentBits ≤
      ((-1074 : ℤ) + Format.binary64.exponentBias +
        Format.binary64.mantissaBitsWithoutImplicit).toNat + 1 := by decide
  change UnpackedFloat.unpack Format.binary64 (UnpackedFloat.pack Format.binary64 _) = _
  simp only [UnpackedFloat.pack, if_neg hfits, if_neg hlog]
  simp only [UnpackedFloat.unpack, unpackExponent_packComponents, unpackMantissa_packComponents,
    unpackSign_packComponents, Sign.ofBitVec_toBitVec, if_neg hfull, if_true, dif_neg hne, hmantissa]
  rfl

theorem packedValue?_of_large (h : 972 ≤ e) : packedValue? (finite s m e hm) = none := by
  have hfits : 2 ^ Format.binary64.exponentBits ≤
      (e + Format.binary64.exponentBias + Format.binary64.mantissaBitsWithoutImplicit).toNat + 1 := by
    change 2 ^ 11 ≤ (e + 1023 + 52).toNat + 1
    omega
  change unpackedValue? (UnpackedFloat.unpack Format.binary64 (UnpackedFloat.pack Format.binary64 _)) = _
  simp only [UnpackedFloat.pack, if_pos hfits]
  cases s <;> rfl

theorem packedValue?_finite (h : Canonical m e) :
    packedValue? (finite s m e hm) = bounded (factor s * (m * 2 ^ e)) := by
  obtain ⟨hhigh, hmin, hlow⟩ := (canonical_iff hm).mp h
  have hpos := two_pow_pos e
  have hsize : |factor s * ((m : ℚ) * 2 ^ e)| = m * 2 ^ e := by
    rw [abs_mul, abs_factor, one_mul, abs_of_nonneg (by positivity)]
  rcases le_or_gt 972 e with hlarge | hsmall
  · rw [packedValue?_of_large hm hlarge, bounded, hsize, if_neg]
    rw [not_lt]
    calc (2 : ℚ) ^ (1024 : ℤ) ≤ 2 ^ (52 + e) := zpow_le_zpow_right₀ (by norm_num) (by omega)
      _ = 2 ^ (52 : ℤ) * 2 ^ e := two_pow_add 52 e
      _ ≤ m * 2 ^ e := by
        apply mul_le_mul_of_nonneg_right _ hpos.le
        exact_mod_cast hlow.resolve_right (by omega)
  · have hunpack : (Float.Model.pack (finite s m e hm)).unpack = finite s m e hm := by
      by_cases hnormal : 2 ^ 52 ≤ m
      · exact unpack_pack hm hnormal hhigh hmin (by omega) s
      · obtain rfl := hlow.resolve_left hnormal
        exact unpack_pack_subnormal hm (by omega)
    rw [packedValue?, hunpack, unpackedValue?, cast_apply, Int.cast_natCast, mul_assoc, bounded, hsize,
      if_pos]
    calc (m : ℚ) * 2 ^ e < 2 ^ (53 : ℤ) * 2 ^ e := by
          apply mul_lt_mul_of_pos_right _ hpos
          exact_mod_cast hhigh
      _ = 2 ^ (53 + e) := (two_pow_add 53 e).symm
      _ ≤ 2 ^ (1024 : ℤ) := zpow_le_zpow_right₀ (by norm_num) (by omega)

@[simp] theorem packedValue?_notANumber : packedValue? notANumber = none := by
  rfl

@[simp] theorem packedValue?_infinity (s : Sign) : packedValue? (infinity s) = none := by
  cases s <;> rfl

@[simp] theorem packedValue?_zero (s : Sign) : packedValue? (zero s) = some 0 := by
  cases s <;> rfl

theorem bounded_of_lt {x : ℚ} (h : |x| < 2 ^ (1024 : ℤ)) : bounded x = some x := if_pos h

theorem lt_two_pow_of_le {x : ℚ} (h : x ≤ 2 ^ 53) : x < 2 ^ (1024 : ℤ) := by
  calc x ≤ 2 ^ (53 : ℤ) := by exact_mod_cast h
    _ < 2 ^ (1024 : ℤ) := zpow_lt_zpow_right₀ (by norm_num) (by norm_num)

theorem bounded_zero : bounded 0 = some 0 := by
  rw [bounded, abs_zero, if_pos (two_pow_pos 1024)]

end Packing

section Shifting

variable {x : ℚ} {m : ℕ} {e : ℤ}

theorem le_unit {k : ℤ} (hx : 0 < x) (h : 2 ^ k ≤ x) : max (k - 52) (-1074) ≤ unit x := by
  have hlog := (Int.zpow_le_iff_le_log (b := 2) (by norm_num) hx).mp (by exact_mod_cast h)
  rw [unit, abs_of_pos hx]
  omega

theorem targetExponent_of_pos (hm : 0 < m) (hlow : m ≤ x / 2 ^ e) (hhigh : x / 2 ^ e < m + 1) :
    Format.binary64.targetExponent (totalExponent m e) = unit x := by
  have hpos := two_pow_pos e
  rw [le_div_iff₀ hpos] at hlow
  rw [div_lt_iff₀ hpos] at hhigh
  obtain ⟨hlog, hlog'⟩ := (Nat.log2_eq_iff hm.ne').mp rfl
  have hx : 0 < x := lt_of_lt_of_le (by positivity) hlow
  have hx' : Int.log 2 x = m.log2 + e := by
    apply log_eq
    · calc (2 : ℚ) ^ ((m.log2 : ℤ) + e) = 2 ^ m.log2 * 2 ^ e := by rw [two_pow_add, zpow_natCast]
        _ ≤ m * 2 ^ e := by
          apply mul_le_mul_of_nonneg_right _ hpos.le
          exact_mod_cast hlog
        _ ≤ x := hlow
    · calc x < (m + 1) * 2 ^ e := hhigh
        _ ≤ 2 ^ (m.log2 + 1) * 2 ^ e := by
          apply mul_le_mul_of_nonneg_right _ hpos.le
          exact_mod_cast hlog'
        _ = 2 ^ ((m.log2 : ℤ) + e + 1) := by
          rw [← zpow_natCast, ← two_pow_add]
          congr 1
          push_cast
          ring
  change max ((m.log2 : ℤ) + 1 + e - 53) (-1074) = max (Int.log 2 |x| - 52) (-1074)
  rw [abs_of_pos hx, hx']
  omega

theorem targetExponent_eq (hx : 0 < x) (he : e ≤ unit x) (hlow : m ≤ x / 2 ^ e)
    (hhigh : x / 2 ^ e < m + 1) : Format.binary64.targetExponent (totalExponent m e) = unit x := by
  rcases Nat.eq_zero_or_pos m with rfl | hm
  · -- No bit of the number reaches the mantissa, so that the least unit is the right one.
    have hunit : unit x = -1074 := by
      by_contra hne
      have hle := two_pow_unit_le hx.ne' hne
      have hpow : (2 : ℚ) ^ e ≤ 2 ^ (52 + unit x) := zpow_le_zpow_right₀ (by norm_num) (by omega)
      rw [div_lt_iff₀ (two_pow_pos e), Nat.cast_zero, zero_add, one_mul] at hhigh
      rw [abs_of_pos hx] at hle
      linarith
    rw [hunit]
    change max (((0 : ℕ).log2 : ℤ) + 1 + e - 53) (-1074) = -1074
    rw [Nat.log2_zero]
    omega
  · exact targetExponent_of_pos hm hlow hhigh

theorem exists_shiftToTargetExponent {a : Accuracy} (hx : 0 < x) (he : e ≤ unit x)
    (h : Approximates (.ofMantissaAndAccuracy m a) (x / 2 ^ e)) :
    ∃ em, shiftToTargetExponent Format.binary64 m e a = (em, unit x) ∧
      Approximates em (x / 2 ^ unit x) := by
  have hmantissa : (ExtendedMantissa.ofMantissaAndAccuracy m a).mantissa = m := by
    match a with
    | .exact | .inexact .lt | .inexact .eq | .inexact .gt => rfl
  obtain ⟨hlow, hhigh⟩ := h.bounds
  rw [hmantissa] at hlow hhigh
  obtain ⟨k, hk⟩ := Int.eq_ofNat_of_zero_le (Int.sub_nonneg.mpr he)
  have hshift : (unit x - e).toNat = k := by omega
  refine ⟨ExtendedMantissa.ofMantissaAndAccuracy m a >>> k, ?_, ?_⟩
  · have hexponent : e + (k : ℤ) = unit x := by omega
    rw [shiftToTargetExponent, targetExponent_eq hx he hlow hhigh, shiftToExponent, hshift, hexponent]
  · have hx' : x / 2 ^ unit x = x / 2 ^ e / 2 ^ k := by
      rw [div_div, ← zpow_natCast, ← two_pow_add]
      congr 2
      omega
    rw [hx']
    exact h.shiftRight k

end Shifting

section Rounded

def rounded (x : ℚ) : Option ℚ := bounded (nearest x)

variable {x : ℚ} {m : ℕ} {e : ℤ} {s : Sign}

theorem packedValue?_of_canonical {a : Accuracy} {em : ExtendedMantissa} {t : ℤ} {n k : ℕ}
    (hfirst : shiftToTargetExponent Format.binary64 m e a = (em, t))
    (hround : em.roundedMantissa = n * 2 ^ k) (hn : 0 < n) (hcanonical : Canonical n (t + k)) :
    packedValue? (roundWithAccuracy Format.binary64 s m e a) =
      bounded (factor s * ((n * 2 ^ k : ℕ) * 2 ^ t)) := by
  have hsecond := shiftToTargetExponent_mul_two_pow hn.ne' hcanonical k
  rw [Int.add_sub_cancel] at hsecond
  simp only [roundWithAccuracy, hfirst, hround, hsecond, hn.ne', dite_false]
  rw [packedValue?_finite hn hcanonical, two_pow_add, zpow_natCast]
  congr 1
  push_cast
  ring

theorem packedValue?_of_shift {a : Accuracy} {em : ExtendedMantissa} {t : ℤ}
    (hfirst : shiftToTargetExponent Format.binary64 m e a = (em, t)) (hmin : -1074 ≤ t)
    (hhigh : em.roundedMantissa ≤ 2 ^ 53) (hlow : t ≠ -1074 → 2 ^ 52 ≤ em.roundedMantissa) :
    packedValue? (roundWithAccuracy Format.binary64 s m e a) =
      bounded (factor s * (em.roundedMantissa * 2 ^ t)) := by
  generalize hround : em.roundedMantissa = n at hhigh hlow ⊢
  rcases Nat.eq_zero_or_pos n with rfl | hn
  · have hzero : (shiftToTargetExponent Format.binary64 0 t .exact).1.mantissa = 0 := by
      have hshift := shiftRight_mul_two_pow 0
      simp only [Nat.zero_mul] at hshift
      simp only [shiftToTargetExponent, shiftToExponent, ExtendedMantissa.ofMantissaAndAccuracy, hshift]
    simp only [roundWithAccuracy, hfirst, hround]
    rw [dif_pos hzero, packedValue?_zero, Nat.cast_zero, zero_mul, mul_zero, bounded_zero]
  rcases hhigh.lt_or_eq with hlt | rfl
  · have hcanonical : Canonical n (t + (0 : ℕ)) := by
      rw [canonical_iff hn]
      omega
    have hscaled : em.roundedMantissa = n * 2 ^ 0 := by rw [hround, Nat.pow_zero, Nat.mul_one]
    rw [packedValue?_of_canonical hfirst hscaled hn hcanonical, Nat.pow_zero, Nat.mul_one]
  · -- Rounding has given the mantissa a bit too many, and it is shifted once more.
    have hcanonical : Canonical (2 ^ 52) (t + (1 : ℕ)) := by
      rw [canonical_iff (Nat.two_pow_pos 52)]
      omega
    have hscaled : em.roundedMantissa = 2 ^ 52 * 2 ^ 1 := by rw [hround, ← Nat.pow_add]
    rw [packedValue?_of_canonical hfirst hscaled (Nat.two_pow_pos 52) hcanonical, ← Nat.pow_add]

theorem packedValue?_roundWithAccuracy {a : Accuracy} (hx : 0 < x) (he : e ≤ unit x)
    (h : Approximates (.ofMantissaAndAccuracy m a) (x / 2 ^ e)) :
    packedValue? (roundWithAccuracy Format.binary64 s m e a) = rounded (factor s * x) := by
  obtain ⟨em, hfirst, hem⟩ := exists_shiftToTargetExponent hx he h
  have hpos := two_pow_pos (unit x)
  have hunit : -1074 ≤ unit x := le_max_right _ _
  have hround := hem.roundedMantissa_eq
  have hnearest : nearest x = em.roundedMantissa * 2 ^ unit x := by
    rw [nearest, ← hround, Int.cast_natCast]
  have hhigh : em.roundedMantissa ≤ 2 ^ 53 := by
    have hlt := lt_two_pow_unit x
    rw [abs_of_pos hx, two_pow_add, ← div_lt_iff₀ hpos] at hlt
    have hle := roundEven_le (n := 2 ^ 53) (by exact_mod_cast hlt.le)
    rw [← hround] at hle
    exact_mod_cast hle
  have hlow : unit x ≠ -1074 → 2 ^ 52 ≤ em.roundedMantissa := by
    intro hne
    have hle := two_pow_unit_le hx.ne' hne
    rw [abs_of_pos hx, two_pow_add, ← le_div_iff₀ hpos] at hle
    have hle' := le_roundEven (n := 2 ^ 52) (by exact_mod_cast hle)
    rw [← hround] at hle'
    exact_mod_cast hle'
  rw [packedValue?_of_shift hfirst hunit hhigh hlow, rounded, nearest_factor, hnearest]

@[simp] theorem rounded_zero : rounded 0 = some 0 := by
  rw [rounded, nearest_zero, bounded_zero]

theorem rounded_of_fits (h : Fits x) : rounded x = bounded x := by
  rw [rounded, nearest_eq h]

theorem eq_nearest_of_rounded {y : ℚ} (h : rounded x = some y) : y = nearest x := by
  rw [rounded, bounded] at h
  split_ifs at h
  exact (Option.some.inj h).symm

theorem shiftLeft_mul_two_pow (m k : ℕ) (e : ℤ) :
    ((m <<< k : ℕ) : ℚ) * 2 ^ (e - k) = m * 2 ^ e := by
  rw [Nat.shiftLeft_eq, Nat.cast_mul, mul_assoc, Nat.cast_pow, Nat.cast_ofNat, ← zpow_natCast,
    ← two_pow_add]
  congr 2
  omega

theorem apply_shiftLeft (s : Sign) (m : ℕ) {d e : ℤ} (h : d ≤ e) :
    ((s.apply (m <<< (e - d).toNat : ℕ) : ℤ) : ℚ) * 2 ^ d = factor s * (m * 2 ^ e) := by
  have hshift := shiftLeft_mul_two_pow m (e - d).toNat e
  rw [show e - ((e - d).toNat : ℤ) = d by omega] at hshift
  rw [cast_apply, mul_assoc, Int.cast_natCast, hshift]

theorem packedValue?_round (hm : 0 < m) (e : ℤ) :
    packedValue? (UnpackedFloat.round Format.binary64 s m e) = rounded (factor s * (m * 2 ^ e)) := by
  have hpos := two_pow_pos e
  have hx : 0 < (m : ℚ) * 2 ^ e := by positivity
  have hself : (m : ℚ) * 2 ^ e / 2 ^ e = m := mul_div_cancel_right₀ _ hpos.ne'
  have htarget : Format.binary64.targetExponent (totalExponent m e) = unit (m * 2 ^ e) := by
    apply targetExponent_of_pos hm
    · rw [hself]
    · rw [hself]
      exact lt_add_one _
  simp only [UnpackedFloat.round, htarget, decreaseExponent]
  generalize hk : (e - unit (m * 2 ^ e)).toNat = k
  apply packedValue?_roundWithAccuracy hx
  · omega
  · have hscaled : (m : ℚ) * 2 ^ e / 2 ^ (e - k) = (m <<< k : ℕ) := by
      rw [← shiftLeft_mul_two_pow m k e, mul_div_cancel_right₀ _ (two_pow_pos _).ne']
    rw [hscaled]
    exact .exact _

theorem packedValue?_normalize (i e : ℤ) (s : Sign) :
    packedValue? (UnpackedFloat.normalize Format.binary64 i e s) = rounded (i * 2 ^ e) := by
  rw [UnpackedFloat.normalize]
  rcases lt_trichotomy i 0 with hi | rfl | hi
  · obtain ⟨n, hi'⟩ := Int.eq_ofNat_of_zero_le (Int.neg_nonneg_of_nonpos hi.le)
    obtain rfl : i = -n := by omega
    have hn : 0 < n := by omega
    rw [compare_lt_iff_lt.mpr hi]
    simp only [Int.neg_neg, Int.toNat_natCast]
    rw [packedValue?_round hn]
    simp [factor]
  · rw [compare_eq_iff_eq.mpr rfl, Int.cast_zero, zero_mul, rounded_zero]
    exact packedValue?_zero s
  · obtain ⟨n, rfl⟩ := Int.eq_ofNat_of_zero_le hi.le
    have hn : 0 < n := by omega
    rw [compare_gt_iff_gt.mpr hi]
    simp only [Int.toNat_natCast]
    rw [packedValue?_round hn]
    simp [factor]

end Rounded

end ScopedFormulas.Number
