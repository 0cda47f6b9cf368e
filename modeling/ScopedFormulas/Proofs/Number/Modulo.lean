import Mathlib
import ScopedFormulas.Proofs.Number.Operations

/-!
The modulus of doubles. Its three roundings can put the remainder on the wrong side of zero or as
far from it as the divisor and more. What is left of the range of a floored remainder is proved for
all operands, and the range itself for multiples of one power of two whose factors are small.
-/

namespace ScopedFormulas.Number

def roundedFloor (x y : ℚ) : ℤ := ⌊nearest (x / y)⌋

def roundedRemainder (x y : ℚ) : ℚ := nearest (x - nearest (y * roundedFloor x y))

def Floored (y z : ℚ) : Prop := (z = 0 ∨ 0 < z * y) ∧ |z| < |y|

/-- Multiples of one power of two that are small enough for the steps of the modulus to be exact. -/
def Commensurable (x y : ℚ) : Prop :=
  ∃ m n e : ℤ, x = m * 2 ^ e ∧ y = n * 2 ^ e ∧ |m| + |n| ≤ 2 ^ 53 ∧ -1074 ≤ e

section Remainder

variable {x y : ℚ}

theorem sub_mul_floor (x : ℚ) (hy : y ≠ 0) : x - y * ⌊x / y⌋ = y * Int.fract (x / y) := by
  rw [Int.fract, mul_sub, mul_div_cancel₀ x hy]

theorem floored_sub_mul_floor (x : ℚ) (hy : y ≠ 0) : Floored y (x - y * ⌊x / y⌋) := by
  have hlow := Int.fract_nonneg (x / y)
  have hhigh := Int.fract_lt_one (x / y)
  rw [sub_mul_floor x hy]
  constructor
  · rcases hlow.eq_or_lt with hzero | hpos
    · left
      rw [← hzero, mul_zero]
    · right
      rw [mul_right_comm]
      exact mul_pos (mul_self_pos.mpr hy) hpos
  · rw [abs_mul, abs_of_nonneg hlow]
    exact mul_lt_of_lt_one_right (abs_pos.mpr hy) hhigh

theorem roundedRemainder_nonneg (hx : Fits x) (h : y * roundedFloor x y ≤ x) :
    0 ≤ roundedRemainder x y := nearest_nonneg (sub_nonneg.mpr (nearest_le hx h))

theorem roundedRemainder_nonpos (hx : Fits x) (h : x ≤ y * roundedFloor x y) :
    roundedRemainder x y ≤ 0 := nearest_nonpos (sub_nonpos.mpr (le_nearest hx h))

/-- The remainder is on the wrong side of zero just when the quotient is rounded up past an
integer. -/
theorem roundedRemainder_sign (hx : Fits x) (hy : y ≠ 0) (hz : roundedRemainder x y ≠ 0) :
    0 < roundedRemainder x y * y ↔ roundedFloor x y ≤ x / y := by
  rcases le_or_gt (roundedFloor x y : ℚ) (x / y) with hle | hgt
  · refine iff_of_true ?_ hle
    rcases hy.lt_or_gt with hneg | hpos
    · have h := roundedRemainder_nonpos hx ((le_div_iff_of_neg' hneg).mp hle)
      exact mul_pos_of_neg_of_neg (h.lt_of_ne hz) hneg
    · have h := roundedRemainder_nonneg hx ((le_div_iff₀' hpos).mp hle)
      exact mul_pos (h.lt_of_ne' hz) hpos
  · refine iff_of_false (not_lt.mpr ?_) (not_le.mpr hgt)
    rcases hy.lt_or_gt with hneg | hpos
    · have h := roundedRemainder_nonneg hx ((div_le_iff_of_neg' hneg).mp hgt.le)
      exact mul_nonpos_of_nonneg_of_nonpos h hneg.le
    · have h := roundedRemainder_nonpos hx ((div_le_iff₀' hpos).mp hgt.le)
      exact mul_nonpos_of_nonpos_of_nonneg h hpos.le

theorem roundedFloor_of_large (h : 2 ^ 52 ≤ |x / y|) : roundedFloor x y = nearest (x / y) := by
  -- The unit of the quotient is at least 1, so that the quotient is rounded to an integer.
  obtain ⟨d, hd⟩ := Int.eq_ofNat_of_zero_le (unit_nonneg h)
  have hint : nearest (x / y) = ((roundEven (x / y / 2 ^ unit (x / y)) * 2 ^ d : ℤ) : ℚ) := by
    rw [nearest, hd, Int.cast_mul, Int.cast_pow, Int.cast_ofNat]
    rfl
  rw [roundedFloor, hint, Int.floor_intCast]

theorem floor_le_roundedFloor (h : Fits (⌊x / y⌋ : ℤ)) : ⌊x / y⌋ ≤ roundedFloor x y :=
  Int.le_floor.mpr (le_nearest h (Int.floor_le _))

theorem roundedFloor_le_floor_add_one (h : Fits (⌊x / y⌋ + 1 : ℤ)) :
    roundedFloor x y ≤ ⌊x / y⌋ + 1 := by
  have hle : nearest (x / y) ≤ ((⌊x / y⌋ + 1 : ℤ) : ℚ) := by
    apply nearest_le h
    rw [Int.cast_add, Int.cast_one]
    exact (Int.lt_floor_add_one _).le
  exact (Int.floor_le_floor hle).trans_eq (Int.floor_intCast _)

theorem abs_roundedFloor_sub_le (h : |x / y| < 2 ^ 52) : |roundedFloor x y - x / y| ≤ 1 := by
  obtain ⟨hneg, hpos⟩ := abs_lt.mp h
  have hmin : -2 ^ 52 ≤ ⌊x / y⌋ := Int.le_floor.mpr (by exact_mod_cast hneg.le)
  have hmax : ⌊x / y⌋ < 2 ^ 52 := Int.floor_lt.mpr (by exact_mod_cast hpos)
  have hfloor : Fits (⌊x / y⌋ : ℤ) := fits_intCast (abs_le.mpr ⟨by omega, by omega⟩)
  have hnext : Fits (⌊x / y⌋ + 1 : ℤ) := fits_intCast (abs_le.mpr ⟨by omega, by omega⟩)
  have hlow : (⌊x / y⌋ : ℚ) ≤ roundedFloor x y := by exact_mod_cast floor_le_roundedFloor hfloor
  have hhigh : (roundedFloor x y : ℚ) ≤ ⌊x / y⌋ + 1 := by
    exact_mod_cast roundedFloor_le_floor_add_one hnext
  have hbelow := Int.floor_le (x / y)
  have habove := Int.lt_floor_add_one (x / y)
  rw [abs_le]
  constructor <;> linarith

theorem abs_mul_roundedFloor_sub_le (x : ℚ) (hy : y ≠ 0) :
    |x| ≤ 2 ^ 52 * |y| ∧ |y * roundedFloor x y - x| ≤ |y| ∨
      |y * roundedFloor x y - x| ≤ |x| / 2 ^ 53 := by
  have hpos : 0 < |y| := abs_pos.mpr hy
  have hscale (k : ℚ) : |y * k - x| = |y| * |k - x / y| := by
    rw [← abs_mul, mul_sub, mul_div_cancel₀ x hy]
  rw [hscale]
  rcases lt_or_ge |x / y| (2 ^ 52) with hsmall | hlarge
  · left
    constructor
    · rw [abs_div] at hsmall
      exact ((div_lt_iff₀ hpos).mp hsmall).le
    · exact mul_le_of_le_one_right hpos.le (abs_roundedFloor_sub_le hsmall)
  · right
    rw [roundedFloor_of_large hlarge]
    calc |y| * |nearest (x / y) - x / y| ≤ |y| * (|x / y| / 2 ^ 53) :=
          mul_le_mul_of_nonneg_left (abs_nearest_sub_le_of_large hlarge) hpos.le
      _ = |x| / 2 ^ 53 := by rw [abs_div, ← mul_div_assoc, mul_div_cancel₀ _ hpos.ne']

theorem abs_roundedRemainder_le (hx : Fits x) (hfit : Fits y) (hy : y ≠ 0) :
    |roundedRemainder x y| ≤ 2 * |y| ∨ |roundedRemainder x y| ≤ |x| / 2 ^ 51 := by
  -- The product and the difference are multiples of the least double, so that the error of each of
  -- the three roundings is small against what is rounded.
  have hproduct := abs_nearest_sub_le_of_onGrid (hfit.onGrid.mul_intCast (roundedFloor x y))
  have hrest := abs_nearest_sub_le_of_onGrid
    (hx.onGrid.sub (onGrid_nearest (y * roundedFloor x y)))
  have hquotient := abs_mul_roundedFloor_sub_le x hy
  rw [roundedRemainder]
  generalize y * roundedFloor x y = p at *
  generalize nearest p = p' at *
  have hsub := abs_sub_le x p p'
  rw [abs_sub_comm x p, abs_sub_comm p p'] at hsub
  generalize x - p' = w at *
  have hp := abs_sub_abs_le_abs_sub p x
  have hz := abs_sub_abs_le_abs_sub (nearest w) w
  have hx := abs_nonneg x
  have hpos := abs_nonneg y
  norm_num at hproduct hrest hquotient ⊢
  rcases hquotient with ⟨hsize, hnear⟩ | hnear
  · left
    linarith
  · right
    linarith

end Remainder

section Multiples

variable {m n : ℤ}

theorem abs_sub_mul_floor_lt (hn : n ≠ 0) : |m - n * ⌊(m / n : ℚ)⌋| < |n| := by
  have h := (floored_sub_mul_floor (m : ℚ) (Int.cast_ne_zero.mpr hn)).2
  exact_mod_cast h

theorem abs_div_le (hn : n ≠ 0) : |(m / n : ℚ)| ≤ |(m : ℚ)| := by
  rw [abs_div]
  apply div_le_self (abs_nonneg _)
  exact_mod_cast Int.one_le_abs hn

theorem abs_floor_le (hn : n ≠ 0) : |⌊(m / n : ℚ)⌋| ≤ |m| := by
  obtain ⟨hlow, hhigh⟩ := abs_le.mp (abs_div_le (m := m) hn)
  apply abs_le.mpr
  constructor
  · apply Int.le_floor.mpr
    exact_mod_cast hlow
  · have hfloor := (Int.floor_le _).trans hhigh
    exact_mod_cast hfloor

theorem mul_abs_nearest_div_sub_lt (hn : n ≠ 0) (h : |m| + |n| ≤ 2 ^ 53) :
    |(n : ℚ)| * |nearest (m / n) - m / n| < 1 := by
  have hpos : 0 < |(n : ℚ)| := abs_pos.mpr (Int.cast_ne_zero.mpr hn)
  have hone := Int.one_le_abs hn
  have hnonneg := abs_nonneg m
  rcases abs_nearest_sub_le_or (m / n : ℚ) with herror | herror
  · have hm : |(m : ℚ)| < 2 ^ 53 := by exact_mod_cast (by omega : |m| < 2 ^ 53)
    calc |(n : ℚ)| * |nearest (m / n) - m / n| ≤ |(n : ℚ)| * (|(m / n : ℚ)| / 2 ^ 53) :=
          mul_le_mul_of_nonneg_left herror hpos.le
      _ = |(m : ℚ)| / 2 ^ 53 := by rw [abs_div, ← mul_div_assoc, mul_div_cancel₀ _ hpos.ne']
      _ < 1 := (div_lt_one (by positivity)).mpr hm
  · have hsize : |(n : ℚ)| ≤ 2 ^ (53 : ℤ) := by exact_mod_cast (by omega : |n| ≤ 2 ^ 53)
    calc |(n : ℚ)| * |nearest (m / n) - m / n| ≤ 2 ^ (53 : ℤ) * 2 ^ (-1075 : ℤ) :=
          mul_le_mul hsize herror (abs_nonneg _) (two_pow_pos 53).le
      _ = 2 ^ (53 + -1075 : ℤ) := (two_pow_add _ _).symm
      _ < 1 := zpow_lt_one_of_neg₀ (by norm_num) (by norm_num)

theorem roundedFloor_intCast (hn : n ≠ 0) (h : |m| + |n| ≤ 2 ^ 53) :
    roundedFloor m n = ⌊(m / n : ℚ)⌋ := by
  have hpos : 0 < |(n : ℚ)| := abs_pos.mpr (Int.cast_ne_zero.mpr hn)
  have hone := Int.one_le_abs hn
  have hfits : Fits (⌊(m / n : ℚ)⌋ : ℤ) := by
    have hfloor := abs_floor_le (m := m) hn
    exact fits_intCast (by omega)
  apply le_antisymm _ (floor_le_roundedFloor hfits)
  rw [← Int.lt_add_one_iff, roundedFloor, Int.floor_lt, ← not_le]
  intro hround
  -- The next integer is away by `1 / n` at least, and the rounding does not reach as far.
  have hgap : |(n : ℚ)| * Int.fract (m / n : ℚ) ≤ |(n : ℚ)| - 1 := by
    have hlt := abs_sub_mul_floor_lt (m := m) hn
    have hle : |m - n * ⌊(m / n : ℚ)⌋| ≤ |n| - 1 := by omega
    rw [← abs_of_nonneg (Int.fract_nonneg (m / n : ℚ)), ← abs_mul,
      ← sub_mul_floor _ (Int.cast_ne_zero.mpr hn)]
    exact_mod_cast hle
  have herror := mul_abs_nearest_div_sub_lt hn h
  have hstep : 1 - Int.fract (m / n : ℚ) ≤ |nearest (m / n) - m / n| := by
    rw [Int.fract]
    push_cast at hround
    linarith [le_abs_self (nearest (m / n) - m / n)]
  have := mul_le_mul_of_nonneg_left hstep hpos.le
  linarith

end Multiples

namespace Commensurable

variable {x y : ℚ}

theorem exists_multiples (h : Commensurable x y) (hy : y ≠ 0) :
    ∃ m n e : ℤ, x = m * 2 ^ e ∧ y = n * 2 ^ e ∧ x / y = m / n ∧ n ≠ 0 ∧ |m| + |n| ≤ 2 ^ 53 ∧
      -1074 ≤ e := by
  obtain ⟨m, n, e, rfl, rfl, hsize, he⟩ := h
  have hn : n ≠ 0 := Int.cast_ne_zero.mp (left_ne_zero_of_mul hy)
  exact ⟨m, n, e, rfl, rfl, mul_div_mul_right _ _ (two_pow_pos e).ne', hn, hsize, he⟩

theorem roundedFloor_eq (h : Commensurable x y) (hy : y ≠ 0) : roundedFloor x y = ⌊x / y⌋ := by
  obtain ⟨m, n, e, -, -, hquotient, hn, hsize, -⟩ := h.exists_multiples hy
  rw [roundedFloor, hquotient]
  exact roundedFloor_intCast hn hsize

theorem fits_mul_floor (h : Commensurable x y) (hy : y ≠ 0) : Fits (y * ⌊x / y⌋) := by
  obtain ⟨m, n, e, -, hn', hquotient, hn, hsize, he⟩ := h.exists_multiples hy
  have hlt := abs_sub_mul_floor_lt (m := m) hn
  rw [hquotient, hn']
  generalize ⌊(m / n : ℚ)⌋ = f at *
  refine ⟨n * f, e, by rw [Int.cast_mul, mul_right_comm], ?_, he⟩
  have hproduct := abs_sub_abs_le_abs_sub (n * f) m
  rw [abs_sub_comm] at hproduct
  omega

theorem fits_sub_mul_floor (h : Commensurable x y) (hy : y ≠ 0) : Fits (x - y * ⌊x / y⌋) := by
  obtain ⟨m, n, e, hm', hn', hquotient, hn, hsize, he⟩ := h.exists_multiples hy
  have hlt := abs_sub_mul_floor_lt (m := m) hn
  have hm := abs_nonneg m
  rw [hquotient, hm', hn']
  generalize ⌊(m / n : ℚ)⌋ = f at *
  refine ⟨m - n * f, e, ?_, by omega, he⟩
  rw [Int.cast_sub, Int.cast_mul, sub_mul, mul_right_comm]

theorem roundedRemainder_eq (h : Commensurable x y) (hy : y ≠ 0) :
    roundedRemainder x y = x - y * ⌊x / y⌋ := by
  rw [roundedRemainder, h.roundedFloor_eq hy, nearest_eq (h.fits_mul_floor hy),
    nearest_eq (h.fits_sub_mul_floor hy)]

theorem rounded_div (h : Commensurable x y) (hy : y ≠ 0) :
    rounded (x / y) = some (nearest (x / y)) := by
  have hfits : Fits ((2 ^ 53 : ℤ) : ℚ) := fits_intCast (by norm_num)
  have hle : |nearest (x / y)| ≤ (2 ^ 53 : ℤ) := by
    obtain ⟨m, n, e, -, -, hquotient, hn, hsize, -⟩ := h.exists_multiples hy
    have hm : |m| ≤ 2 ^ 53 := by
      have := abs_nonneg n
      omega
    rw [hquotient]
    apply abs_nearest_le hfits
    exact (abs_div_le hn).trans (by exact_mod_cast hm)
  exact bounded_of_lt (lt_two_pow_of_le (by exact_mod_cast hle))

end Commensurable

section Doubles

variable {a b r : Float} {x y z : ℚ}

theorem value?_mod (ha : value? a = some x) (hb : value? b = some y) (hy : y ≠ 0) :
    value? (compute .mod a b) = (rounded (x / y)).bind fun q =>
      (rounded (y * ⌊q⌋)).bind fun p => rounded (x - p) := by
  rw [compute, value?_sub, value?_mul, value?_floor, value?_div a hb, ha, hb]
  simp only [Option.bind_some, if_neg hy, Option.bind_map, Option.bind_assoc, Function.comp_def]

theorem apply_mod_eq_ok_iff (hb : value? b = some y) (hy : y ≠ 0) :
    apply .mod a b = .ok r ↔ r = compute .mod a b ∧ (value? r).isSome := by
  have hzero : (b == 0) = false := by
    rw [Bool.eq_false_iff]
    exact mt (beq_zero_iff hb).mp hy
  rw [apply, hzero, Bool.and_false, if_neg Bool.false_ne_true]
  simp only [isFinite_eq]
  constructor
  · intro h
    split_ifs at h with hfinite
    cases h
    exact ⟨rfl, hfinite⟩
  · rintro ⟨rfl, hfinite⟩
    rw [if_pos hfinite]

theorem value?_of_apply_mod (ha : value? a = some x) (hb : value? b = some y) (hy : y ≠ 0)
    (h : apply .mod a b = .ok r) : value? r = some (roundedRemainder x y) := by
  obtain ⟨rfl, hfinite⟩ := (apply_mod_eq_ok_iff hb hy).mp h
  obtain ⟨z, hz⟩ := Option.isSome_iff_exists.mp hfinite
  have hsteps := hz
  rw [value?_mod ha hb hy] at hsteps
  simp only [Option.bind_eq_some_iff] at hsteps
  obtain ⟨q, hq, p, hp, hrest⟩ := hsteps
  rw [hz, eq_nearest_of_rounded hrest, eq_nearest_of_rounded hp, eq_nearest_of_rounded hq]
  rfl

theorem Commensurable.exists_apply_mod (h : Commensurable x y) (ha : value? a = some x)
    (hb : value? b = some y) (hy : y ≠ 0) (hsize : |x| + |y| < 2 ^ (1024 : ℤ)) :
    ∃ r, apply .mod a b = .ok r := by
  have hx := abs_nonneg x
  have hrest : |x - y * ⌊x / y⌋| < |y| := (floored_sub_mul_floor x hy).2
  have hproduct : |y * ⌊x / y⌋| < 2 ^ (1024 : ℤ) := by
    have hle := abs_sub_abs_le_abs_sub (y * ⌊x / y⌋) x
    rw [abs_sub_comm] at hle
    linarith
  refine ⟨compute .mod a b, (apply_mod_eq_ok_iff hb hy).mpr ⟨rfl, ?_⟩⟩
  rw [value?_mod ha hb hy, h.rounded_div hy, Option.bind_some, ← roundedFloor, h.roundedFloor_eq hy,
    rounded_of_fits (h.fits_mul_floor hy), bounded_of_lt hproduct, Option.bind_some,
    rounded_of_fits (h.fits_sub_mul_floor hy), bounded_of_lt (by linarith)]
  rfl

theorem apply_mod_remainder (ha : value? a = some x) (hb : value? b = some y) (hy : y ≠ 0) :
    let z := roundedRemainder x y
    (∀ r, apply .mod a b = .ok r → value? r = some z) ∧
      (z = 0 ∨ (0 < z * y ↔ roundedFloor x y ≤ x / y)) ∧
      (|z| ≤ 2 * |y| ∨ |z| ≤ |x| / 2 ^ 51) ∧
      (Commensurable x y → z = x - y * ⌊x / y⌋ ∧ Floored y z ∧
        (|x| + |y| < 2 ^ (1024 : ℤ) → ∃ r, apply .mod a b = .ok r)) := by
  intro z
  have hx := fits_of_value? ha
  have hfit := fits_of_value? hb
  refine ⟨?_, ?_, ?_, ?_⟩
  · intro r hr
    exact value?_of_apply_mod ha hb hy hr
  · exact or_iff_not_imp_left.mpr (roundedRemainder_sign hx hy)
  · exact abs_roundedRemainder_le hx hfit hy
  · intro h
    have hz : z = x - y * ⌊x / y⌋ := h.roundedRemainder_eq hy
    refine ⟨hz, ?_, h.exists_apply_mod ha hb hy⟩
    rw [hz]
    exact floored_sub_mul_floor x hy

theorem apply_mod_remainder_neg_seven :
    ∃ r z, apply .mod (-Float.ofNat 7) (Float.ofNat 3) = .ok r ∧ value? r = some z ∧
      z = -7 - 3 * ⌊(-7 / 3 : ℚ)⌋ ∧ Floored 3 z := by
  have ha : value? (-Float.ofNat 7) = some (-7) := value?_neg_ofNat (n := 7) (by norm_num)
  have hb : value? (Float.ofNat 3) = some 3 := value?_ofNat (n := 3) (by norm_num)
  have hcommensurable : Commensurable (-7) 3 :=
    ⟨-7, 3, 0, by norm_num, by norm_num, by norm_num, by norm_num⟩
  obtain ⟨hvalue, -, -, hexact⟩ := apply_mod_remainder ha hb (by norm_num)
  obtain ⟨hz, hfloored, hexists⟩ := hexact hcommensurable
  obtain ⟨r, hr⟩ := hexists (lt_two_pow_of_le (by norm_num))
  exact ⟨r, _, hr, hvalue r hr, hz, hfloored⟩

/-- The doubles next to 1.7 and 0.1: their quotient is rounded up to 17, so that the remainder is
negative. -/
theorem apply_mod_not_floored :
    value? (Float.ofBits 0x3ffb333333333333) = some (7656119366529843 * 2 ^ (-52 : ℤ)) ∧
      value? (Float.ofBits 0x3fb999999999999a) = some (7205759403792794 * 2 ^ (-56 : ℤ)) ∧
      apply .mod (Float.ofBits 0x3ffb333333333333) (Float.ofBits 0x3fb999999999999a) =
        .ok (Float.ofBits 0xbcb0000000000000) ∧
      value? (Float.ofBits 0xbcb0000000000000) = some (-2 ^ 52 * 2 ^ (-104 : ℤ)) ∧
      ¬ Floored (7205759403792794 * 2 ^ (-56 : ℤ)) (-2 ^ 52 * 2 ^ (-104 : ℤ)) := by
  refine ⟨?_, ?_, by decide +kernel, ?_, ?_⟩
  · rw [← value?_exact, show exact _ = .finite false 7656119366529843 (-52) by decide +kernel]
    norm_num [Exact.value?]
  · rw [← value?_exact, show exact _ = .finite false 7205759403792794 (-56) by decide +kernel]
    norm_num [Exact.value?]
  · rw [← value?_exact, show exact _ = .finite true (2 ^ 52) (-104) by decide +kernel]
    norm_num [Exact.value?]
  · rintro ⟨hzero | hpos, -⟩
    · norm_num at hzero
    · norm_num at hpos

end Doubles

end ScopedFormulas.Number
