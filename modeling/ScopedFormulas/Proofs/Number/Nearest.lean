import Mathlib

/-!
Rounding of rational numbers to 53 bits. The nearest multiple of a power of two is taken, which is
fine enough for the number to have 53 bits and no finer than the least double. Rounding keeps what
already fits, it keeps on its side of everything that fits, and its error is small against the number
unless the least double sets the unit.
-/

namespace ScopedFormulas.Number

/-- The nearest integer, of two equally near ones the even one. -/
def roundEven (x : ℚ) : ℤ :=
  if x - ⌊x⌋ < 1 / 2 then ⌊x⌋
  else if 1 / 2 < x - ⌊x⌋ then ⌊x⌋ + 1
  else ⌊x⌋ + ⌊x⌋ % 2

section Integers

variable {x : ℚ} {n : ℤ}

theorem roundEven_cases (x : ℚ) : roundEven x = ⌊x⌋ ∨ roundEven x = ⌊x⌋ + 1 := by
  rw [roundEven]
  split_ifs <;> omega

theorem roundEven_intCast (n : ℤ) : roundEven n = n := by
  simp [roundEven]

theorem abs_roundEven_sub_le (x : ℚ) : |(roundEven x : ℚ) - x| ≤ 1 / 2 := by
  have hlow := Int.floor_le x
  have hhigh := Int.lt_floor_add_one x
  rw [abs_le]
  by_cases hbelow : x - ⌊x⌋ < 1 / 2
  · rw [roundEven, if_pos hbelow]
    constructor <;> linarith
  by_cases habove : 1 / 2 < x - ⌊x⌋
  · rw [roundEven, if_neg hbelow, if_pos habove]
    push_cast
    constructor <;> linarith
  · have hhalf : x - ⌊x⌋ = 1 / 2 := le_antisymm (not_lt.mp habove) (not_lt.mp hbelow)
    rcases roundEven_cases x with h | h
    · rw [h]
      constructor <;> linarith
    · rw [h]
      push_cast
      constructor <;> linarith

theorem roundEven_le (h : x ≤ n) : roundEven x ≤ n := by
  have herror := abs_le.mp (abs_roundEven_sub_le x)
  have hlt : (roundEven x : ℚ) < (n + 1 : ℤ) := by
    push_cast
    linarith
  have := Int.cast_lt.mp hlt
  omega

theorem le_roundEven (h : n ≤ x) : n ≤ roundEven x := by
  have herror := abs_le.mp (abs_roundEven_sub_le x)
  have hlt : ((n - 1 : ℤ) : ℚ) < roundEven x := by
    push_cast
    linarith
  have := Int.cast_lt.mp hlt
  omega

theorem roundEven_neg (x : ℚ) : roundEven (-x) = -roundEven x := by
  rcases (Int.floor_le x).eq_or_lt with hfloor | hfloor
  · rw [← hfloor, ← Int.cast_neg, roundEven_intCast, roundEven_intCast]
  · have hhigh := Int.lt_floor_add_one x
    have hneg : ⌊-x⌋ = -⌊x⌋ - 1 := by
      rw [Int.floor_eq_iff]
      push_cast
      constructor <;> linarith
    have hpart : -x - ⌊-x⌋ = 1 - (x - ⌊x⌋) := by
      rw [hneg]
      push_cast
      ring
    rw [roundEven, roundEven, hpart, hneg]
    split_ifs
    all_goals first | omega | linarith

end Integers

def unit (x : ℚ) : ℤ := max (Int.log 2 |x| - 52) (-1074)

def nearest (x : ℚ) : ℚ := roundEven (x / 2 ^ unit x) * 2 ^ unit x

/-- A multiple of a power of two that takes at most 53 bits. Its size is not limited. -/
def Fits (x : ℚ) : Prop := ∃ m e : ℤ, x = m * 2 ^ e ∧ |m| ≤ 2 ^ 53 ∧ -1074 ≤ e

section Rounding

variable {x y : ℚ}

theorem unit_neg (x : ℚ) : unit (-x) = unit x := by
  rw [unit, abs_neg, unit]

theorem nearest_neg (x : ℚ) : nearest (-x) = -nearest x := by
  rw [nearest, unit_neg, neg_div, roundEven_neg, nearest]
  push_cast
  ring

theorem Fits.neg (h : Fits x) : Fits (-x) := by
  obtain ⟨m, e, rfl, hm, he⟩ := h
  refine ⟨-m, e, ?_, ?_, he⟩
  · push_cast
    ring
  · rwa [abs_neg]

theorem two_pow_pos (e : ℤ) : (0 : ℚ) < 2 ^ e := zpow_pos (by norm_num) e

theorem two_pow_add (d e : ℤ) : (2 : ℚ) ^ (d + e) = 2 ^ d * 2 ^ e := zpow_add₀ (by norm_num) d e

theorem log_eq {k : ℤ} (hlow : 2 ^ k ≤ x) (hhigh : x < 2 ^ (k + 1)) : Int.log 2 x = k := by
  have hx : 0 < x := (two_pow_pos k).trans_le hlow
  have hle : k ≤ Int.log 2 x := (Int.zpow_le_iff_le_log (by norm_num) hx).mp (by exact_mod_cast hlow)
  have hlt : Int.log 2 x < k + 1 :=
    (Int.lt_zpow_iff_log_lt (by norm_num) hx).mp (by exact_mod_cast hhigh)
  omega

theorem lt_two_pow_unit (x : ℚ) : |x| < 2 ^ (53 + unit x) := by
  have hlog := Int.lt_zpow_succ_log_self (b := 2) (by norm_num) |x|
  refine lt_of_lt_of_le (by exact_mod_cast hlog) (zpow_le_zpow_right₀ (by norm_num) ?_)
  rw [unit]
  omega

theorem two_pow_unit_le (hx : x ≠ 0) (h : unit x ≠ -1074) : 2 ^ (52 + unit x) ≤ |x| := by
  have hlog := Int.zpow_log_le_self (b := 2) (by norm_num) (abs_pos.mpr hx)
  have hunit : 52 + unit x = Int.log 2 |x| := by
    rw [unit] at h ⊢
    omega
  rw [hunit]
  exact_mod_cast hlog

theorem Fits.multiple_or_lt (h : Fits y) (hx : x ≠ 0) :
    (∃ k : ℤ, y = k * 2 ^ unit x) ∨ |y| < 2 ^ (52 + unit x) ∧ 2 ^ (52 + unit x) ≤ |x| := by
  obtain ⟨m, e, rfl, hm, he⟩ := h
  rcases le_or_gt (unit x) e with hle | hlt
  · left
    obtain ⟨d, hd⟩ := Int.eq_ofNat_of_zero_le (Int.sub_nonneg.mpr hle)
    refine ⟨m * 2 ^ d, ?_⟩
    rw [show e = d + unit x by omega, two_pow_add, zpow_natCast]
    push_cast
    ring
  · have hsize : |(m : ℚ) * 2 ^ e| ≤ 2 ^ (52 + unit x) := by
      rw [abs_mul, abs_of_pos (two_pow_pos e)]
      calc |(m : ℚ)| * 2 ^ e ≤ 2 ^ (53 : ℤ) * 2 ^ e := by
            apply mul_le_mul_of_nonneg_right _ (two_pow_pos e).le
            exact_mod_cast hm
        _ = 2 ^ (53 + e) := (two_pow_add 53 e).symm
        _ ≤ 2 ^ (52 + unit x) := zpow_le_zpow_right₀ (by norm_num) (by omega)
    rcases hsize.lt_or_eq with hless | heq
    · right
      exact ⟨hless, two_pow_unit_le hx (by omega)⟩
    · left
      rcases abs_eq (two_pow_pos _).le |>.mp heq with hpos | hneg
      · refine ⟨2 ^ 52, ?_⟩
        rw [hpos, two_pow_add]
        norm_num
      · refine ⟨-2 ^ 52, ?_⟩
        rw [hneg, two_pow_add]
        norm_num

theorem nearest_zero : nearest 0 = 0 := by
  rw [nearest, zero_div, ← Int.cast_zero, roundEven_intCast, Int.cast_zero, zero_mul]

theorem nearest_le (hy : Fits y) (h : x ≤ y) : nearest x ≤ y := by
  have hpos := two_pow_pos (unit x)
  rcases eq_or_ne x 0 with rfl | hx
  · rwa [nearest_zero]
  rcases hy.multiple_or_lt hx with ⟨k, rfl⟩ | ⟨hsmall, hlarge⟩
  · have hk : roundEven (x / 2 ^ unit x) ≤ k := roundEven_le ((div_le_iff₀ hpos).mpr h)
    apply mul_le_mul_of_nonneg_right _ hpos.le
    exact_mod_cast hk
  · -- The number is below all that is finer than its unit, and so is what it is rounded to.
    have hy := abs_lt.mp hsmall
    have hneg : x ≤ -2 ^ (52 + unit x) := by
      rcases le_abs'.mp hlarge with hneg | hge
      · exact hneg
      · linarith
    have hround : roundEven (x / 2 ^ unit x) ≤ -2 ^ 52 := by
      apply roundEven_le
      rw [div_le_iff₀ hpos]
      rw [two_pow_add] at hneg
      push_cast
      norm_num at hneg ⊢
      linarith
    have hle : nearest x ≤ -2 ^ (52 + unit x) := by
      have hmul := mul_le_mul_of_nonneg_right (Int.cast_le (R := ℚ).mpr hround) hpos.le
      rw [two_pow_add]
      push_cast at hmul
      norm_num at hmul ⊢
      exact hmul
    linarith

theorem le_nearest (hy : Fits y) (h : y ≤ x) : y ≤ nearest x := by
  have hneg := nearest_le hy.neg (neg_le_neg h)
  rw [nearest_neg] at hneg
  exact neg_le_neg_iff.mp hneg

theorem nearest_eq (h : Fits x) : nearest x = x :=
  le_antisymm (nearest_le h le_rfl) (le_nearest h le_rfl)

theorem abs_nearest_sub_le (x : ℚ) : |nearest x - x| ≤ 2 ^ unit x / 2 := by
  have hpos := two_pow_pos (unit x)
  have hscale : nearest x - x = (roundEven (x / 2 ^ unit x) - x / 2 ^ unit x) * 2 ^ unit x := by
    rw [sub_mul, div_mul_cancel₀ x hpos.ne', nearest]
  rw [hscale, abs_mul, abs_of_pos hpos]
  have herror := mul_le_mul_of_nonneg_right (abs_roundEven_sub_le (x / 2 ^ unit x)) hpos.le
  linarith

theorem fits_zero : Fits 0 := ⟨0, 0, by norm_num, by norm_num, by norm_num⟩

theorem fits_intCast {n : ℤ} (h : |n| ≤ 2 ^ 53) : Fits n := ⟨n, 0, by norm_num, h, by norm_num⟩

theorem nearest_nonneg (h : 0 ≤ x) : 0 ≤ nearest x := le_nearest fits_zero h

theorem nearest_nonpos (h : x ≤ 0) : nearest x ≤ 0 := nearest_le fits_zero h

theorem abs_nearest_le (hy : Fits y) (h : |x| ≤ y) : |nearest x| ≤ y := by
  obtain ⟨hlow, hhigh⟩ := abs_le.mp h
  exact abs_le.mpr ⟨le_nearest hy.neg hlow, nearest_le hy hhigh⟩

def OnGrid (x : ℚ) : Prop := ∃ m : ℤ, x = m * 2 ^ (-1074 : ℤ)

theorem onGrid_of_le {m e : ℤ} (he : -1074 ≤ e) : OnGrid (m * 2 ^ e) := by
  obtain ⟨d, hd⟩ := Int.eq_ofNat_of_zero_le (Int.sub_nonneg.mpr he)
  refine ⟨m * 2 ^ d, ?_⟩
  rw [show e = d + -1074 by omega, two_pow_add, zpow_natCast, ← mul_assoc, Int.cast_mul,
    Int.cast_pow, Int.cast_ofNat]

theorem Fits.onGrid (h : Fits x) : OnGrid x := by
  obtain ⟨m, e, rfl, -, he⟩ := h
  exact onGrid_of_le he

theorem onGrid_nearest (x : ℚ) : OnGrid (nearest x) := onGrid_of_le (le_max_right _ _)

theorem OnGrid.sub (hx : OnGrid x) (hy : OnGrid y) : OnGrid (x - y) := by
  obtain ⟨m, rfl⟩ := hx
  obtain ⟨n, rfl⟩ := hy
  exact ⟨m - n, by rw [Int.cast_sub, sub_mul]⟩

theorem OnGrid.mul_intCast (hx : OnGrid x) (k : ℤ) : OnGrid (x * k) := by
  obtain ⟨m, rfl⟩ := hx
  exact ⟨m * k, by rw [Int.cast_mul, mul_right_comm]⟩

theorem abs_nearest_sub_le_of_unit_ne (hx : x ≠ 0) (h : unit x ≠ -1074) :
    |nearest x - x| ≤ |x| / 2 ^ 53 := by
  have herror := abs_nearest_sub_le x
  have hlow := two_pow_unit_le hx h
  rw [two_pow_add] at hlow
  norm_num at hlow ⊢
  linarith

theorem abs_nearest_sub_le_or (x : ℚ) :
    |nearest x - x| ≤ |x| / 2 ^ 53 ∨ |nearest x - x| ≤ 2 ^ (-1075 : ℤ) := by
  rcases eq_or_ne x 0 with rfl | hx
  · left
    simp [nearest_zero]
  by_cases hunit : unit x = -1074
  · right
    have herror := abs_nearest_sub_le x
    rwa [hunit, div_eq_mul_inv, ← zpow_neg_one, ← two_pow_add] at herror
  · exact .inl (abs_nearest_sub_le_of_unit_ne hx hunit)

theorem ne_zero_of_large (h : 2 ^ 52 ≤ |x|) : x ≠ 0 := abs_pos.mp (lt_of_lt_of_le (by norm_num) h)

theorem unit_nonneg (h : 2 ^ 52 ≤ |x|) : 0 ≤ unit x := by
  have hpos : 0 < |x| := abs_pos.mpr (ne_zero_of_large h)
  have hlog : 52 ≤ Int.log 2 |x| :=
    (Int.zpow_le_iff_le_log (by norm_num) hpos).mp (by exact_mod_cast h)
  rw [unit]
  omega

theorem abs_nearest_sub_le_of_large (h : 2 ^ 52 ≤ |x|) : |nearest x - x| ≤ |x| / 2 ^ 53 := by
  have hunit := unit_nonneg h
  exact abs_nearest_sub_le_of_unit_ne (ne_zero_of_large h) (by omega)

theorem abs_nearest_sub_le_of_onGrid (h : OnGrid x) : |nearest x - x| ≤ |x| / 2 ^ 53 := by
  rcases eq_or_ne x 0 with rfl | hx
  · simp [nearest_zero]
  by_cases hunit : unit x = -1074
  · obtain ⟨m, hm⟩ := h
    have hscale : x / 2 ^ unit x = m := by rw [hunit, hm, mul_div_cancel_right₀ _ (two_pow_pos _).ne']
    rw [nearest, hscale, roundEven_intCast, hunit, ← hm, sub_self, abs_zero]
    positivity
  · exact abs_nearest_sub_le_of_unit_ne hx hunit

end Rounding

end ScopedFormulas.Number
