import Mathlib
import ScopedFormulas.Number.Arithmetic
import ScopedFormulas.Proofs.Number.Rounding

namespace ScopedFormulas.Number

open Float.Model UnpackedFloat

theorem add_le_unit {m n : ℕ} {e f : ℤ} (hm : 0 < m) (hn : 0 < n) (he : Canonical m e)
    (hf : Canonical n f) : e + f ≤ unit ((m * n : ℕ) * 2 ^ (e + f)) := by
  have hpos := two_pow_pos (e + f)
  have hmin : -1074 ≤ unit ((m * n : ℕ) * 2 ^ (e + f)) := le_max_right _ _
  obtain ⟨-, -, hlow⟩ := (canonical_iff hm).mp he
  obtain ⟨-, -, hlow'⟩ := (canonical_iff hn).mp hf
  by_cases hproduct : 2 ^ 52 ≤ m * n
  · have hx : 2 ^ (52 + (e + f)) ≤ ((m * n : ℕ) : ℚ) * 2 ^ (e + f) := by
      rw [two_pow_add]
      apply mul_le_mul_of_nonneg_right _ hpos.le
      exact_mod_cast hproduct
    have := le_unit ((two_pow_pos _).trans_le hx) hx
    omega
  · have hm' : m ≤ m * n := Nat.le_mul_of_pos_right m hn
    have hn' : n ≤ m * n := Nat.le_mul_of_pos_left n hm
    omega

theorem targetExponent_le_unit {m n : ℕ} {e f : ℤ} (hm : 0 < m) (hn : 0 < n) :
    Format.binary64.targetExponent (totalExponent m e - totalExponent n f) ≤
      unit (m / n * 2 ^ (e - f)) := by
  have hlow : (2 : ℚ) ^ m.log2 ≤ m := by exact_mod_cast Nat.log2_self_le hm.ne'
  have hhigh : (n : ℚ) ≤ 2 ^ (n.log2 + 1) := by exact_mod_cast Nat.lt_log2_self.le
  have hx : 2 ^ ((m.log2 : ℤ) - (n.log2 + 1 : ℕ) + (e - f)) ≤ (m : ℚ) / n * 2 ^ (e - f) := by
    rw [two_pow_add, zpow_sub₀ (by norm_num), zpow_natCast, zpow_natCast]
    apply mul_le_mul_of_nonneg_right _ (two_pow_pos _).le
    apply div_le_div₀ (by positivity) hlow (by positivity) hhigh
  have hle := le_unit ((two_pow_pos _).trans_le hx) hx
  change max ((m.log2 : ℤ) + 1 + e - (n.log2 + 1 + f) - 53) (-1074) ≤ _
  omega

theorem approximates_div (m : ℕ) {n : ℕ} (hn : 0 < n) :
    Approximates (.ofMantissaAndAccuracy (m / n) (accuracyOfFraction (m % n) n)) (m / n) := by
  have hpos : (0 : ℚ) < n := by exact_mod_cast hn
  have hdiv : (m : ℚ) / n = (m / n : ℕ) + (m % n : ℕ) / n := by
    have hmod : ((n * (m / n) + m % n : ℕ) : ℚ) = m := by rw [Nat.div_add_mod]
    push_cast at hmod
    rw [← hmod]
    field_simp
  have hlt : ((m % n : ℕ) : ℚ) / n < 1 := by
    rw [div_lt_one hpos]
    exact_mod_cast Nat.mod_lt m hn
  rw [hdiv, accuracyOfFraction]
  split_ifs with hzero
  · rw [hzero, Nat.cast_zero, zero_div, add_zero]
    exact .exact _
  · have hrest : 0 < ((m % n : ℕ) : ℚ) / n := by
      apply div_pos _ hpos
      exact_mod_cast Nat.pos_of_ne_zero hzero
    rcases lt_trichotomy (2 * (m % n)) n with hless | heq | hmore
    · rw [compare_lt_iff_lt.mpr hless]
      have hhalf : ((m % n : ℕ) : ℚ) / n < 1 / 2 := by
        rw [div_lt_div_iff₀ hpos two_pos]
        exact_mod_cast (by omega : m % n * 2 < 1 * n)
      exact .below (by linarith) (by linarith)
    · rw [compare_eq_iff_eq.mpr heq]
      have hhalf : ((m % n : ℕ) : ℚ) / n = 1 / 2 := by
        rw [div_eq_div_iff hpos.ne' two_ne_zero]
        exact_mod_cast (by omega : m % n * 2 = 1 * n)
      rw [hhalf]
      exact .half _
    · rw [compare_gt_iff_gt.mpr hmore]
      have hhalf : 1 / 2 < ((m % n : ℕ) : ℚ) / n := by
        rw [div_lt_div_iff₀ two_pos hpos]
        exact_mod_cast (by omega : 1 * n < m % n * 2)
      exact .above (by linarith) (by linarith)

def Regular (u : UnpackedFloat) : Prop :=
  ∀ s m e hm, u = finite s m e hm → Canonical m e

theorem regular_unpack (b : BitVec Format.binary64.numBits) :
    Regular (UnpackedFloat.unpack Format.binary64 b) := by
  intro s m e hm h
  have hbias : ((Format.binary64.exponentBias : ℕ) : ℤ) + Format.binary64.mantissaBitsWithoutImplicit =
    1075 := rfl
  have hfraction : (unpackMantissa b).toNat < 2 ^ 52 := (unpackMantissa b).isLt
  simp only [UnpackedFloat.unpack, hbias] at h
  split at h
  · split at h <;> cases h
  split at h
  · rename_i hempty
    split at h
    · cases h
    · cases h
      have hzero : (BitVec.ofNat Format.binary64.exponentBits 0).toNat = 0 := rfl
      rw [canonical_iff hm, hempty, hzero]
      omega
  · rename_i hempty
    have hfield : (unpackExponent b).toNat ≠ 0 := by
      intro hzero
      apply hempty
      exact BitVec.toNat_inj.mp hzero
    cases h
    rw [canonical_iff hm, toNat_append_one]
    omega

section Operations

variable {u v : UnpackedFloat}

theorem fits_of_unpackedValue? {p : ℚ} (hu : Regular u) (h : unpackedValue? u = some p) : Fits p := by
  cases u with
  | notANumber | infinity s => cases h
  | zero s =>
    cases h
    exact ⟨0, 0, by norm_num, by norm_num, by norm_num⟩
  | finite s m e hm =>
    cases h
    obtain ⟨hhigh, hmin, -⟩ := (canonical_iff hm).mp (hu s m e hm rfl)
    refine ⟨s.apply m, e, rfl, ?_, hmin⟩
    cases s <;> simp only [Sign.apply, abs_neg, Nat.abs_cast]
    all_goals exact_mod_cast hhigh.le

theorem finite_ne_zero (s : Sign) {m : ℕ} (hm : 0 < m) (e : ℤ) :
    ((s.apply m : ℤ) : ℚ) * 2 ^ e ≠ 0 := by
  have hm' : (m : ℚ) ≠ 0 := Nat.cast_ne_zero.mpr hm.ne'
  rw [cast_apply, Int.cast_natCast]
  exact mul_ne_zero (mul_ne_zero (factor_ne_zero s) hm') (two_pow_pos e).ne'

theorem packedValue?_of_regular (hu : Regular u) :
    packedValue? u = (unpackedValue? u).bind bounded := by
  cases u with
  | notANumber | infinity s => simp [unpackedValue?]
  | zero s => simp [unpackedValue?, bounded_zero]
  | finite s m e hm =>
    rw [packedValue?_finite hm (hu s m e hm rfl), unpackedValue?, Option.bind_some, cast_apply,
      Int.cast_natCast, mul_assoc]

theorem Regular.neg (hu : Regular u) : Regular u.neg := by
  intro s m e hm h
  cases u with
  | notANumber | infinity t | zero t => cases h
  | finite t n f hn =>
    cases h
    exact hu t m e hm rfl

theorem unpackedValue?_neg (u : UnpackedFloat) :
    unpackedValue? u.neg = (unpackedValue? u).map fun p => -p := by
  cases u with
  | notANumber | infinity s => rfl
  | zero s => simp [UnpackedFloat.neg, unpackedValue?]
  | finite s m e hm => simp [UnpackedFloat.neg, unpackedValue?, cast_apply, factor_neg]

theorem packedValue?_sub (hu : Regular u) (hv : Regular v) :
    packedValue? (UnpackedFloat.sub Format.binary64 u v) =
      (unpackedValue? u).bind fun p => (unpackedValue? v).bind fun q => rounded (p - q) := by
  cases u with
  | notANumber => simp [UnpackedFloat.sub, unpackedValue?]
  | infinity s =>
    cases v with
    | infinity t =>
      simp only [UnpackedFloat.sub, unpackedValue?, Option.bind_none]
      split_ifs <;> simp
    | notANumber | zero t | finite t n f hn => simp [UnpackedFloat.sub, unpackedValue?]
  | zero s =>
    cases v with
    | notANumber | infinity t => simp [UnpackedFloat.sub, unpackedValue?]
    | zero t =>
      simp only [UnpackedFloat.sub, unpackedValue?, Option.bind_some, sub_zero, rounded_zero]
      split_ifs <;> simp
    | finite t n f hn =>
      -- Nothing is rounded when an operand is zero, and the other one fits.
      have hfits := (fits_of_unpackedValue? hv rfl).neg
      change packedValue? (finite t n f hn).neg = _
      rw [packedValue?_of_regular hv.neg, unpackedValue?_neg]
      simp only [unpackedValue?, Option.map_some, Option.bind_some, zero_sub, rounded_of_fits hfits]
  | finite s m e hm =>
    cases v with
    | notANumber | infinity t => simp [UnpackedFloat.sub, unpackedValue?]
    | zero t =>
      have hfits := fits_of_unpackedValue? hu rfl
      change packedValue? (finite s m e hm) = _
      rw [packedValue?_of_regular hu]
      simp only [unpackedValue?, Option.bind_some, sub_zero, rounded_of_fits hfits]
    | finite t n f hn =>
      simp only [UnpackedFloat.sub, unpackedValue?, Option.bind_some, decreaseExponent]
      rw [packedValue?_normalize, Int.cast_sub, sub_mul, apply_shiftLeft s m (min_le_left e f),
        apply_shiftLeft t n (min_le_right e f), cast_apply, cast_apply, Int.cast_natCast,
        Int.cast_natCast, mul_assoc, mul_assoc]

theorem packedValue?_mul (hu : Regular u) (hv : Regular v) :
    packedValue? (UnpackedFloat.mul Format.binary64 u v) =
      (unpackedValue? u).bind fun p => (unpackedValue? v).bind fun q => rounded (p * q) := by
  cases u with
  | notANumber => simp [UnpackedFloat.mul, unpackedValue?]
  | infinity s => cases v <;> simp [UnpackedFloat.mul, unpackedValue?]
  | zero s => cases v <;> simp [UnpackedFloat.mul, unpackedValue?]
  | finite s m e hm =>
    cases v with
    | notANumber | infinity t | zero t => simp [UnpackedFloat.mul, unpackedValue?]
    | finite t n f hn =>
      have hproduct : ((s.apply m : ℤ) : ℚ) * 2 ^ e * ((t.apply n : ℤ) * 2 ^ f) =
          factor (s * t) * ((m * n : ℕ) * 2 ^ (e + f)) := by
        rw [cast_apply, cast_apply, factor_mul, two_pow_add]
        push_cast
        ring
      have hpos := two_pow_pos (e + f)
      have hx : 0 < ((m * n : ℕ) : ℚ) * 2 ^ (e + f) := by
        have := Nat.mul_pos hm hn
        positivity
      simp only [UnpackedFloat.mul, unpackedValue?, Option.bind_some, hproduct]
      apply packedValue?_roundWithAccuracy hx
      · exact add_le_unit hm hn (hu s m e hm rfl) (hv t n f hn rfl)
      · rw [mul_div_cancel_right₀ _ hpos.ne']
        exact .exact _

theorem packedValue?_div {q : ℚ} (hq : unpackedValue? v = some q) :
    packedValue? (UnpackedFloat.div Format.binary64 u v) =
      (unpackedValue? u).bind fun p => if q = 0 then none else rounded (p / q) := by
  cases v with
  | notANumber | infinity t => cases hq
  | zero t =>
    cases hq
    cases u <;> simp [UnpackedFloat.div, unpackedValue?]
  | finite t n f hn =>
    cases hq
    have hne := finite_ne_zero t hn f
    cases u with
    | notANumber | infinity s => simp [UnpackedFloat.div, unpackedValue?]
    | zero s => simp [UnpackedFloat.div, unpackedValue?, hne]
    | finite s m e hm =>
      have hquotient : ((s.apply m : ℤ) : ℚ) * 2 ^ e / ((t.apply n : ℤ) * 2 ^ f) =
          factor (s / t) * (m / n * 2 ^ (e - f)) := by
        rw [cast_apply, cast_apply, factor_div, zpow_sub₀ (by norm_num), Int.cast_natCast,
          Int.cast_natCast]
        ring
      simp only [UnpackedFloat.div, divCore, unpackedValue?, Option.bind_some, if_neg hne, hquotient]
      -- The dividend is shifted to the left as far as the quotient needs bits.
      generalize ht : min (e - f)
        (Format.binary64.targetExponent (totalExponent m e - totalExponent n f)) = d
      obtain ⟨k, hk⟩ := Int.eq_ofNat_of_zero_le (show 0 ≤ e - f - d by omega)
      rw [hk, Int.toNat_natCast]
      have hpos := two_pow_pos d
      have hx : 0 < (m : ℚ) / n * 2 ^ (e - f) := by positivity
      apply packedValue?_roundWithAccuracy hx
      · have hle := targetExponent_le_unit hm hn (e := e) (f := f)
        omega
      · have hscaled : (m : ℚ) / n * 2 ^ (e - f) / 2 ^ d = (m <<< k : ℕ) / n := by
          rw [show e - f = k + d by omega, two_pow_add, zpow_natCast, Nat.shiftLeft_eq]
          push_cast
          field_simp
        rw [hscaled]
        exact approximates_div _ hn

end Operations

section Doubles

variable {x y : Float} {p q : ℚ}

theorem fits_of_value? (h : value? x = some p) : Fits p :=
  fits_of_unpackedValue? (regular_unpack _) h

theorem value?_sub (x y : Float) :
    value? (x - y) = (value? x).bind fun p => (value? y).bind fun q => rounded (p - q) :=
  packedValue?_sub (regular_unpack _) (regular_unpack _)

theorem value?_mul (x y : Float) :
    value? (x * y) = (value? x).bind fun p => (value? y).bind fun q => rounded (p * q) :=
  packedValue?_mul (regular_unpack _) (regular_unpack _)

theorem value?_div (x : Float) (hq : value? y = some q) :
    value? (x / y) = (value? x).bind fun p => if q = 0 then none else rounded (p / q) :=
  packedValue?_div hq

theorem value?_neg (x : Float) : value? (-x) = (value? x).bind fun p => bounded (-p) := by
  have hregular : Regular x.toModel.unpack := regular_unpack _
  change packedValue? x.toModel.unpack.neg = (unpackedValue? x.toModel.unpack).bind _
  rw [packedValue?_of_regular hregular.neg, unpackedValue?_neg, Option.bind_map]
  rfl

theorem isFinite_eq (x : Float) : isFinite x = (value? x).isSome := by
  rw [isFinite, ← value?_exact]
  cases exact x <;> rfl

theorem beq_zero_iff (h : value? x = some p) : (x == 0) = true ↔ p = 0 := by
  have hzero : (0 : Float).toModel.unpack = zero .positive := by rfl
  change (x.toModel.unpack.compare (0 : Float).toModel.unpack == some .eq) = true ↔ _
  change unpackedValue? x.toModel.unpack = some p at h
  rw [hzero, beq_iff_eq]
  generalize x.toModel.unpack = u at *
  cases u with
  | notANumber | infinity s => cases h
  | zero s =>
    cases h
    simp [UnpackedFloat.compare]
  | finite s m e hm =>
    cases h
    have hne : ((s.apply m : ℤ) : ℚ) * 2 ^ e ≠ 0 := finite_ne_zero s hm e
    cases s <;> simp [UnpackedFloat.compare, hne]

theorem mantissa_lt {negative : Bool} {m : ℕ} {e : ℤ} (h : exact x = .finite negative m e) :
    m < 2 ^ 53 := by
  simp only [exact, Nat.pow_eq] at h
  split at h
  · split at h <;> cases h
  · split at h
    all_goals
      cases h
      omega

theorem bounded_natCast {n : ℕ} (h : n ≤ 2 ^ 53) : bounded n = some (n : ℚ) := by
  apply bounded_of_lt
  rw [Nat.abs_cast]
  exact lt_two_pow_of_le (by exact_mod_cast h)

theorem rounded_natCast {n : ℕ} (h : n ≤ 2 ^ 53) : rounded n = some (n : ℚ) := by
  have hfits : Fits ((n : ℤ) : ℚ) := by
    apply fits_intCast
    rw [Nat.abs_cast]
    exact_mod_cast h
  rw [Int.cast_natCast] at hfits
  rw [rounded_of_fits hfits, bounded_natCast h]

theorem value?_toFloat {n : ℕ} (h : n ≤ 2 ^ 53) : value? n.toUInt64.toFloat = some (n : ℚ) := by
  have hcast : n.toUInt64.toNat = n := UInt64.toNat_ofNat_of_lt' (h.trans_lt (by decide))
  change packedValue? (UnpackedFloat.normalize Format.binary64 n.toUInt64.toNat 0 .positive) = _
  rw [packedValue?_normalize, hcast, zpow_zero, mul_one, Int.cast_natCast, rounded_natCast h]

theorem value?_ofNat {n : ℕ} (h : n ≤ 2 ^ 53) : value? (Float.ofNat n) = some (n : ℚ) := by
  rcases h.lt_or_eq with hlt | rfl
  · -- A literal is a double times a power of ten, here of one.
    have hone : value? (Float.ofBits 0x3FF0000000000000) = some ((1 : ℕ) : ℚ) :=
      natural?_eq_some_iff.mp (by decide +kernel)
    change value? (Float.ofScientific n false 0) = _
    rw [Float.ofScientific, dif_pos ⟨hlt, by decide⟩]
    change value? (n.toUInt64.toFloat * Float.ofBits 0x3FF0000000000000) = _
    rw [value?_mul, value?_toFloat h, hone, Option.bind_some, Option.bind_some, Nat.cast_one, mul_one,
      rounded_natCast h]
  · exact natural?_eq_some_iff.mp (by decide +kernel)

theorem value?_neg_ofNat {n : ℕ} (h : n ≤ 2 ^ 53) : value? (-Float.ofNat n) = some (-(n : ℚ)) := by
  have hlt : |(-(n : ℚ))| < 2 ^ (1024 : ℤ) := by
    rw [abs_neg, Nat.abs_cast]
    exact lt_two_pow_of_le (by exact_mod_cast h)
  rw [value?_neg, value?_ofNat h, Option.bind_some, bounded_of_lt hlt]

theorem two_pow_mul_unit (e : ℤ) : (2 : ℚ) ^ e * (2 ^ (-e).toNat : ℕ) = (2 ^ e.toNat : ℕ) := by
  push_cast
  rw [← zpow_natCast, ← zpow_natCast, ← two_pow_add]
  congr 1
  omega

theorem exists_natCast_of_rest {m : ℕ} {e : ℤ} (h : m % 2 ^ (-e).toNat = 0) :
    ∃ n : ℕ, (m : ℚ) * 2 ^ e = n := by
  have hunit := two_pow_mul_unit e
  generalize 2 ^ (-e).toNat = u at *
  obtain ⟨n, rfl⟩ := Nat.dvd_of_mod_eq_zero h
  refine ⟨n * 2 ^ e.toNat, ?_⟩
  rw [Nat.cast_mul, Nat.cast_mul, ← hunit]
  ring

theorem exists_part_of_rest {m : ℕ} {e : ℤ} (h : m % 2 ^ (-e).toNat ≠ 0) :
    ∃ r : ℚ, 0 < r ∧ r < 1 ∧ (m : ℚ) * 2 ^ e = (m / 2 ^ (-e).toNat : ℕ) + r := by
  have hneg : e.toNat = 0 := by
    by_contra hne
    have hzero : (-e).toNat = 0 := by omega
    rw [hzero, Nat.pow_zero, Nat.mod_one] at h
    exact h rfl
  have hunit := two_pow_mul_unit e
  rw [hneg, Nat.pow_zero, Nat.cast_one] at hunit
  generalize 2 ^ (-e).toNat = u at *
  have hu : 0 < u := by
    rcases Nat.eq_zero_or_pos u with rfl | hu
    · simp at hunit
    · exact hu
  have hscale := two_pow_pos e
  refine ⟨(m % u : ℕ) * 2 ^ e, ?_, ?_, ?_⟩
  · have hpos : (0 : ℚ) < (m % u : ℕ) := by exact_mod_cast Nat.pos_of_ne_zero h
    positivity
  · rw [← hunit, mul_comm]
    apply mul_lt_mul_of_pos_left _ hscale
    exact_mod_cast Nat.mod_lt m hu
  · have hm : ((u * (m / u) + m % u : ℕ) : ℚ) = m := by rw [Nat.div_add_mod]
    calc (m : ℚ) * 2 ^ e = (2 ^ e * u) * (m / u : ℕ) + (m % u : ℕ) * 2 ^ e := by
          rw [← hm]
          push_cast
          ring
      _ = (m / u : ℕ) + (m % u : ℕ) * 2 ^ e := by rw [hunit, one_mul]

theorem floor_of_rest {m : ℕ} {e : ℤ} (h : m % 2 ^ (-e).toNat ≠ 0) :
    ⌊(m : ℚ) * 2 ^ e⌋ = (m / 2 ^ (-e).toNat : ℕ) ∧
      ⌊-((m : ℚ) * 2 ^ e)⌋ = -((m / 2 ^ (-e).toNat + 1 : ℕ) : ℤ) := by
  obtain ⟨r, hpos, hlt, hr⟩ := exists_part_of_rest h
  generalize m / 2 ^ (-e).toNat = q at *
  constructor
  · rw [Int.floor_eq_iff, hr]
    push_cast
    constructor <;> linarith
  · rw [Int.floor_eq_iff, hr]
    push_cast
    constructor <;> linarith

theorem value?_floor (x : Float) : value? (floor x) = (value? x).map fun p => (⌊p⌋ : ℚ) := by
  have hvalue := value?_exact x
  rw [floor]
  cases hx : exact x with
  | nan | infinity negative =>
    rw [hx] at hvalue
    simp only [← hvalue, Exact.value?, Option.map_none]
  | finite negative m e =>
    have hm := mantissa_lt hx
    have hle : m / 2 ^ (-e).toNat ≤ m := Nat.div_le_self m _
    rw [hx, Exact.value?] at hvalue
    simp only [Nat.pow_eq]
    split_ifs with hrest hsign
    · obtain ⟨n, hn⟩ := exists_natCast_of_rest hrest
      rw [← hvalue, Option.map_some]
      cases negative with
      | false => simp [hn]
      | true =>
        have hfloor : ⌊-(n : ℚ)⌋ = -(n : ℤ) := by
          rw [← Int.cast_natCast, ← Int.cast_neg, Int.floor_intCast]
        simp [hn, hfloor]
    · rw [value?_neg_ofNat (by omega), ← hvalue, if_pos hsign, Option.map_some, neg_mul,
        (floor_of_rest hrest).2, Int.cast_neg, Int.cast_natCast]
    · rw [value?_ofNat (by omega), ← hvalue, if_neg hsign, Option.map_some, (floor_of_rest hrest).1,
        Int.cast_natCast]

end Doubles

end ScopedFormulas.Number
