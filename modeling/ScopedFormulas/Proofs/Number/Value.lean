import Mathlib
import ScopedFormulas.Number.Exact

namespace ScopedFormulas.Number

open Float.Model UnpackedFloat

def unpackedValue? : UnpackedFloat → Option ℚ
  | zero _ => some 0
  | finite sign m e _ => some (sign.apply m * 2 ^ e)
  | infinity _ | notANumber => none

def value? (x : Float) : Option ℚ := unpackedValue? x.toModel.unpack

def Exact.value? : Exact → Option ℚ
  | finite negative m e => some ((if negative then -(m : ℚ) else m) * 2 ^ e)
  | infinity _ | nan => none

section Fields

variable (b : BitVec Format.binary64.numBits)

theorem toNat_unpackExponent :
    (unpackExponent b).toNat = b.toNat / 2 ^ 52 % 2 ^ 11 := by
  simp [unpackExponent, Nat.shiftRight_eq_div_pow]

theorem toNat_unpackMantissa :
    (unpackMantissa b).toNat = b.toNat % 2 ^ 52 := by
  simp [unpackMantissa]

theorem toNat_unpackSign : (unpackSign b).toNat = b.toNat / 2 ^ 63 := by
  have hlt : b.toNat < 2 ^ 64 := b.isLt
  simp [unpackSign, Nat.shiftRight_eq_div_pow]
  omega

theorem toNat_append_one (f : BitVec Format.binary64.mantissaBitsWithoutImplicit) :
    (1#1 ++ f).toNat = f.toNat + 2 ^ 52 := by
  rw [BitVec.toNat_append, ← Nat.shiftLeft_add_eq_or_of_lt f.isLt, Nat.add_comm]
  rfl

end Fields

theorem apply_unpackSign (b : BitVec Format.binary64.numBits) (m : ℕ) :
    (((Sign.ofBitVec (unpackSign b)).apply m : ℤ) : ℚ) =
      if (b.toNat / 2 ^ 63 == 1) = true then -(m : ℚ) else m := by
  have hlt := (unpackSign b).isLt
  have hzero : unpackSign b = 0#1 ↔ b.toNat / 2 ^ 63 = 0 := by
    rw [← BitVec.toNat_inj, toNat_unpackSign]
    rfl
  rw [toNat_unpackSign] at hlt
  by_cases h : b.toNat / 2 ^ 63 = 0
  · rw [Sign.ofBitVec, if_pos (hzero.mpr h), h]
    rfl
  · have hone : b.toNat / 2 ^ 63 = 1 := by omega
    rw [Sign.ofBitVec, if_neg (mt hzero.mp h), hone]
    simp [Sign.apply]

theorem unpackedValue?_unpack (b : BitVec Format.binary64.numBits) :
    unpackedValue? (UnpackedFloat.unpack Format.binary64 b) =
      if b.toNat / 2 ^ 52 % 2 ^ 11 = 2047 then none
      else if b.toNat / 2 ^ 52 % 2 ^ 11 = 0 then
        (Exact.finite (b.toNat / 2 ^ 63 == 1) (b.toNat % 2 ^ 52) (-1074)).value?
      else
        (Exact.finite (b.toNat / 2 ^ 63 == 1) (b.toNat % 2 ^ 52 + 2 ^ 52)
          (((b.toNat / 2 ^ 52 % 2 ^ 11 : ℕ) : ℤ) - 1075)).value? := by
  have hfull : unpackExponent b = -1#_ ↔ b.toNat / 2 ^ 52 % 2 ^ 11 = 2047 := by
    rw [← BitVec.toNat_inj, toNat_unpackExponent]
    rfl
  have hempty : unpackExponent b = 0#_ ↔ b.toNat / 2 ^ 52 % 2 ^ 11 = 0 := by
    rw [← BitVec.toNat_inj, toNat_unpackExponent]
    rfl
  have hzero : unpackMantissa b = 0#_ ↔ b.toNat % 2 ^ 52 = 0 := by
    rw [← BitVec.toNat_inj, toNat_unpackMantissa]
    rfl
  have hbias : ((Format.binary64.exponentBias : ℕ) : ℤ) + Format.binary64.mantissaBitsWithoutImplicit =
    1075 := rfl
  have hmantissa : (1#1 ++ unpackMantissa b).toNat = b.toNat % 2 ^ 52 + 2 ^ 52 := by
    rw [toNat_append_one, toNat_unpackMantissa]
  simp only [UnpackedFloat.unpack, hfull, hempty, hzero, hbias]
  split_ifs with h2047 hfraction h0 hfraction
  · rfl
  · rfl
  · rw [Exact.value?, unpackedValue?, hfraction]
    simp
  · rw [Exact.value?, unpackedValue?, apply_unpackSign, toNat_unpackMantissa, toNat_unpackExponent, h0]
    rfl
  · rw [Exact.value?, unpackedValue?, apply_unpackSign, hmantissa, toNat_unpackExponent]

theorem value?_exact (x : Float) : (exact x).value? = value? x := by
  have hunpack := unpackedValue?_unpack x.toBits.toBitVec
  have hbits : x.toBits.toBitVec.toNat = x.toBits.toNat := rfl
  rw [hbits] at hunpack
  change _ = unpackedValue? (UnpackedFloat.unpack Format.binary64 x.toBits.toBitVec)
  rw [hunpack]
  simp only [exact, Nat.pow_eq]
  split_ifs <;> rfl

theorem magnitude_eq_some_iff {m n : ℕ} {e : ℤ} :
    (if 0 ≤ e then some (m * 2 ^ e.toNat)
      else if m % 2 ^ (-e).toNat = 0 then some (m / 2 ^ (-e).toNat) else none) = some n ↔
      (m : ℚ) * 2 ^ e = n := by
  rcases le_or_gt 0 e with he | he
  · obtain ⟨k, rfl⟩ := Int.eq_ofNat_of_zero_le he
    rw [if_pos he, Option.some.injEq, Int.toNat_natCast, zpow_natCast]
    norm_cast
  · obtain ⟨k, hk⟩ := Int.eq_ofNat_of_zero_le (Int.neg_nonneg_of_nonpos he.le)
    have hpos : 0 < 2 ^ k := Nat.two_pow_pos k
    have hvalue : (m : ℚ) * 2 ^ e = n ↔ m = n * 2 ^ k := by
      rw [show e = -(k : ℤ) by omega, zpow_neg, zpow_natCast, mul_inv_eq_iff_eq_mul₀ (by positivity)]
      norm_cast
    rw [if_neg he.not_ge, hk, Int.toNat_natCast, hvalue]
    split_ifs with hmod
    · rw [Option.some.injEq, Nat.div_eq_iff_eq_mul_left hpos (Nat.dvd_of_mod_eq_zero hmod)]
    · refine iff_of_false (fun h => nomatch h) ?_
      rintro rfl
      exact hmod (Nat.mul_mod_left n (2 ^ k))

theorem integer?_eq_some_iff {x : Float} {i : ℤ} :
    integer? x = some i ↔ value? x = some (i : ℚ) := by
  rw [← value?_exact, integer?]
  cases exact x with
  | nan | infinity _ => simp [Exact.value?]
  | finite negative m e =>
    simp only [Exact.value?, Nat.pow_eq, Option.map_eq_some_iff, Option.bind_eq_bind,
      Option.bind_eq_some_iff, magnitude_eq_some_iff, Option.some.injEq, Option.pure_def]
    constructor
    · rintro ⟨_, ⟨n, hn, rfl⟩, rfl⟩
      cases negative <;> simp [hn]
    · intro hi
      have hnonneg : (0 : ℚ) ≤ m * 2 ^ e := by positivity
      cases negative with
      | false =>
        simp only [Bool.false_eq_true, if_false] at hi ⊢
        obtain ⟨n, rfl⟩ := Int.eq_ofNat_of_zero_le (by exact_mod_cast hi ▸ hnonneg : 0 ≤ i)
        exact ⟨n, ⟨n, by simpa using hi, rfl⟩, rfl⟩
      | true =>
        simp only [if_true, neg_mul] at hi ⊢
        have hneg : 0 ≤ -i := by
          have hle : (0 : ℚ) ≤ -i := by rwa [← hi, neg_neg]
          exact_mod_cast hle
        obtain ⟨n, hn⟩ := Int.eq_ofNat_of_zero_le hneg
        obtain rfl : i = -n := by omega
        exact ⟨n, ⟨n, by simpa using hi, rfl⟩, rfl⟩

theorem natural?_eq_some_iff {x : Float} {n : ℕ} :
    natural? x = some n ↔ value? x = some (n : ℚ) := by
  have hcast : value? x = some (n : ℚ) ↔ integer? x = some (n : ℤ) := by
    rw [integer?_eq_some_iff, Int.cast_natCast]
  rw [hcast, natural?]
  cases integer? x with
  | none => simp
  | some i => cases i <;> simp

end ScopedFormulas.Number
