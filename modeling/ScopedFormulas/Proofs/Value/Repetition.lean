import ScopedFormulas.Evaluation.Operation
import ScopedFormulas.Proofs.Number.Operations

/-!
Repetition of texts. Copies are lists of one text joined, so that they compose by the joining of
lists, and the count is the natural number that a double stands for. It has a limit of its own, which
matters for the empty text alone.
-/

namespace ScopedFormulas.Value

def copies (n : ℕ) (s : String) : String := String.join (List.replicate n s)

section Copies

variable (s : String) (n : ℕ)

theorem copies_succ : copies (n + 1) s = s ++ copies n s := by
  rw [copies, List.replicate_succ, String.join_cons, copies]

theorem copies_add (m : ℕ) : copies (m + n) s = copies m s ++ copies n s := by
  rw [copies, List.replicate_add, String.join_append, copies, copies]

theorem utf8ByteSize_copies : (copies n s).utf8ByteSize = s.utf8ByteSize * n := by
  induction n with
  | zero => rfl
  | succ n ih =>
    rw [copies_succ, String.utf8ByteSize_append, ih, Nat.mul_succ, Nat.add_comm]

theorem appendCopies_eq (done : String) : appendCopies s n done = done ++ copies n s := by
  induction n generalizing done with
  | zero => simp [appendCopies, copies]
  | succ n ih => rw [appendCopies, ih, copies_succ, String.append_assoc]

end Copies

-- The bound on the count adds to the bound on the bytes for the empty text only.
theorem fits_iff {s : String} {n : ℕ} :
    n ≤ maxRepeatBytes ∧ s.utf8ByteSize * n ≤ maxRepeatBytes ↔
      s.utf8ByteSize * n ≤ maxRepeatBytes ∧ (s = "" → n ≤ maxRepeatBytes) := by
  constructor
  · rintro ⟨hcount, hsize⟩
    exact ⟨hsize, fun _ => hcount⟩
  · rintro ⟨hsize, hempty⟩
    refine ⟨?_, hsize⟩
    rcases Nat.eq_zero_or_pos s.utf8ByteSize with hs | hs
    · apply hempty
      apply String.utf8ByteSize_eq_zero_iff.mp hs
    · apply le_trans _ hsize
      apply Nat.le_mul_of_pos_left n hs

section Answers

variable {s : String} {count : Float} {n : ℕ}

theorem repeatText_of_value (hcount : Number.value? count = some (n : ℚ)) :
    repeatText s count =
      if n ≤ maxRepeatBytes ∧ s.utf8ByteSize * n ≤ maxRepeatBytes then .ok (copies n s)
      else .error (.tooLong count) := by
  have hcopies := appendCopies_eq s n ""
  rw [String.empty_append] at hcopies
  rw [repeatText, Number.natural?_eq_some_iff.mpr hcount]
  simp only [hcopies]

theorem repeatText_of_no_value (hcount : ∀ n : ℕ, Number.value? count ≠ some (n : ℚ)) :
    repeatText s count = .error (.badCount count) := by
  have hnone : Number.natural? count = none := by
    apply Option.eq_none_iff_forall_ne_some.mpr
    intro n hn
    apply hcount n
    apply Number.natural?_eq_some_iff.mp hn
  rw [repeatText, hnone]

theorem repeatText_eq_ok_iff {r : String} :
    repeatText s count = .ok r ↔
      ∃ n : ℕ, Number.value? count = some (n : ℚ) ∧
        (n ≤ maxRepeatBytes ∧ s.utf8ByteSize * n ≤ maxRepeatBytes) ∧ r = copies n s := by
  constructor
  · intro h
    by_cases hcount : ∃ n : ℕ, Number.value? count = some (n : ℚ)
    · obtain ⟨n, hn⟩ := hcount
      rw [repeatText_of_value hn] at h
      split_ifs at h with hfits
      cases h
      exact ⟨n, hn, hfits, rfl⟩
    · rw [repeatText_of_no_value (not_exists.mp hcount)] at h
      cases h
  · rintro ⟨n, hn, hfits, rfl⟩
    rw [repeatText_of_value hn, if_pos hfits]

end Answers

/-- What repetition answers. The first three constructors are the limit on the bytes of the
result; `manyEmpty` is what the limit on the count adds to it. -/
inductive Repetition (s : String) (count : Float) : Except Trap String → Prop
  | copies {n : ℕ} (hcount : Number.value? count = some (n : ℚ))
      (hsize : s.utf8ByteSize * n ≤ maxRepeatBytes) (hempty : s = "" → n ≤ maxRepeatBytes) :
      Repetition s count (.ok (String.join (List.replicate n s)))
  | tooLong {n : ℕ} (hcount : Number.value? count = some (n : ℚ))
      (hsize : maxRepeatBytes < s.utf8ByteSize * n) : Repetition s count (.error (.tooLong count))
  | badCount (hcount : ∀ n : ℕ, Number.value? count ≠ some (n : ℚ)) :
      Repetition s count (.error (.badCount count))
  | manyEmpty {n : ℕ} (hcount : Number.value? count = some (n : ℚ)) (hs : s = "")
      (hmany : maxRepeatBytes < n) : Repetition s count (.error (.tooLong count))

theorem repetition_repeatText (s : String) (count : Float) :
    Repetition s count (repeatText s count) := by
  by_cases hcount : ∃ n : ℕ, Number.value? count = some (n : ℚ)
  · obtain ⟨n, hn⟩ := hcount
    rw [repeatText_of_value hn]
    simp only [fits_iff]
    split_ifs with hfits
    · exact .copies hn hfits.1 hfits.2
    · by_cases hsize : s.utf8ByteSize * n ≤ maxRepeatBytes
      · simp only [hsize, true_and, Classical.not_imp, not_le] at hfits
        exact .manyEmpty hn hfits.1 hfits.2
      · exact .tooLong hn (Nat.lt_of_not_le hsize)
  · have hnone := not_exists.mp hcount
    rw [repeatText_of_no_value hnone]
    exact .badCount hnone

theorem Repetition.eq_repeatText {s : String} {count : Float} {result : Except Trap String}
    (h : Repetition s count result) : repeatText s count = result := by
  cases h with
  | copies hcount hsize hempty =>
    rw [repeatText_of_value hcount, if_pos (fits_iff.mpr ⟨hsize, hempty⟩)]
    rfl
  | tooLong hcount hsize =>
    rw [repeatText_of_value hcount, if_neg]
    omega
  | badCount hcount => exact repeatText_of_no_value hcount
  | manyEmpty hcount hs hmany =>
    rw [repeatText_of_value hcount, if_neg]
    omega

section Words

variable {s : String} {count : Float} {n w : ℕ}

def repeatInWords (w : ℕ) (s : String) (count : Float) : Except Trap String :=
  match Number.natural? count with
  | none => .error (.badCount count)
  | some n =>
    let times := BitVec.ofNat w n
    let length := BitVec.ofNat w s.utf8ByteSize
    if maxRepeatBytes < n ∨ length.umulOverflow times = true ∨
        maxRepeatBytes < (length * times).toNat then .error (.tooLong count)
    else .ok (appendCopies s times.toNat "")

theorem exceeds_in_words_iff (hw : maxRepeatBytes < 2 ^ w) (hs : s.utf8ByteSize < 2 ^ w)
    (hn : n ≤ maxRepeatBytes) :
    ((BitVec.ofNat w s.utf8ByteSize).umulOverflow (BitVec.ofNat w n) = true ∨
      maxRepeatBytes < (BitVec.ofNat w s.utf8ByteSize * BitVec.ofNat w n).toNat) ↔
      maxRepeatBytes < s.utf8ByteSize * n := by
  have hlength : (BitVec.ofNat w s.utf8ByteSize).toNat = s.utf8ByteSize := Nat.mod_eq_of_lt hs
  have htimes : (BitVec.ofNat w n).toNat = n := Nat.mod_eq_of_lt (hn.trans_lt hw)
  simp only [BitVec.umulOverflow, BitVec.toNat_mul, hlength, htimes, decide_eq_true_eq]
  rcases Nat.lt_or_ge (s.utf8ByteSize * n) (2 ^ w) with hfits | hover
  · rw [Nat.mod_eq_of_lt hfits]
    omega
  · simp only [ge_iff_le, hover, true_or, true_iff]
    omega

theorem repeatInWords_eq (hw : maxRepeatBytes < 2 ^ w) (hs : s.utf8ByteSize < 2 ^ w) :
    repeatInWords w s count = repeatText s count := by
  rw [repeatInWords, repeatText]
  cases Number.natural? count with
  | none => rfl
  | some n =>
    by_cases hn : n ≤ maxRepeatBytes
    · have htimes : (BitVec.ofNat w n).toNat = n := Nat.mod_eq_of_lt (hn.trans_lt hw)
      have hexceeds := exceeds_in_words_iff hw hs hn
      simp only [hexceeds, htimes, hn.not_gt, hn, false_or, true_and]
      split_ifs with hlong hshort hshort
      · omega
      · rfl
      · rfl
      · omega
    · simp only [Nat.lt_of_not_le hn, hn, true_or, false_and, if_true, if_false]

end Words

theorem repeatText_answers (s : String) (count : Float) :
    (∀ result, repeatText s count = result ↔ Repetition s count result) ∧
      ∀ w, maxRepeatBytes < 2 ^ w → s.utf8ByteSize < 2 ^ w →
        repeatInWords w s count = repeatText s count := by
  constructor
  · intro result
    constructor
    · rintro rfl
      exact repetition_repeatText s count
    · exact Repetition.eq_repeatText
  · intro w hw hs
    exact repeatInWords_eq hw hs

theorem repeatText_answers_three : repeatInWords 64 "ab" (Float.ofNat 3) = .ok "ababab" := by
  have hmodel : repeatText "ab" (Float.ofNat 3) = .ok "ababab" := by decide +kernel
  rw [← hmodel]
  exact (repeatText_answers "ab" (Float.ofNat 3)).2 64 (by decide) (by decide)

theorem repeatText_manyEmpty :
    Number.value? (Float.ofNat 16777217) = some ((16777217 : ℕ) : ℚ) ∧
      "".utf8ByteSize * 16777217 ≤ maxRepeatBytes ∧
      repeatText "" (Float.ofNat 16777217) = .error (.tooLong (Float.ofNat 16777217)) := by
  refine ⟨Number.value?_ofNat ?_, ?_, ?_⟩
  · decide
  · decide
  · decide +kernel

theorem repeatText_append {x y z : Float} {s r : String} {m n : ℕ}
    (hx : Number.value? x = some (m : ℚ)) (hy : Number.value? y = some (n : ℚ))
    (hz : Number.value? z = some ((m + n : ℕ) : ℚ)) (h : repeatText s z = .ok r) :
    ∃ p q, repeatText s x = .ok p ∧ repeatText s y = .ok q ∧ p ++ q = r := by
  obtain ⟨k, hk, ⟨hcount, hsize⟩, rfl⟩ := repeatText_eq_ok_iff.mp h
  obtain rfl : k = m + n := by
    rw [hz, Option.some.injEq, Nat.cast_inj] at hk
    exact hk.symm
  rw [Nat.mul_add] at hsize
  refine ⟨copies m s, copies n s, ?_, ?_, ?_⟩
  · apply repeatText_eq_ok_iff.mpr
    exact ⟨m, hx, ⟨by omega, by omega⟩, rfl⟩
  · apply repeatText_eq_ok_iff.mpr
    exact ⟨n, hy, ⟨by omega, by omega⟩, rfl⟩
  · rw [copies_add]

theorem utf8ByteSize_of_repeatText {s r : String} {count : Float} (h : repeatText s count = .ok r) :
    r.utf8ByteSize ≤ maxRepeatBytes := by
  obtain ⟨n, -, ⟨-, hsize⟩, rfl⟩ := repeatText_eq_ok_iff.mp h
  rwa [utf8ByteSize_copies]

def repeated (s : String) (count : Float) : Except EvalError Value :=
  match repeatText s count with
  | .ok r => .ok (text r)
  | .error cause => .error (.trap cause)

theorem eval_mul_text (s : String) (count : Float) :
    BinaryOp.eval (.arithmetic .mul) (text s) (number count) = repeated s count := by
  rw [BinaryOp.eval, BinaryOp.result?, BinaryOp.arithmetic?, repeated]
  cases repeatText s count <;> rfl

theorem eval_mul_number (s : String) (count : Float) :
    BinaryOp.eval (.arithmetic .mul) (number count) (text s) = repeated s count := by
  rw [BinaryOp.eval, BinaryOp.result?, BinaryOp.arithmetic?, repeated]
  cases repeatText s count <;> rfl

theorem repeatText_distributes (s : String) :
    (∀ (m n : ℕ) (r : String), m + n ≤ 2 ^ 53 → repeatText s (Float.ofNat (m + n)) = .ok r →
      ∃ p q, repeatText s (Float.ofNat m) = .ok p ∧ repeatText s (Float.ofNat n) = .ok q ∧
        (text p).concatenate (text q) = text r) ∧
      (∀ (count : Float) (r : String), repeatText s count = .ok r →
        r.utf8ByteSize ≤ maxRepeatBytes) ∧
      ∀ count : Float,
        BinaryOp.eval (.arithmetic .mul) (text s) (number count) = repeated s count ∧
          BinaryOp.eval (.arithmetic .mul) (number count) (text s) = repeated s count := by
  refine ⟨?_, ?_, ?_⟩
  · intro m n r hle h
    have hm := Number.value?_ofNat (show m ≤ 2 ^ 53 by omega)
    have hn := Number.value?_ofNat (show n ≤ 2 ^ 53 by omega)
    obtain ⟨p, q, hp, hq, hpq⟩ := repeatText_append hm hn (Number.value?_ofNat hle) h
    refine ⟨p, q, hp, hq, ?_⟩
    rw [concatenate, toText, toText, hpq]
  · intro count r h
    exact utf8ByteSize_of_repeatText h
  · intro count
    exact ⟨eval_mul_text s count, eval_mul_number s count⟩

theorem repeatText_distributes_three :
    (∃ p q, repeatText "é" (Float.ofNat 1) = .ok p ∧ repeatText "é" (Float.ofNat 2) = .ok q ∧
      (text p).concatenate (text q) = text "ééé") ∧ "ééé".utf8ByteSize ≤ maxRepeatBytes := by
  have hthree : repeatText "é" (Float.ofNat 3) = .ok "ééé" := by decide +kernel
  have h := repeatText_distributes "é"
  exact ⟨h.1 1 2 "ééé" (by decide) hthree, h.2.1 (Float.ofNat 3) "ééé" hthree⟩

end ScopedFormulas.Value
