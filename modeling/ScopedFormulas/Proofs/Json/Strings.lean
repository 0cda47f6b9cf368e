import ScopedFormulas.Json.Text
import ScopedFormulas.Json.Token
import Mathlib.Data.List.Basic

/-!
The grammar of JSON strings: what may stand between the quotes, and the text it denotes. Readers
split it into pieces first and join the two halves of a pair afterwards, which comes to the same;
and escaping a text is one way to write it.
-/

namespace ScopedFormulas

namespace Json

inductive ShortEscape : Char → Char → Prop
  | quote : ShortEscape '\x22' '\x22'
  | backslash : ShortEscape '\x5c' '\x5c'
  | slash : ShortEscape '/' '/'
  | backspace : ShortEscape 'b' '\x08'
  | formFeed : ShortEscape 'f' '\x0c'
  | newline : ShortEscape 'n' '\n'
  | carriageReturn : ShortEscape 'r' '\r'
  | tab : ShortEscape 't' '\t'

def HexDigit (c : Char) (value : Nat) : Prop :=
  value < 16 ∧ (c = Nat.digitChar value ∨ c = (Nat.digitChar value).toUpper)

inductive HexDigits : List Char → Nat → Prop
  | nil : HexDigits [] 0
  | snoc {digits : List Char} {c : Char} {n value : Nat} (h : HexDigits digits n)
    (hc : HexDigit c value) : HexDigits (digits ++ [c]) (16 * n + value)

def Code (digits : List Char) (n : Nat) : Prop := digits.length = 4 ∧ HexDigits digits n

theorem ShortEscape.ne_code {e c : Char} (h : ShortEscape e c) : e ≠ 'u' := by
  rintro rfl
  cases h

inductive Quoted : List Char → List Char → Prop
  | nil : Quoted [] []
  | plain {c : Char} {cs text : List Char} (hquote : c ≠ '\x22') (hbackslash : c ≠ '\x5c')
    (hcontrol : ' ' ≤ c) (h : Quoted cs text) : Quoted (c :: cs) (c :: text)
  | short {e c : Char} {cs text : List Char} (he : ShortEscape e c) (h : Quoted cs text) :
    Quoted ('\x5c' :: e :: cs) (c :: text)
  | code {digits cs text : List Char} {n : Nat} (hcode : Code digits n)
    (hn : n < 0xD800 ∨ 0xE000 ≤ n) (h : Quoted cs text) :
    Quoted ('\x5c' :: 'u' :: digits ++ cs) (Char.ofNat n :: text)
  | pair {digits digits' cs text : List Char} {high low : Nat} (hdigits : Code digits high)
    (hdigits' : Code digits' low) (hhigh : 0xD800 ≤ high ∧ high < 0xDC00)
    (hlow : 0xDC00 ≤ low ∧ low < 0xE000) (h : Quoted cs text) :
    Quoted ('\x5c' :: 'u' :: digits ++ '\x5c' :: 'u' :: digits' ++ cs)
      (Char.ofNat (0x10000 + 0x400 * (high - 0xD800) + (low - 0xDC00)) :: text)

end Json

namespace Token

open Json (ShortEscape HexDigit HexDigits Code Quoted)

theorem escaped?_eq_some_iff {e c : Char} : escaped? e = some c ↔ ShortEscape e c := by
  constructor
  · intro h
    unfold escaped? at h
    split at h <;> cases h <;> constructor
  · intro h
    cases h <;> rfl

theorem hexValue?_eq_some_iff {c : Char} {value : Nat} :
    hexValue? c = some value ↔ HexDigit c value := by
  constructor
  · intro h
    have hlow : ∀ v < 10, (Nat.digitChar v).toNat = 48 + v := by decide
    have hhigh : ∀ v < 16, 10 ≤ v →
        (Nat.digitChar v).toNat = 87 + v ∧ (Nat.digitChar v).toUpper.toNat = 55 + v := by decide
    unfold hexValue? at h
    split_ifs at h with hdigit hlower hupper
    · obtain ⟨hge, hle⟩ : 48 ≤ c.toNat ∧ c.toNat ≤ 57 := hdigit
      obtain rfl : c.toNat - 48 = value := Option.some.inj h
      refine ⟨by omega, .inl (Char.toNat_inj.mp ?_)⟩
      rw [hlow (c.toNat - 48) (by omega)]
      omega
    · obtain ⟨hge, hle⟩ : 97 ≤ c.toNat ∧ c.toNat ≤ 102 := hlower
      obtain rfl : c.toNat - 97 + 10 = value := Option.some.inj h
      refine ⟨by omega, .inl (Char.toNat_inj.mp ?_)⟩
      rw [(hhigh (c.toNat - 97 + 10) (by omega) (by omega)).1]
      omega
    · obtain ⟨hge, hle⟩ : 65 ≤ c.toNat ∧ c.toNat ≤ 70 := hupper
      obtain rfl : c.toNat - 65 + 10 = value := Option.some.inj h
      refine ⟨by omega, .inr (Char.toNat_inj.mp ?_)⟩
      rw [(hhigh (c.toNat - 65 + 10) (by omega) (by omega)).2]
      omega
  · rintro ⟨hlt, rfl | rfl⟩
    · have hall : ∀ v < 16, hexValue? (Nat.digitChar v) = some v := by decide
      exact hall value hlt
    · have hall : ∀ v < 16, hexValue? (Nat.digitChar v).toUpper = some v := by decide
      exact hall value hlt

inductive Piece.Spelled : List Char → Piece → Prop
  | plain {c : Char} (hquote : c ≠ '\x22') (hbackslash : c ≠ '\x5c') (hcontrol : ' ' ≤ c) :
    Spelled [c] (.char c)
  | short {e c : Char} (he : ShortEscape e c) : Spelled ['\x5c', e] (.char c)
  | code {digits : List Char} {n : Nat} (h : Code digits n) :
    Spelled ('\x5c' :: 'u' :: digits) (.ofCode n)

inductive Pieces : List Char → List Piece → Prop
  | nil : Pieces [] []
  | cons {word cs : List Char} {p : Piece} {ps : List Piece} (hword : p.Spelled word)
    (h : Pieces cs ps) : Pieces (word ++ cs) (p :: ps)

theorem Pieces.snoc {word cs : List Char} {p : Piece} {ps : List Piece} (h : Pieces cs ps)
    (hword : p.Spelled word) : Pieces (cs ++ word) (ps ++ [p]) := by
  induction h with
  | nil => simpa using Pieces.nil.cons hword
  | cons hfirst h ih =>
    rw [List.append_assoc]
    exact ih.cons hfirst

theorem Piece.ofCode_of_not_surrogate {n : Nat} (h : n < 0xD800 ∨ 0xE000 ≤ n) :
    Piece.ofCode n = .char (Char.ofNat n) := by
  rw [ofCode, if_neg (by omega)]

theorem Piece.ofCode_of_surrogate {n : Nat} (h : 0xD800 ≤ n) (h' : n < 0xE000) :
    Piece.ofCode n = .surrogate n := by
  rw [ofCode, if_pos ⟨h, h'⟩]

theorem exists_pieces {cs text : List Char} (h : Quoted cs text) :
    ∃ ps, Pieces cs ps ∧ join? ps = some text := by
  induction h with
  | nil => exact ⟨[], .nil, rfl⟩
  | plain hquote hbackslash hcontrol h ih =>
    obtain ⟨ps, hps, hjoin⟩ := ih
    exact ⟨_, hps.cons (.plain hquote hbackslash hcontrol), by rw [join?, hjoin]; rfl⟩
  | short he h ih =>
    obtain ⟨ps, hps, hjoin⟩ := ih
    exact ⟨_, hps.cons (.short he), by rw [join?, hjoin]; rfl⟩
  | code hcode hn h ih =>
    obtain ⟨ps, hps, hjoin⟩ := ih
    refine ⟨_, hps.cons (.code hcode), ?_⟩
    rw [Piece.ofCode_of_not_surrogate hn, join?, hjoin]
    rfl
  | @pair digits digits' cs text high low hdigits hdigits' hhigh hlow h ih =>
    obtain ⟨ps, hps, hjoin⟩ := ih
    have hwords := (hps.cons (.code hdigits')).cons (.code hdigits)
    refine ⟨_, by simpa using hwords, ?_⟩
    rw [Piece.ofCode_of_surrogate hhigh.1 (by omega), Piece.ofCode_of_surrogate (by omega) hlow.2,
      join?, if_pos ⟨hhigh.2, hlow.1⟩, hjoin]
    simp [Nat.mul_comm]

theorem Piece.Spelled.quoted {word cs text : List Char} {c : Char}
    (hword : Spelled word (.char c)) (h : Quoted cs text) : Quoted (word ++ cs) (c :: text) := by
  generalize hp : Piece.char c = p at hword
  cases hword with
  | plain hquote hbackslash hcontrol =>
    cases hp
    exact .plain hquote hbackslash hcontrol h
  | short he =>
    cases hp
    exact .short he h
  | @code digits n hcode =>
    rw [Piece.ofCode] at hp
    split at hp
    · cases hp
    · cases hp
      exact .code hcode (by omega) h

theorem Piece.Spelled.surrogate {word : List Char} {n : Nat}
    (hword : Spelled word (.surrogate n)) :
    ∃ digits, word = '\x5c' :: 'u' :: digits ∧ Code digits n ∧ 0xD800 ≤ n ∧ n < 0xE000 := by
  generalize hp : Piece.surrogate n = p at hword
  cases hword with
  | plain _ _ _ | short _ => cases hp
  | @code digits n hcode =>
    rw [Piece.ofCode] at hp
    split at hp
    next hn =>
      cases hp
      exact ⟨digits, rfl, hcode, hn⟩
    · cases hp

theorem quoted_of_pieces {cs text : List Char} {ps : List Piece} (h : Pieces cs ps)
    (hjoin : join? ps = some text) : Quoted cs text := by
  induction ps using join?.induct generalizing cs text with
  | case1 =>
    cases h
    cases hjoin
    exact .nil
  | case2 c rest ih =>
    cases h with
    | cons hword h =>
      rw [join?] at hjoin
      obtain ⟨t, ht, rfl⟩ := Option.map_eq_some_iff.mp hjoin
      exact hword.quoted (ih h ht)
  | case3 high low rest hpair ih =>
    cases h with
    | cons hhigh h =>
      cases h with
      | cons hlow h =>
        rw [join?, if_pos hpair] at hjoin
        obtain ⟨t, ht, rfl⟩ := Option.map_eq_some_iff.mp hjoin
        obtain ⟨digits, rfl, hdigits, hge, -⟩ := hhigh.surrogate
        obtain ⟨digits', rfl, hdigits', -, hlt⟩ := hlow.surrogate
        have hquoted := Quoted.pair hdigits hdigits' ⟨hge, hpair.1⟩ ⟨hpair.2, hlt⟩ (ih h ht)
        simpa [Nat.mul_comm] using hquoted
  | case4 high low rest hpair =>
    rw [join?, if_neg hpair] at hjoin
    cases hjoin
  | case5 code rest halone =>
    rw [join?] at hjoin
    · cases hjoin
    · exact halone

theorem quoted_iff {cs text : List Char} :
    Quoted cs text ↔ ∃ ps, Pieces cs ps ∧ join? ps = some text :=
  ⟨exists_pieces, fun ⟨_, hps, hjoin⟩ => quoted_of_pieces hps hjoin⟩

theorem quoted_escape (c : Char) {cs text : List Char} (h : Quoted cs text) :
    Quoted (Json.escape c ++ cs) (c :: text) := by
  unfold Json.escape
  split_ifs with hquote hbackslash hnewline hreturn htab hback hfeed hcontrol
  · subst hquote; exact .short .quote h
  · subst hbackslash; exact .short .backslash h
  · subst hnewline; exact .short .newline h
  · subst hreturn; exact .short .carriageReturn h
  · subst htab; exact .short .tab h
  · subst hback; exact .short .backspace h
  · subst hfeed; exact .short .formFeed h
  · have hcode : c.toNat < 32 := hcontrol
    have hdigit : ∀ n < 16, HexDigit (Json.hexDigit n) n := fun n hn => ⟨hn, .inl rfl⟩
    have hzeros := (HexDigits.nil.snoc (hdigit 0 (by omega))).snoc (hdigit 0 (by omega))
    have hdigits := (hzeros.snoc (hdigit (c.toNat / 16) (by omega))).snoc
      (hdigit (c.toNat % 16) (by omega))
    have hn : 16 * (16 * (16 * (16 * 0 + 0) + 0) + c.toNat / 16) + c.toNat % 16 = c.toNat := by
      omega
    rw [hn] at hdigits
    have hquoted := Quoted.code ⟨rfl, hdigits⟩ (by omega) h
    rw [Char.ofNat_toNat] at hquoted
    exact hquoted
  · exact .plain hquote hbackslash (Char.not_lt.mp hcontrol) h

theorem quoted_escapes (text : List Char) : Quoted (text.flatMap Json.escape) text := by
  induction text with
  | nil => exact .nil
  | cons c text ih =>
    rw [List.flatMap_cons]
    exact quoted_escape c ih

end Token

end ScopedFormulas
