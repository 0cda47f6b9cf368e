import ScopedFormulas.Evaluation.Basic
import ScopedFormulas.Expr.Build

namespace ScopedFormulas.Expr

def charIndices (offset : Nat) : List Char → List (Nat × Char)
  | [] => []
  | c :: cs => (offset, c) :: charIndices (offset + c.utf8Size) cs

def literalBounds? (raw : String) : Option (Nat × Nat) :=
  match charIndices 0 raw.toList with
  | [] => none
  | (_, first) :: rest => rest.getLast?.map fun last => (first.utf8Size, last.1)

/-- The text between two byte offsets. There is none unless they are in order and at character
boundaries. -/
def byteSlice? (s : String) (start stop : Nat) : Option String :=
  if start ≤ stop ∧ (⟨start⟩ : String.Pos.Raw).IsValid s ∧ (⟨stop⟩ : String.Pos.Raw).IsValid s then
    String.fromUTF8? (s.toByteArray.extract start stop)
  else none

def literalSlice? (raw : String) : Option String :=
  match literalBounds? raw with
  | none => some ""
  | some (start, stop) => byteSlice? raw start stop

theorem charIndices_append (offset : Nat) (cs ds : List Char) :
    charIndices offset (cs ++ ds) =
      charIndices offset cs ++ charIndices (offset + (String.ofList cs).utf8ByteSize) ds := by
  induction cs generalizing offset with
  | nil => rfl
  | cons c cs ih =>
    rw [List.cons_append, charIndices, ih, String.ofList_cons, String.utf8ByteSize_append,
      String.utf8ByteSize_singleton, Nat.add_assoc, charIndices, List.cons_append]

section Slices

variable (a b c : String)

theorem isValid_append : (⟨a.utf8ByteSize⟩ : String.Pos.Raw).IsValid (a ++ b) :=
  String.Pos.Raw.isValid_iff_exists_append.mpr ⟨a, b, rfl, rfl⟩

theorem extract_append :
    (a ++ b ++ c).toByteArray.extract a.utf8ByteSize (a.utf8ByteSize + b.utf8ByteSize) =
      b.toByteArray := by
  have hrest := ByteArray.extract_append_size_add (a := a.toByteArray)
    (b := b.toByteArray ++ c.toByteArray) (i := 0) (j := b.toByteArray.size)
  rw [Nat.add_zero] at hrest
  rw [String.append_assoc, String.toByteArray_append, String.toByteArray_append,
    ← String.size_toByteArray, ← String.size_toByteArray, hrest]
  exact ByteArray.extract_append_eq_left rfl

theorem fromUTF8?_toByteArray : String.fromUTF8? a.toByteArray = some a := by
  rw [String.fromUTF8?, dif_pos a.isValidUTF8]
  rfl

theorem byteSlice?_append :
    byteSlice? (a ++ b ++ c) a.utf8ByteSize (a.utf8ByteSize + b.utf8ByteSize) = some b := by
  have hstart : (⟨a.utf8ByteSize⟩ : String.Pos.Raw).IsValid (a ++ b ++ c) := by
    rw [String.append_assoc]
    exact isValid_append a (b ++ c)
  have hstop : (⟨a.utf8ByteSize + b.utf8ByteSize⟩ : String.Pos.Raw).IsValid (a ++ b ++ c) := by
    rw [← String.utf8ByteSize_append]
    exact isValid_append (a ++ b) c
  rw [byteSlice?, if_pos ⟨Nat.le_add_right _ _, hstart, hstop⟩, extract_append,
    fromUTF8?_toByteArray]

end Slices

inductive Quoted : String → Prop
  | empty : Quoted ""
  | single (c : Char) : Quoted (String.singleton c)
  | between (opening : Char) (s : String) (closing : Char) :
    Quoted (String.singleton opening ++ s ++ String.singleton closing)

theorem quoted (raw : String) : Quoted raw := by
  rw [← String.ofList_toList (s := raw)]
  generalize raw.toList = chars
  cases chars with
  | nil => exact .empty
  | cons first rest =>
    rcases List.eq_nil_or_concat rest with rfl | ⟨middle, last, rfl⟩
    · exact .single first
    · have hbetween := Quoted.between first (String.ofList middle) last
      rw [String.append_assoc, String.singleton_eq_ofList, String.singleton_eq_ofList,
        ← String.ofList_append, ← String.ofList_append] at hbetween
      rwa [List.concat_eq_append]

section Between

variable (opening : Char) (s : String) (closing : Char)

theorem toList_between :
    (String.singleton opening ++ s ++ String.singleton closing).toList =
      opening :: (s.toList ++ [closing]) := by
  simp

theorem literalText_between :
    literalText (String.singleton opening ++ s ++ String.singleton closing) = s := by
  rw [literalText, toList_between, List.tail_cons, List.dropLast_concat, String.ofList_toList]

theorem literalBounds?_between :
    literalBounds? (String.singleton opening ++ s ++ String.singleton closing) =
      some (opening.utf8Size, opening.utf8Size + s.utf8ByteSize) := by
  rw [literalBounds?, toList_between, charIndices, charIndices_append, String.ofList_toList]
  simp [charIndices]

end Between

theorem literalBounds?_single (c : Char) : literalBounds? (String.singleton c) = none := by
  rw [literalBounds?, String.toList_singleton]
  rfl

theorem literalText_single (c : Char) : literalText (String.singleton c) = "" := by
  rw [literalText, String.toList_singleton]
  rfl

theorem literalText_short {raw : String} (h : raw.length < 2) : literalText raw = "" := by
  cases quoted raw with
  | empty => rfl
  | single c => exact literalText_single c
  | between opening s closing =>
    rw [← String.length_toList, toList_between, List.length_cons, List.length_append,
      List.length_singleton] at h
    omega

theorem literalSlice?_eq (raw : String) : literalSlice? raw = some (literalText raw) := by
  cases quoted raw with
  | empty => rfl
  | single c => rw [literalSlice?, literalBounds?_single, literalText_single]
  | between opening s closing =>
    have hslice := byteSlice?_append (String.singleton opening) s (String.singleton closing)
    rw [String.utf8ByteSize_singleton] at hslice
    rw [literalSlice?, literalBounds?_between, literalText_between]
    exact hslice

theorem boundaries_of_byteSlice? {s t : String} {start stop : Nat}
    (h : byteSlice? s start stop = some t) :
    start ≤ stop ∧ (⟨start⟩ : String.Pos.Raw).IsValid s ∧ (⟨stop⟩ : String.Pos.Raw).IsValid s := by
  rw [byteSlice?] at h
  split at h
  · assumption
  · cases h

theorem boundaries_of_literalBounds? {raw : String} {start stop : Nat}
    (h : literalBounds? raw = some (start, stop)) :
    start ≤ stop ∧ (⟨start⟩ : String.Pos.Raw).IsValid raw ∧
      (⟨stop⟩ : String.Pos.Raw).IsValid raw := by
  have hslice := literalSlice?_eq raw
  rw [literalSlice?, h] at hslice
  exact boundaries_of_byteSlice? hslice

theorem literalText_text (raw : String) (span : Span) :
    literalText (Expr.string raw span).text = literalText raw := by
  rw [text]
  exact literalText_between '"' (literalText raw) '"'

theorem eval_string (library : Library) (fuel : Nat) (raw : String) (span : Span)
    (env : Environment) :
    (Expr.string raw span).eval library fuel env = ⟨.ok (.text (literalText raw)), env, []⟩ := by
  rw [eval, evalWith]
  rfl

theorem literalText_exact :
    (∀ (opening : Char) (s : String) (closing : Char),
      literalText (String.singleton opening ++ s ++ String.singleton closing) = s) ∧
      (∀ raw : String, raw.length < 2 → literalText raw = "") ∧
      (∀ (raw : String) (start stop : Nat), literalBounds? raw = some (start, stop) →
        start ≤ stop ∧ (⟨start⟩ : String.Pos.Raw).IsValid raw ∧
          (⟨stop⟩ : String.Pos.Raw).IsValid raw) ∧
      (∀ raw : String, literalSlice? raw = some (literalText raw)) ∧
      ∀ (raw : String) (span : Span),
        (Expr.string raw span).text = "\"" ++ literalText raw ++ "\"" ∧
          literalText (Expr.string raw span).text = literalText raw ∧
          ∀ (library : Library) (fuel : Nat) (env : Environment),
            (Expr.string raw span).eval library fuel env =
                ⟨.ok (.text (literalText raw)), env, []⟩ ∧
              (Expr.string (Expr.string raw span).text span).eval library fuel env =
                (Expr.string raw span).eval library fuel env := by
  refine ⟨literalText_between, fun _ => literalText_short,
    fun _ _ _ => boundaries_of_literalBounds?, literalSlice?_eq, ?_⟩
  intro raw span
  refine ⟨by rw [text], literalText_text raw span, ?_⟩
  intro library fuel env
  rw [eval_string, eval_string, literalText_text]
  exact ⟨rfl, rfl⟩

theorem literalText_exact_wide :
    literalText "é" = "" ∧ literalBounds? "“a€”" = some (3, 7) ∧
      (⟨3⟩ : String.Pos.Raw).IsValid "“a€”" ∧ (⟨7⟩ : String.Pos.Raw).IsValid "“a€”" := by
  have hbounds : literalBounds? "“a€”" = some (3, 7) := by decide +kernel
  obtain ⟨-, hvalid⟩ := literalText_exact.2.2.1 "“a€”" 3 7 hbounds
  exact ⟨literalText_exact.2.1 "é" (by decide), hbounds, hvalid⟩

end ScopedFormulas.Expr
