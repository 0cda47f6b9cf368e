import ScopedFormulas.Proofs.Json.Serializer

namespace ScopedFormulas

structure JsonForm (α : Type) where
  encode : α → Json
  decode? : Json.Limits → Json → Option α

namespace JsonForm

variable {α : Type}

def print (f : JsonForm α) (s : Json.Serializer) (a : α) : String := s.print (f.encode a)

def read? (f : JsonForm α) (s : Json.Serializer) (text : String) : Option α :=
  (s.parse? text).bind (f.decode? s.toLimits)

structure Faithful (f : JsonForm α) : Prop where
  plain : ∀ a, (f.encode a).Plain
  decode?_encode :
    ∀ limits a, limits.admits (f.encode a) = true → f.decode? limits (f.encode a) = some a
  encode_injective : Function.Injective f.encode

variable {f : JsonForm α} {s : Json.Serializer}

theorem Faithful.read?_print (h : f.Faithful) (hs : s.Lawful) {a : α}
    (ha : (f.encode a).depth ≤ s.depth) : f.read? s (f.print s a) = some a := by
  rw [read?, print, hs.parse?_print (h.plain a) ha, Option.bind_some]
  exact h.decode?_encode _ a ((hs.admits_iff (h.plain a)).mpr ha)

theorem Faithful.print_injective (h : f.Faithful) (hs : s.Lawful) :
    Function.Injective (f.print s) := by
  intro a b hab
  exact h.encode_injective (hs.print_inj (h.plain a) (h.plain b) hab)

end JsonForm

theorem mapM_eq_some_iff {α β : Type} {f : α → Option β} {g : β → α}
    (h : ∀ a b, f a = some b ↔ a = g b) {l : List α} {bs : List β} :
    l.mapM f = some bs ↔ l = bs.map g := by
  induction l generalizing bs with
  | nil => cases bs <;> simp
  | cons a l ih =>
    cases bs with
    | nil => simp [Option.bind_eq_some_iff]
    | cons b bs => simp [Option.bind_eq_some_iff, h, ih]

namespace Span

def jsonForm : JsonForm Span := ⟨toJson, fun _ => ofJson?⟩

theorem plain_toJson (s : Span) : s.toJson.Plain := by
  have hsmall : ∀ n : UInt32, (Json.ofNat n.toNat).Plain :=
    fun n => .natural (n.toNat_lt_size.trans (by decide))
  exact .object (by simp) (by simp [hsmall])

theorem offset?_ofNat (n : UInt32) : offset? (.ofNat n.toNat) = some n := by
  simp [offset?, Json.ofNat, Numeral.natural?_ofNat, n.toNat_lt_size]

theorem ofJson?_toJson (s : Span) : ofJson? s.toJson = some s := by
  simp [toJson, ofJson?, Json.field?, offset?_ofNat]

theorem toJson_injective : Function.Injective toJson := by
  intro s t h
  apply Option.some.inj
  rw [← ofJson?_toJson s, h, ofJson?_toJson]

theorem jsonForm_faithful : jsonForm.Faithful where
  plain := plain_toJson
  decode?_encode _ s _ := ofJson?_toJson s
  encode_injective := toJson_injective

end Span

namespace ValueType

def jsonForm : JsonForm ValueType := ⟨toJson, fun limits j => ofJson? j limits⟩

theorem plain_toJson (t : ValueType) : t.toJson.Plain := by
  induction t with
  | array elem ih => exact .object (by simp) (by simpa using ih)
  | _ => exact .text _

theorem readJson?_toJson (isUnit : Json → Bool) (t : ValueType) :
    readJson? isUnit t.toJson = some t := by
  induction t with
  | array elem ih => simp [toJson, readJson?, ih]
  | _ => rfl

theorem ofJson?_toJson {limits : Json.Limits} {t : ValueType}
    (h : limits.admits t.toJson = true) : ofJson? t.toJson limits = some t := by
  rw [ofJson?, if_pos h, readJson?_toJson]

theorem toJson_injective : Function.Injective toJson := by
  intro t u h
  apply Option.some.inj
  rw [← readJson?_toJson isNull t, h, readJson?_toJson]

theorem jsonForm_faithful : jsonForm.Faithful where
  plain := plain_toJson
  decode?_encode _ _ := ofJson?_toJson
  encode_injective := toJson_injective

end ValueType

namespace Expected

def jsonForm : JsonForm Expected := ⟨toJson, fun limits j => ofJson? j limits⟩

theorem plain_toJson (e : Expected) : e.toJson.Plain := by
  cases e with
  | type t => exact .object (by simp) (by simpa using t.plain_toJson)
  | eq | ord => exact .text _

theorem ofJson?_toJson {limits : Json.Limits} {e : Expected}
    (h : limits.admits e.toJson = true) : ofJson? e.toJson limits = some e := by
  unfold ofJson?
  rw [if_pos h]
  cases e with
  | type t => simp [toJson, ValueType.readJson?_toJson]
  | eq | ord => rfl

theorem toJson_injective : Function.Injective toJson := by
  intro e d h
  cases e <;> cases d <;> simp_all [toJson, Json.ofText, name, ValueType.toJson_injective.eq_iff]

theorem jsonForm_faithful : jsonForm.Faithful where
  plain := plain_toJson
  decode?_encode _ _ := ofJson?_toJson
  encode_injective := toJson_injective

end Expected

namespace Requirement

def jsonForm : JsonForm Requirement := ⟨toJson, fun limits j => ofJson? j limits⟩

theorem plain_toJson (r : Requirement) : r.toJson.Plain := by
  cases r with
  | scalar name => exact .text name
  | list elems =>
    apply Json.Plain.array
    intro j hj
    obtain ⟨s, -, rfl⟩ := List.mem_map.mp hj
    exact .text s

theorem name?_eq_some_iff {j : Json} {s : String} : name? j = some s ↔ j = .ofText s := by
  constructor
  · intro h
    cases j with
    | string t => exact congrArg Json.string h
    | _ => cases h
  · rintro rfl
    rfl

theorem mapM_name? (elems : List String) : (elems.map Json.ofText).mapM name? = some elems :=
  (mapM_eq_some_iff fun _ _ => name?_eq_some_iff).mpr rfl

theorem ofJson?_toJson {limits : Json.Limits} {r : Requirement}
    (h : limits.admits r.toJson = true) : ofJson? r.toJson limits = some r := by
  unfold ofJson?
  rw [if_pos h]
  cases r with
  | scalar name => rfl
  | list elems =>
    change ((elems.map Json.ofText).mapM name?).map list = some (list elems)
    rw [mapM_name?, Option.map_some]

theorem toJson_injective : Function.Injective toJson := by
  intro r q h
  cases r with
  | scalar name => cases q <;> simp_all [toJson, Json.ofText]
  | list elems =>
    cases q with
    | scalar name => cases h
    | list others =>
      have hitems : elems.map Json.ofText = others.map Json.ofText := Json.array.inj h
      have hread := mapM_name? elems
      rw [hitems, mapM_name?] at hread
      rw [Option.some.inj hread]

theorem jsonForm_faithful : jsonForm.Faithful where
  plain := plain_toJson
  decode?_encode _ _ := ofJson?_toJson
  encode_injective := toJson_injective

end Requirement

namespace CheckOutcome

def jsonForm : JsonForm CheckOutcome := ⟨toJson, fun limits j => ofJson? j limits⟩

theorem plain_toJson (o : CheckOutcome) : o.toJson.Plain := by
  apply Json.Plain.object
  · cases o <;> simp
  · cases o <;> simp [Json.Plain.text, ValueType.plain_toJson]

theorem ofJson?_toJson {limits : Json.Limits} {o : CheckOutcome}
    (h : limits.admits o.toJson = true) : ofJson? o.toJson limits = some o := by
  unfold ofJson?
  rw [if_pos h]
  cases o with
  | passed | empty => rfl
  | mismatch expected actual =>
    simp [toJson, Json.field?, ofMembers?, type?, ValueType.readJson?_toJson, kind, Json.ofText]
  | failed message =>
    simp [toJson, Json.field?, ofMembers?, Requirement.name?, kind, Json.ofText]

theorem toJson_injective : Function.Injective toJson := by
  intro o p h
  cases o <;> cases p <;>
    simp_all [toJson, kind, Json.ofText, ValueType.toJson_injective.eq_iff]

theorem jsonForm_faithful : jsonForm.Faithful where
  plain := plain_toJson
  decode?_encode _ _ := ofJson?_toJson
  encode_injective := toJson_injective

example : jsonForm.print .standard (.failed "\x22\n\x01") =
    "\x7b\x22outcome\x22:\x22failed\x22,\x22message\x22:\x22\x5c\x22\x5cn\x5cu0001\x22\x7d" := by
  decide

end CheckOutcome

inductive JsonKind where
  | span
  | type
  | expected
  | requirement
  | outcome

namespace JsonKind

def Content : JsonKind → Type
  | span => Span
  | type => ValueType
  | expected => Expected
  | requirement => Requirement
  | outcome => CheckOutcome

def form : (k : JsonKind) → JsonForm k.Content
  | span => Span.jsonForm
  | type => ValueType.jsonForm
  | expected => Expected.jsonForm
  | requirement => Requirement.jsonForm
  | outcome => CheckOutcome.jsonForm

theorem form_faithful (k : JsonKind) : k.form.Faithful := by
  cases k with
  | span => exact Span.jsonForm_faithful
  | type => exact ValueType.jsonForm_faithful
  | expected => exact Expected.jsonForm_faithful
  | requirement => exact Requirement.jsonForm_faithful
  | outcome => exact CheckOutcome.jsonForm_faithful

theorem read?_print_standard (k : JsonKind) {a : k.Content} (ha : (k.form.encode a).depth ≤ 127) :
    k.form.read? .standard (k.form.print .standard a) = some a :=
  k.form_faithful.read?_print Json.Serializer.standard_lawful ha

theorem print_standard_injective (k : JsonKind) : Function.Injective (k.form.print .standard) :=
  k.form_faithful.print_injective Json.Serializer.standard_lawful

/-- A value is read back from its text, unless that nests deeper than readers allow, and no other
value of its kind has the same text. -/
theorem read?_print_and_print_injective {s : Json.Serializer} (hs : s.Lawful) (k : JsonKind) :
    (∀ a : k.Content, (k.form.encode a).depth ≤ s.depth →
      k.form.read? s (k.form.print s a) = some a) ∧ Function.Injective (k.form.print s) := by
  have hfaithful := k.form_faithful
  constructor
  · intro a ha
    exact hfaithful.read?_print hs ha
  · exact hfaithful.print_injective hs

theorem read?_print_nested_and_escaped :
    let s := Json.Serializer.standard
    s.Lawful ∧
      type.form.read? s (type.form.print s (Nat.repeat ValueType.array 127 .text)) =
        some (Nat.repeat ValueType.array 127 .text) ∧
      outcome.form.read? s (outcome.form.print s (CheckOutcome.failed "\x22é\x22 \x5c\n\x01")) =
        some (CheckOutcome.failed "\x22é\x22 \x5c\n\x01") ∧
      outcome.form.print s (CheckOutcome.failed "\n") ≠
        outcome.form.print s (CheckOutcome.failed "\x5cn") := by
  intro s
  have hs : s.Lawful := Json.Serializer.standard_lawful
  refine ⟨hs, (read?_print_and_print_injective hs type).1 _ (by decide +kernel),
    (read?_print_and_print_injective hs outcome).1 _ (by decide), fun h => ?_⟩
  have hsame := (read?_print_and_print_injective hs outcome).2 h
  exact absurd (CheckOutcome.failed.inj hsame) (by decide)

end JsonKind

end ScopedFormulas
