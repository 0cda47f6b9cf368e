import ScopedFormulas.Proofs.Json.Forms
import Mathlib.Data.List.Perm.Basic

namespace ScopedFormulas

def memberNames : List String := ["outcome", "expected", "actual", "message", "start", "end"]

namespace Json

theorem field?_perm {members others : List (Option String × Json)} (h : members.Perm others)
    (name : String) : field? name members = field? name others := by
  have hnamed := h.filter fun m => m.1 == some name
  unfold field?
  generalize members.filter (fun m => m.1 == some name) = named at hnamed
  generalize others.filter (fun m => m.1 == some name) = named' at hnamed
  -- Only the length of the lists matters, and the member of a list of length one.
  have hlength := hnamed.length_eq
  match named, named' with
  | [], [] => rfl
  | [m], [m'] => rw [List.perm_singleton.mp hnamed]
  | _ :: _ :: _, _ :: _ :: _ => rfl

theorem field?_append_of_ne {members extras : List (Option String × Json)} {name : String}
    (h : ∀ m ∈ extras, m.1 ≠ some name) : field? name (members ++ extras) = field? name members := by
  have hnone : extras.filter (fun m => m.1 == some name) = [] :=
    List.filter_eq_nil_iff.mpr fun m hm => by simpa using h m hm
  rw [field?, List.filter_append, hnone, List.append_nil, field?]

inductive Unknown : Option String × Json → Prop
  | mk {name : String} (hname : name ∉ memberNames) {k : JsonKind} (a : k.Content)
    (hdepth : (k.form.encode a).depth ≤ 100) : Unknown (some name, k.form.encode a)

def Rearranged (printed members : List (Option String × Json)) : Prop :=
  ∃ extras, (∀ m ∈ extras, Unknown m) ∧ members.Perm (printed ++ extras)

theorem Unknown.plain {m : Option String × Json} (h : Unknown m) : m.2.Plain := by
  obtain ⟨hname, a, hdepth⟩ := h
  exact (JsonKind.form_faithful _).plain a

theorem Unknown.isSome {m : Option String × Json} (h : Unknown m) : m.1.isSome = true := by
  cases h
  rfl

theorem Unknown.ne {m : Option String × Json} (h : Unknown m) {name : String}
    (hname : name ∈ memberNames) : m.1 ≠ some name := by
  obtain ⟨hother, a, hdepth⟩ := h
  rintro heq
  exact hother (Option.some.inj heq ▸ hname)

theorem Unknown.depth_le {m : Option String × Json} (h : Unknown m) : m.2.depth ≤ 100 := by
  obtain ⟨hname, a, hdepth⟩ := h
  exact hdepth

namespace Rearranged

variable {printed members : List (Option String × Json)}

theorem field?_eq (h : Rearranged printed members) (name : String) (hname : name ∈ memberNames) :
    field? name members = field? name printed := by
  obtain ⟨extras, hextras, hperm⟩ := h
  rw [field?_perm hperm, field?_append_of_ne fun m hm => (hextras m hm).ne hname]

theorem plain (h : Rearranged printed members) (hprinted : (object printed).Plain) :
    (object members).Plain := by
  obtain ⟨extras, hextras, hperm⟩ := h
  cases hprinted with
  | object named contents_plain =>
    constructor
    · intro m hm
      rcases List.mem_append.mp (hperm.mem_iff.mp hm) with hm | hm
      · exact named m hm
      · exact (hextras m hm).isSome
    · intro m hm
      rcases List.mem_append.mp (hperm.mem_iff.mp hm) with hm | hm
      · exact contents_plain m hm
      · exact (hextras m hm).plain

theorem depth_le_iff (h : Rearranged printed members) {limit : Nat} (hlimit : 100 < limit) :
    (object members).depth ≤ limit ↔ (object printed).depth ≤ limit := by
  obtain ⟨extras, hextras, hperm⟩ := h
  obtain ⟨limit, rfl⟩ := Nat.exists_eq_add_of_lt hlimit
  rw [depth, depth, Nat.succ_le_succ_iff, Nat.succ_le_succ_iff, membersDepth_le_iff,
    membersDepth_le_iff]
  constructor
  · intro hmembers m hm
    exact hmembers m (hperm.mem_iff.mpr (List.mem_append_left extras hm))
  · intro hprinted m hm
    rcases List.mem_append.mp (hperm.mem_iff.mp hm) with hm | hm
    · exact hprinted m hm
    · exact Nat.le_add_right_of_le (hextras m hm).depth_le

theorem admits_eq (h : Rearranged printed members) (hprinted : (object printed).Plain)
    {limits : Limits} (hnaturals : limits.TakesNaturals) (hdepth : 100 < limits.depth) :
    limits.admits (object members) = limits.admits (object printed) := by
  rw [Bool.eq_iff_iff, Limits.admits_iff hnaturals (h.plain hprinted),
    Limits.admits_iff hnaturals hprinted]
  exact h.depth_le_iff hdepth

end Rearranged

end Json

theorem CheckOutcome.ofMembers?_congr {kind : String} {members others : List (Option String × Json)}
    (h : ∀ name ∈ memberNames, Json.field? name members = Json.field? name others) :
    ofMembers? kind members = ofMembers? kind others := by
  have hexpected := h "expected" (by decide)
  have hactual := h "actual" (by decide)
  have hmessage := h "message" (by decide)
  rw [ofMembers?, ofMembers?, hexpected, hactual, hmessage]

theorem CheckOutcome.ofJson?_rearranged {printed members : List (Option String × Json)}
    {limits : Json.Limits} (hnaturals : limits.TakesNaturals) (hdepth : 100 < limits.depth)
    (hprinted : (Json.object printed).Plain) (h : Json.Rearranged printed members) :
    ofJson? (.object members) limits = ofJson? (.object printed) limits := by
  have hadmits := h.admits_eq hprinted hnaturals hdepth
  have houtcome := h.field?_eq "outcome" (by decide)
  have hmembers (kind : String) : ofMembers? kind members = ofMembers? kind printed :=
    ofMembers?_congr h.field?_eq
  simp only [ofJson?, hadmits, houtcome, hmembers]

theorem CheckOutcome.ofJson?_of_not_admits {limits : Json.Limits} {j : Json}
    (h : limits.admits j = false) : ofJson? j limits = none := if_neg (by simp [h])

theorem Span.ofJson?_rearranged {printed members : List (Option String × Json)}
    (hprinted : (Json.object printed).Plain) (h : Json.Rearranged printed members) :
    ofJson? (.object members) = ofJson? (.object printed) := by
  have hnamed {ms : List (Option String × Json)} (hms : (Json.object ms).Plain) :
      (ms.all fun m => m.1.isSome) = true := by
    cases hms with
    | object named _ => exact List.all_eq_true.mpr named
  have hstart := h.field?_eq "start" (by decide)
  have hend := h.field?_eq "end" (by decide)
  rw [ofJson?, ofJson?, hnamed hprinted, hnamed (h.plain hprinted), hstart, hend]

namespace JsonForm

variable {α : Type} {f : JsonForm α} {s : Json.Serializer} {j : Json} {text : String}

theorem read?_of_admits (hs : s.Lawful) (h : j.Written text.toList) (hj : s.admits j = true) :
    f.read? s text = f.decode? s.toLimits j := by
  rw [read?, hs.parse?_of_written text j h hj, Option.bind_some]

/-- When the form refuses what is beyond the limits, it does not matter who refuses it first. -/
theorem read?_of_written (hs : s.Lawful)
    (hrefused : ∀ j, s.admits j = false → f.decode? s.toLimits j = none)
    (h : j.Written text.toList) : f.read? s text = f.decode? s.toLimits j := by
  cases hj : s.admits j with
  | true => exact read?_of_admits hs h hj
  | false =>
    rw [hrefused j hj, read?, Option.bind_eq_none_iff]
    intro k hk
    cases hadmits : s.admits k with
    | false => exact hrefused k hadmits
    | true =>
      have htextual := Json.Limits.textual_of_admitsWithin hadmits
      obtain rfl := h.unique (hs.written_of_parse? text k hk htextual)
      cases hj.symm.trans hadmits

end JsonForm

theorem CheckOutcome.read?_of_rearranged {s : Json.Serializer} (hs : s.Lawful) {o : CheckOutcome}
    {printed members : List (Option String × Json)} {text : String}
    (ho : o.toJson = .object printed) (hmembers : Json.Rearranged printed members)
    (htext : (Json.object members).Written text.toList) :
    jsonForm.read? s text = jsonForm.read? s (jsonForm.print s o) := by
  have hprinted : (Json.object printed).Plain := ho ▸ o.plain_toJson
  have hrefused : ∀ j, s.admits j = false → jsonForm.decode? s.toLimits j = none :=
    fun _ => ofJson?_of_not_admits
  have hprint := hs.written_print _ (jsonForm_faithful.plain o)
  rw [JsonForm.read?_of_written hs hrefused htext, JsonForm.print,
    JsonForm.read?_of_written hs hrefused hprint]
  change ofJson? _ _ = ofJson? o.toJson _
  rw [ofJson?_rearranged hs.takesNaturals hs.hundred_lt_depth hprinted hmembers, ho]

theorem Span.read?_of_rearranged {s : Json.Serializer} (hs : s.Lawful) {span : Span}
    {printed members : List (Option String × Json)} {text : String}
    (hspan : span.toJson = .object printed) (hmembers : Json.Rearranged printed members)
    (htext : (Json.object members).Written text.toList) :
    jsonForm.read? s text = some span := by
  have hprinted : (Json.object printed).Plain := hspan ▸ span.plain_toJson
  have hshallow : (Json.object printed).depth ≤ s.depth := by
    have hdepth : span.toJson.depth = 1 := rfl
    rw [← hspan, hdepth]
    exact hs.le_depth (by decide)
  have hadmits : s.admits (.object members) = true := by
    rw [hmembers.admits_eq hprinted hs.takesNaturals hs.hundred_lt_depth]
    exact (hs.admits_iff hprinted).mpr hshallow
  rw [JsonForm.read?_of_admits hs htext hadmits]
  change ofJson? (.object members) = some span
  rw [ofJson?_rearranged hprinted hmembers, ← hspan, ofJson?_toJson]

/-- An outcome is read from its members in any order, with other members anywhere between them,
just as it is read from its print; only depth can be in the way of either. A span is always read. -/
theorem read?_rearranged {s : Json.Serializer} (hs : s.Lawful) :
    (∀ (o : CheckOutcome) (printed members : List (Option String × Json)),
      o.toJson = .object printed → Json.Rearranged printed members →
      (Json.object members).Written (s.print (.object members)).toList ∧
      ∀ text : String, (Json.object members).Written text.toList →
        CheckOutcome.jsonForm.read? s text =
          CheckOutcome.jsonForm.read? s (CheckOutcome.jsonForm.print s o) ∧
        (o.toJson.depth ≤ s.depth → CheckOutcome.jsonForm.read? s text = some o)) ∧
    ∀ (span : Span) (printed members : List (Option String × Json)),
      span.toJson = .object printed → Json.Rearranged printed members →
      (Json.object members).Written (s.print (.object members)).toList ∧
      ∀ text : String, (Json.object members).Written text.toList →
        Span.jsonForm.read? s text = some span := by
  constructor
  · intro o printed members ho hmembers
    have hprinted : (Json.object printed).Plain := ho ▸ o.plain_toJson
    refine ⟨hs.written_print _ (hmembers.plain hprinted), fun text htext => ?_⟩
    have hread := CheckOutcome.read?_of_rearranged hs ho hmembers htext
    exact ⟨hread, fun hdepth => hread.trans (CheckOutcome.jsonForm_faithful.read?_print hs hdepth)⟩
  · intro span printed members hspan hmembers
    have hprinted : (Json.object printed).Plain := hspan ▸ span.plain_toJson
    refine ⟨hs.written_print _ (hmembers.plain hprinted), fun text htext => ?_⟩
    exact Span.read?_of_rearranged hs hspan hmembers htext

theorem read?_rearranged_interleaved :
    let s := Json.Serializer.standard
    let nested : CheckOutcome := .mismatch (.array .number) .text
    let members := [(some "actual", .ofText "text"), (some "note", nested.toJson),
      (some "outcome", .ofText "mismatch"), (some "expected", ValueType.number.toJson)]
    s.Lawful ∧
      CheckOutcome.jsonForm.read? s (s.print (.object members)) = some (.mismatch .number .text) ∧
      Span.jsonForm.read? s (s.print (.object [(some "end", .ofNat 2), (some "start", .ofNat 1)])) =
        some ⟨1, 2⟩ := by
  intro s nested members
  have hs : s.Lawful := Json.Serializer.standard_lawful
  refine ⟨hs, ?_, ?_⟩
  · have hmembers : Json.Rearranged [(some "outcome", .ofText "mismatch"),
        (some "expected", ValueType.number.toJson), (some "actual", .ofText "text")] members := by
      refine ⟨[(some "note", nested.toJson)], ?_, @List.perm_append_comm _ [_, _] [_, _]⟩
      have hunknown : Json.Unknown (some "note", JsonKind.outcome.form.encode nested) :=
        @Json.Unknown.mk "note" (by decide) .outcome nested (by decide)
      exact List.forall_mem_singleton.mpr hunknown
    have hread := (read?_rearranged hs).1 (.mismatch .number .text) _ members rfl hmembers
    exact (hread.2 _ hread.1).2 (by decide)
  · have hmembers : Json.Rearranged [(some "start", .ofNat 1), (some "end", .ofNat 2)]
        [(some "end", .ofNat 2), (some "start", .ofNat 1)] :=
      ⟨[], by simp, .swap _ _ _⟩
    have hread := (read?_rearranged hs).2 ⟨1, 2⟩ _ _ rfl hmembers
    exact hread.2 _ hread.1

end ScopedFormulas
