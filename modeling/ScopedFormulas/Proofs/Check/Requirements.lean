import ScopedFormulas.Proofs.Json.Forms
import ScopedFormulas.Proofs.Text.ByteOrder
import Mathlib.Data.List.Induction

namespace ScopedFormulas

namespace Table

variable {α : Type}

def Last (name : String) (a : α) (entries : List (String × α)) : Prop :=
  ∃ before after, entries = before ++ (name, a) :: after ∧ ∀ e ∈ after, e.1 ≠ name

theorem last_snoc {name : String} {a : α} {entries : List (String × α)} {e : String × α} :
    Last name a (entries ++ [e]) ↔ e = (name, a) ∨ e.1 ≠ name ∧ Last name a entries := by
  constructor
  · rintro ⟨before, after, heq, hafter⟩
    rcases List.eq_nil_or_concat after with rfl | ⟨after, d, rfl⟩
    · exact .inl (List.append_inj' heq rfl |>.2 |> List.head_eq_of_cons_eq)
    · rw [List.concat_eq_append, ← List.cons_append, ← List.append_assoc] at heq
      obtain ⟨hentries, hlast⟩ := List.append_inj' heq rfl
      obtain rfl := List.head_eq_of_cons_eq hlast
      rw [List.concat_eq_append, List.forall_mem_append] at hafter
      exact .inr ⟨hafter.2 e List.mem_cons_self, before, after, hentries, hafter.1⟩
  · rintro (rfl | ⟨hne, before, after, rfl, hafter⟩)
    · exact ⟨entries, [], rfl, by simp⟩
    · refine ⟨before, after ++ [e], by simp, ?_⟩
      exact List.forall_mem_append.mpr ⟨hafter, by simpa using hne⟩

theorem ofList_snoc (entries : List (String × α)) (e : String × α) :
    ofList (entries ++ [e]) = (ofList entries).insert e.1 e.2 := by
  rw [ofList, List.foldl_append]
  rfl

theorem get?_ofList_eq_some_iff {entries : List (String × α)} {name : String} {a : α} :
    (ofList entries).get? name = some a ↔ Last name a entries := by
  induction entries using List.reverseRecOn with
  | nil => simp [ofList, Last]
  | append_singleton entries e ih =>
    rw [ofList_snoc, get?_insert, last_snoc, ← ih]
    split
    next h =>
      subst h
      simp [Prod.ext_iff]
    next h =>
      simp [Prod.ext_iff, h]

theorem insertEntry_of_forall_lt {name : String} {a : α} {l : List (String × α)}
    (h : ∀ e ∈ l, e.1 < name) : insertEntry name a l = l ++ [(name, a)] := by
  induction l with
  | nil => rfl
  | cons e rest ih =>
    obtain ⟨hlt, hrest⟩ := List.forall_mem_cons.mp h
    have hne : e.1 ≠ name := String.ne_of_lt hlt
    have hgt : ¬ name < e.1 := String.lt_asymm hlt
    simp [insertEntry, hne, hgt, ih hrest]

theorem Sorted.ofList_entries {t : Table α} (h : t.Sorted) : ofList t.entries = t := by
  obtain ⟨entries⟩ := t
  induction entries using List.reverseRecOn with
  | nil => rfl
  | append_singleton entries e ih =>
    obtain ⟨hentries, -, hlast⟩ := List.pairwise_append.mp h
    have hsnoc := @insertEntry_of_forall_lt _ e.1 e.2 entries
      fun d hd => hlast d hd e List.mem_cons_self
    rw [ofList_snoc, ih hentries, Table.insert, hsnoc]

theorem Sorted.get?_eq_some_iff {t : Table α} (h : t.Sorted) {name : String} {a : α} :
    t.get? name = some a ↔ (name, a) ∈ t.entries := by
  refine ⟨mem_of_get?, fun hmem => ?_⟩
  obtain ⟨before, after, hsplit⟩ := List.append_of_mem hmem
  rw [← h.ofList_entries, get?_ofList_eq_some_iff]
  refine ⟨before, after, hsplit, fun e he => ?_⟩
  rw [Sorted, hsplit, List.pairwise_append, List.pairwise_cons] at h
  exact (String.ne_of_lt (h.2.1.1 e he)).symm

end Table

namespace Requirement

theorem depth_toJson_le (r : Requirement) : r.toJson.depth ≤ 1 := by
  cases r with
  | scalar name => exact Nat.zero_le 1
  | list elems =>
    refine Nat.succ_le_succ (Json.itemsDepth_le_iff.mpr fun j hj => ?_)
    obtain ⟨s, -, rfl⟩ := List.mem_map.mp hj
    exact Nat.le_refl 0

theorem ofJson?_eq_some_iff {limits : Json.Limits} (hlimits : limits.TakesNaturals)
    (hdepth : 1 ≤ limits.depth) {j : Json} {r : Requirement} :
    ofJson? j limits = some r ↔ j = r.toJson := by
  constructor
  · intro h
    unfold ofJson? at h
    split_ifs at h
    split at h
    · cases h
      rfl
    · obtain ⟨elems, helems, rfl⟩ := Option.map_eq_some_iff.mp h
      rw [mapM_eq_some_iff fun _ _ => name?_eq_some_iff] at helems
      rw [helems, toJson]
    · cases h
  · rintro rfl
    exact ofJson?_toJson ((Json.Limits.admits_iff hlimits r.plain_toJson).mpr
      (r.depth_toJson_le.trans hdepth))

end Requirement

namespace Requirements

def stated (entries : List (String × Requirement)) : Json :=
  .object (entries.map fun e => (some e.1, e.2.toJson))

theorem plain_stated (entries : List (String × Requirement)) : (stated entries).Plain :=
  .object (List.forall_mem_map.mpr fun _ _ => rfl)
    (List.forall_mem_map.mpr fun e _ => e.2.plain_toJson)

theorem depth_stated_le (entries : List (String × Requirement)) : (stated entries).depth ≤ 2 := by
  refine Nat.succ_le_succ (Json.membersDepth_le_iff.mpr ?_)
  exact List.forall_mem_map.mpr fun e _ => e.2.depth_toJson_le

theorem eq_ofList (fields : Requirements) : fields = ofList fields.entries := by
  obtain ⟨t, ht⟩ := fields
  rw [ofList, mk.injEq, ht.ofList_entries]

variable {limits : Json.Limits} {s : Json.Serializer} {text : String} {fields : Requirements}

theorem field?_eq_some_iff (hlimits : limits.TakesNaturals) (hdepth : 2 ≤ limits.depth)
    {member : Option String × Json} {e : String × Requirement} :
    field? limits member = some e ↔ member = (some e.1, e.2.toJson) := by
  obtain ⟨name, j⟩ := member
  have hinner : limits.inner.TakesNaturals := hlimits
  have hread {r : Requirement} : Requirement.ofJson? j limits.inner = some r ↔ j = r.toJson :=
    Requirement.ofJson?_eq_some_iff hinner (Nat.le_sub_one_of_lt hdepth)
  cases name with
  | none => simp [field?]
  | some name => simp [field?, Option.bind_eq_some_iff, hread, Prod.ext_iff, and_comm]

theorem ofJson?_eq_some_iff (hlimits : limits.TakesNaturals) (hdepth : 2 ≤ limits.depth) {j : Json} :
    ofJson? limits j = some fields ↔ ∃ entries, j = stated entries ∧ fields = ofList entries := by
  cases j with
  | object members =>
    rw [ofJson?, Option.map_eq_some_iff]
    refine exists_congr fun entries => ?_
    rw [mapM_eq_some_iff fun _ _ => field?_eq_some_iff hlimits hdepth, stated, Json.object.injEq,
      eq_comm (b := fields)]
  | _ => simp [ofJson?, stated]

theorem parse?_eq_some_iff (hs : s.Lawful) :
    parse? text s = some fields ↔
      ∃ entries, (stated entries).Written text.toList ∧ fields = ofList entries := by
  have hdepth : 2 ≤ s.depth := hs.le_depth (by decide)
  rw [parse?, Option.bind_eq_some_iff]
  constructor
  · rintro ⟨j, hparse, hj⟩
    obtain ⟨entries, rfl, rfl⟩ := (ofJson?_eq_some_iff hs.takesNaturals hdepth).mp hj
    have htextual := (plain_stated entries).written.textual
    exact ⟨entries, hs.written_of_parse? text _ hparse htextual, rfl⟩
  · rintro ⟨entries, hwritten, rfl⟩
    have hadmits := (hs.admits_iff (plain_stated entries)).mpr ((depth_stated_le entries).trans hdepth)
    exact ⟨stated entries, hs.parse?_of_written text _ hwritten hadmits,
      (ofJson?_eq_some_iff hs.takesNaturals hdepth).mpr ⟨entries, rfl, rfl⟩⟩

theorem parse?_print_toJson (hs : s.Lawful) (fields : Requirements) :
    parse? (s.print fields.toJson) s = some fields :=
  (parse?_eq_some_iff hs).mpr
    ⟨fields.entries, hs.written_print _ (plain_stated fields.entries), fields.eq_ofList⟩

theorem parse?_text_toJson (fields : Requirements) : parse? fields.toJson.text = some fields :=
  parse?_print_toJson Json.Serializer.standard_lawful fields

/-- Requirements are read from the texts of objects that hold strings and arrays of strings, from
all of them and from no others. The names come in the order of their bytes, each with the member
that is written last. So requirements are read back from their own text. -/
theorem parse?_exact {s : Json.Serializer} (hs : s.Lawful) :
    (∀ text : String, (parse? text s).isSome = true ↔
      ∃ entries : List (String × Requirement),
        Json.Written text.toList (.object (entries.map fun e => (some e.1, e.2.toJson)))) ∧
    (∀ (text : String) (entries : List (String × Requirement)),
      Json.Written text.toList (.object (entries.map fun e => (some e.1, e.2.toJson))) →
      ∃ fields, parse? text s = some fields ∧
        fields.entries.Pairwise (fun e f => Text.bytes e.1 < Text.bytes f.1) ∧
        ∀ name r, (name, r) ∈ fields.entries ↔ Table.Last name r entries) ∧
    ∀ fields : Requirements, parse? (s.print fields.toJson) s = some fields := by
  refine ⟨fun text => ?_, fun text entries hwritten => ?_, parse?_print_toJson hs⟩
  · rw [Option.isSome_iff_exists]
    constructor
    · rintro ⟨fields, hfields⟩
      obtain ⟨entries, hwritten, -⟩ := (parse?_eq_some_iff hs).mp hfields
      exact ⟨entries, hwritten⟩
    · rintro ⟨entries, hwritten⟩
      exact ⟨_, (parse?_eq_some_iff hs).mpr ⟨entries, hwritten, rfl⟩⟩
  · have hparse := (parse?_eq_some_iff hs).mpr ⟨entries, hwritten, rfl⟩
    refine ⟨ofList entries, hparse, ?_, fun name r => ?_⟩
    · exact (ofList entries).sorted.imp fun h => Text.bytes_lt_bytes_iff.mpr h
    · rw [← (ofList entries).sorted.get?_eq_some_iff, ofList, Table.get?_ofList_eq_some_iff]

theorem parse?_exact_repeated :
    let s := Json.Serializer.standard
    let text := " \x7b\x22b\x22 : [ ], \x22\x5cu0062\x22:[\x22y\x22],\x22a\x22:\x22x\x22\x7d\n"
    let entries := [("b", Requirement.list []), ("b", .list ["y"]), ("a", .scalar "x")]
    let fields := ofList entries
    s.Lawful ∧ Json.Written text.toList (.object (entries.map fun e => (some e.1, e.2.toJson))) ∧
      (∃ fields, parse? text s = some fields ∧ ("b", .list ["y"]) ∈ fields.entries) ∧
      fields.entries = [("a", .scalar "x"), ("b", .list ["y"])] ∧
      parse? (s.print fields.toJson) s = some fields := by
  intro s text entries fields
  have hs : s.Lawful := Json.Serializer.standard_lawful
  have hparse : Json.parse? text = some (stated entries) := by
    dsimp only [text]
    rfl
  have hwritten := (Json.parse?_eq_some_iff (plain_stated entries).written.textual).mp hparse
  obtain ⟨read, hread, -, hlast⟩ := (parse?_exact hs).2.1 text entries hwritten
  have hmem := (hlast "b" (.list ["y"])).mpr ⟨[("b", .list [])], [("a", .scalar "x")], rfl, by simp⟩
  exact ⟨hs, hwritten, ⟨read, hread, hmem⟩, by decide, (parse?_exact hs).2.2 fields⟩

end Requirements

end ScopedFormulas
