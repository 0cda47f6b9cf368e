import ScopedFormulas.Json.Codec
import ScopedFormulas.Proofs.Json.Lexemes

/-!
What is asked of a library that prints and parses documents: that its prints are written by the
grammar, and that it parses what the grammar writes, within its limits, and no other texts.
-/

namespace ScopedFormulas.Json

theorem Written.unique {cs : List Char} {j k : Json} (hj : Written cs j) (hk : Written cs k) :
    j = k := by
  rw [← String.toList_ofList (l := cs)] at hj hk
  exact Option.some.inj ((parse?_of_written hj).symm.trans (parse?_of_written hk))

theorem Limits.textual_of_admitsWithin {limits : Limits} {depth : Nat} {j : Json}
    (h : limits.admitsWithin depth j = true) : j.Textual := by
  induction depth using Nat.strong_induction_on generalizing j with
  | _ depth ih =>
    cases j with
    | null => exact .null
    | bool b => exact .bool b
    | number n => exact .number n
    | string s =>
      obtain ⟨s, rfl⟩ := Option.isSome_iff_exists.mp h
      exact .text s
    | array items =>
      cases depth with
      | zero => cases h
      | succ depth =>
        rw [admitsWithin, admitsItems_eq, List.all_eq_true] at h
        exact .array fun j hj => ih depth depth.lt_succ_self (h j hj)
    | object members =>
      cases depth with
      | zero => cases h
      | succ depth =>
        rw [admitsWithin, admitsMembers_eq, List.all_eq_true] at h
        have hmember (m : Option String × Json) (hm : m ∈ members) :
            m.1.isSome = true ∧ limits.admitsWithin depth m.2 = true := by
          simpa using h m hm
        exact .object (fun m hm => (hmember m hm).1) fun m hm =>
          ih depth depth.lt_succ_self (hmember m hm).2

namespace Serializer

/-- Whether a document beyond the limits is parsed is left open. -/
structure Lawful (s : Serializer) : Prop where
  hundred_lt_depth : 100 < s.depth
  takesNaturals : s.TakesNaturals
  written_print : ∀ j, j.Plain → Written (s.print j).toList j
  parse?_of_written : ∀ text j, Written text.toList j → s.admits j = true → s.parse? text = some j
  written_of_parse? : ∀ text j, s.parse? text = some j → j.Textual → Written text.toList j

theorem standard_lawful : standard.Lawful where
  hundred_lt_depth := by decide
  takesNaturals := Limits.takesNaturals_standard
  written_print j hj := by
    change Written j.text.toList j
    rw [text, String.toList_ofList]
    exact hj.written
  parse?_of_written _ _ h _ := Json.parse?_of_written h
  written_of_parse? _ _ h hj := (parse?_eq_some_iff hj).mp h

variable {s : Serializer} {j k : Json}

theorem Lawful.le_depth (hs : s.Lawful) {n : Nat} (hn : n ≤ 100) : n ≤ s.depth :=
  Nat.le_of_lt (Nat.lt_of_le_of_lt hn hs.hundred_lt_depth)

theorem Lawful.admits_iff (hs : s.Lawful) (hj : j.Plain) : s.admits j = true ↔ j.depth ≤ s.depth :=
  Limits.admits_iff hs.takesNaturals hj

theorem Lawful.parse?_print (hs : s.Lawful) (hj : j.Plain) (hdepth : j.depth ≤ s.depth) :
    s.parse? (s.print j) = some j := by
  apply hs.parse?_of_written
  · exact hs.written_print j hj
  · exact (hs.admits_iff hj).mpr hdepth

theorem Lawful.print_inj (hs : s.Lawful) (hj : j.Plain) (hk : k.Plain)
    (h : s.print j = s.print k) : j = k :=
  (hs.written_print j hj).unique (h ▸ hs.written_print k hk)

end Serializer

end ScopedFormulas.Json
