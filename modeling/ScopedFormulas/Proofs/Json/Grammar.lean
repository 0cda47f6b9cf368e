import ScopedFormulas.Proofs.Json.Plain
import ScopedFormulas.Proofs.Json.Strings

/-!
The grammar of JSON text: which characters write which document. Main statement: printing a plain
document is one way to write it.
-/

namespace ScopedFormulas.Json

def Blank (cs : List Char) : Prop := ∀ c ∈ cs, c ∈ [' ', '\t', '\n', '\r']

theorem blank_nil : Blank [] := fun _ h => nomatch h

structure MemberText where
  nameChars : List Char
  name : String
  contentChars : List Char
  content : Json

namespace MemberText

def chars (m : MemberText) : List Char := m.nameChars ++ ':' :: m.contentChars

def member (m : MemberText) : Option String × Json := (some m.name, m.content)

end MemberText

/-- The characters write the document. Blanks may stand around every value and every name. Strings
that denote no text are not written at all. -/
inductive Written : List Char → Json → Prop
  | null : Written "null".toList null
  | true : Written "true".toList (bool .true)
  | false : Written "false".toList (bool .false)
  | number {cs : List Char} {n : Numeral} (h : n.Written cs) : Written cs (number n)
  | string {cs : List Char} {s : String} (h : Quoted cs s.toList) :
    Written ('\x22' :: cs ++ ['\x22']) (ofText s)
  | noItems {blank : List Char} (h : Blank blank) : Written ('[' :: blank ++ [']']) (array [])
  | array {items : List (List Char × Json)} (h : ∀ item ∈ items, Written item.1 item.2) :
    Written ('[' :: [','].intercalate (items.map Prod.fst) ++ [']']) (array (items.map Prod.snd))
  | noMembers {blank : List Char} (h : Blank blank) :
    Written ('\x7b' :: blank ++ ['\x7d']) (object [])
  | object {members : List MemberText} (hnames : ∀ m ∈ members, Written m.nameChars (ofText m.name))
    (h : ∀ m ∈ members, Written m.contentChars m.content) :
    Written ('\x7b' :: [','].intercalate (members.map MemberText.chars) ++ ['\x7d'])
      (object (members.map MemberText.member))
  | padded {before cs after : List Char} {j : Json} (hbefore : Blank before) (hafter : Blank after)
    (h : Written cs j) : Written (before ++ cs ++ after) j

inductive Textual : Json → Prop
  | null : Textual null
  | bool (b : Bool) : Textual (bool b)
  | number (n : Numeral) : Textual (number n)
  | text (s : String) : Textual (ofText s)
  | array {items : List Json} (h : ∀ j ∈ items, Textual j) : Textual (array items)
  | object {members : List (Option String × Json)} (named : ∀ m ∈ members, m.1.isSome = true)
    (h : ∀ m ∈ members, Textual m.2) : Textual (object members)

theorem Written.textual {cs : List Char} {j : Json} (h : Written cs j) : j.Textual := by
  induction h with
  | null => exact .null
  | true => exact .bool _
  | false => exact .bool _
  | number h => exact .number _
  | string h => exact .text _
  | noItems h => exact .array (by simp)
  | array h ih => exact .array (List.forall_mem_map.mpr ih)
  | noMembers h => exact .object (by simp) (by simp)
  | object hnames h ihnames ih =>
    exact .object (List.forall_mem_map.mpr fun _ _ => rfl) (List.forall_mem_map.mpr ih)
  | padded hbefore hafter h ih => exact ih

theorem intercalate_comma (word : List Char) (words : List (List Char)) :
    [','].intercalate (word :: words) = word ++ words.flatMap (',' :: ·) := by
  induction words generalizing word with
  | nil => simp
  | cons next words ih => simp [List.intercalate_cons_cons, ih]

theorem itemsChars_comma (items : List Json) :
    itemsChars [','] items = (items.map chars).flatMap (',' :: ·) := by
  induction items with
  | nil => rfl
  | cons j rest ih => simp [itemsChars, ih]

theorem itemsChars_eq (items : List Json) :
    itemsChars [] items = [','].intercalate (items.map chars) := by
  cases items with
  | nil => rfl
  | cons j rest =>
    rw [itemsChars, itemsChars_comma, List.nil_append, List.map_cons, intercalate_comma]

def memberChars (m : Option String × Json) : List Char := stringChars m.1 ++ ':' :: m.2.chars

theorem membersChars_comma (members : List (Option String × Json)) :
    membersChars [','] members = (members.map memberChars).flatMap (',' :: ·) := by
  induction members with
  | nil => rfl
  | cons m rest ih => simp [membersChars, memberChars, ih]

theorem membersChars_eq (members : List (Option String × Json)) :
    membersChars [] members = [','].intercalate (members.map memberChars) := by
  cases members with
  | nil => rfl
  | cons m rest =>
    rw [membersChars, membersChars_comma, List.nil_append, List.map_cons, intercalate_comma]
    rfl

theorem written_quote (s : String) : Written (quote s.toList) (ofText s) :=
  .string (Token.quoted_escapes s.toList)

theorem exists_named {members : List (Option String × Json)}
    (h : ∀ m ∈ members, m.1.isSome = .true) :
    ∃ named : List (String × Json), members = named.map fun m => (some m.1, m.2) := by
  induction members with
  | nil => exact ⟨[], rfl⟩
  | cons m members ih =>
    obtain ⟨hm, hrest⟩ := List.forall_mem_cons.mp h
    obtain ⟨name, hname⟩ := Option.isSome_iff_exists.mp hm
    obtain ⟨named, rfl⟩ := ih hrest
    exact ⟨(name, m.2) :: named, by simp [← hname]⟩

theorem Plain.written {j : Json} (hj : j.Plain) : Written j.chars j := by
  induction hj with
  | null => exact .null
  | bool b =>
    cases b with
    | true => exact .true
    | false => exact .false
  | @natural n small =>
    have hn := Numeral.written_ofNat n
    rw [← Numeral.chars_ofNat n] at hn
    exact .number hn
  | text s => exact written_quote s
  | @array items items_plain ih =>
    have hitems := @Written.array (items.map fun j => (j.chars, j)) (List.forall_mem_map.mpr ih)
    rw [chars, itemsChars_eq]
    simpa [Function.comp_def] using hitems
  | object named contents_plain ih =>
    obtain ⟨entries, rfl⟩ := exists_named named
    have hmembers := @Written.object
      (entries.map fun e => ⟨quote e.1.toList, e.1, e.2.chars, e.2⟩)
      (List.forall_mem_map.mpr fun e _ => written_quote e.1)
      (List.forall_mem_map.mpr (List.forall_mem_map.mp ih))
    rw [chars, membersChars_eq]
    simpa [Function.comp_def, MemberText.chars, MemberText.member, memberChars, stringChars]
      using hmembers

end ScopedFormulas.Json
