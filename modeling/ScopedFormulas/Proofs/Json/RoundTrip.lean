import ScopedFormulas.Json.Parse
import ScopedFormulas.Proofs.Json.Tokens

namespace ScopedFormulas.Json

open Expecting

@[elab_as_elim]
theorem induct {motive : Json → Prop} (null : motive null) (bool : ∀ b, motive (bool b))
    (number : ∀ n, motive (number n)) (string : ∀ s, motive (string s))
    (array : ∀ items, (∀ j ∈ items, motive j) → motive (array items))
    (object : ∀ members, (∀ m ∈ members, motive m.2) → motive (object members)) (j : Json) :
    motive j :=
  Json.rec (motive_1 := motive) (motive_2 := fun items => ∀ j ∈ items, motive j)
    (motive_3 := fun members => ∀ m ∈ members, motive m.2) (motive_4 := fun m => motive m.2)
    null bool number string array object
    (fun _ h => nomatch h) (fun _ _ hd tl => List.forall_mem_cons.mpr ⟨hd, tl⟩)
    (fun _ h => nomatch h) (fun _ _ hd tl => List.forall_mem_cons.mpr ⟨hd, tl⟩)
    (fun _ _ h => h) j

theorem foldlM_firstItem (j : Json) (stack : List Frame) :
    j.tokens.foldlM step? (firstItem stack) =
      j.tokens.foldlM step? (value (.array [] :: stack)) := by
  -- No document begins with a closing bracket.
  cases j <;> rfl

theorem foldlM_items {rest : List Json}
    (h : ∀ j ∈ rest, ∀ stack, j.tokens.foldlM step? (value stack) = some (after j stack))
    (j : Json) (items : List Json) (stack : List Frame) :
    List.foldlM step? (after j (.array items :: stack))
        ((rest.flatMap fun k => .comma :: k.tokens) ++ [.closeArray]) =
      some (after (.array ((j :: items).reverse ++ rest)) stack) := by
  induction rest generalizing j items with
  | nil => simp [step?]
  | cons k rest ih =>
    have hitem := h k List.mem_cons_self (.array (j :: items) :: stack)
    have hrest := ih (fun l hl => h l (List.mem_cons_of_mem _ hl)) k (j :: items)
    simpa [step?, hitem] using hrest

theorem foldlM_members {rest : List (Option String × Json)}
    (h : ∀ m ∈ rest, ∀ stack, m.2.tokens.foldlM step? (value stack) = some (after m.2 stack))
    (j : Json) (members : List (Option String × Json)) (name : Option String)
    (stack : List Frame) :
    List.foldlM step? (after j (.member members name :: stack))
        ((rest.flatMap fun m => .comma :: .string m.1 :: .colon :: m.2.tokens) ++
          [.closeObject]) =
      some (after (.object (((name, j) :: members).reverse ++ rest)) stack) := by
  induction rest generalizing j members name with
  | nil => simp [step?]
  | cons m rest ih =>
    have hmember := h m List.mem_cons_self (.member ((name, j) :: members) m.1 :: stack)
    have hrest := ih (fun n hn => h n (List.mem_cons_of_mem _ hn)) m.2 ((name, j) :: members) m.1
    simpa [step?, hmember] using hrest

theorem foldlM_tokens (j : Json) (stack : List Frame) :
    j.tokens.foldlM step? (value stack) = some (after j stack) := by
  induction j using induct generalizing stack with
  | null | bool b | number n | string s => rfl
  | array items ih =>
    cases items with
    | nil => rfl
    | cons j rest =>
      have hfirst := ih j List.mem_cons_self (.array [] :: stack)
      have hrest := foldlM_items (fun k hk => ih k (List.mem_cons_of_mem _ hk)) j [] stack
      change List.foldlM step? (firstItem stack) (itemsTokens [] (j :: rest) ++ [.closeArray]) = _
      rw [itemsTokens, itemsTokens_comma, List.nil_append, List.append_assoc, List.foldlM_append,
        foldlM_firstItem, hfirst]
      exact hrest
  | object members ih =>
    cases members with
    | nil => rfl
    | cons m rest =>
      have hfirst := ih m List.mem_cons_self (.member [] m.1 :: stack)
      have hrest :=
        foldlM_members (fun n hn => ih n (List.mem_cons_of_mem _ hn)) m.2 [] m.1 stack
      change List.foldlM step? (value (.member [] m.1 :: stack))
        (m.2.tokens ++ membersTokens [.comma] rest ++ [.closeObject]) = _
      rw [membersTokens_comma, List.append_assoc, List.foldlM_append, hfirst]
      exact hrest

theorem ofTokens?_tokens (j : Json) : ofTokens? j.tokens = some j := by
  rw [ofTokens?, foldlM_tokens j]
  rfl

def itemsRead (items : List Json) : List Token := items.reverse.flatMap fun j => j.tokens ++ [.comma]

def membersRead (members : List (Option String × Json)) : List Token :=
  members.reverse.flatMap fun m => .string m.1 :: .colon :: m.2.tokens ++ [.comma]

def Frame.read : Frame → List Token
  | .array items => .openArray :: itemsRead items
  | .member members n => .openObject :: membersRead members ++ [.string n, .colon]

def Expecting.read : Expecting → List Token
  | value stack => stack.reverse.flatMap Frame.read
  | firstItem stack => stack.reverse.flatMap Frame.read ++ [.openArray]
  | firstName stack => stack.reverse.flatMap Frame.read ++ [.openObject]
  | name members stack => stack.reverse.flatMap Frame.read ++ .openObject :: membersRead members
  | colon members n stack =>
    stack.reverse.flatMap Frame.read ++ .openObject :: membersRead members ++ [.string n]
  | after j stack => stack.reverse.flatMap Frame.read ++ j.tokens

theorem tokens_array_reverse (j : Json) (items : List Json) :
    (array (j :: items).reverse).tokens =
      .openArray :: itemsRead items ++ j.tokens ++ [.closeArray] := by
  have hsplit (front : List Json) :
      itemsTokens [] (front ++ [j]) = front.flatMap (fun k => k.tokens ++ [.comma]) ++ j.tokens := by
    induction front with
    | nil => simp [itemsTokens]
    | cons k front ih =>
      cases front with
      | nil => simp [itemsTokens]
      | cons l front => simp_all [itemsTokens]
  rw [tokens, List.reverse_cons, hsplit, itemsRead]
  rfl

theorem tokens_object_reverse (j : Json) (name : Option String)
    (members : List (Option String × Json)) :
    (object ((name, j) :: members).reverse).tokens =
      .openObject :: membersRead members ++ .string name :: .colon :: j.tokens ++
        [.closeObject] := by
  have hsplit (front : List (Option String × Json)) :
      membersTokens [] (front ++ [(name, j)]) =
        front.flatMap (fun m => .string m.1 :: .colon :: m.2.tokens ++ [.comma]) ++
          .string name :: .colon :: j.tokens := by
    induction front with
    | nil => simp [membersTokens]
    | cons m front ih =>
      cases front with
      | nil => simp [membersTokens]
      | cons n front => simp_all [membersTokens]
  rw [tokens, List.reverse_cons, hsplit, membersRead]
  rfl

theorem read_begin? {stack : List Frame} {t : Token} {e : Expecting}
    (h : Expecting.begin? stack t = some e) :
    e.read = stack.reverse.flatMap Frame.read ++ [t] := by
  cases t <;> cases h <;> rfl

theorem read_step? {e e' : Expecting} {t : Token} (h : e.step? t = some e') :
    e'.read = e.read ++ [t] := by
  cases e with
  | value stack => exact read_begin? h
  | firstItem stack =>
    by_cases hclose : t = .closeArray
    · subst hclose
      cases h
      simp [Expecting.read, tokens, itemsTokens]
    · have hbegin : Expecting.begin? (.array [] :: stack) t = some e' := by
        cases t <;> first | exact h | exact absurd rfl hclose
      rw [read_begin? hbegin]
      simp [Expecting.read, Frame.read, itemsRead]
  | firstName stack =>
    cases t <;> cases h <;> simp [Expecting.read, membersRead, tokens, membersTokens]
  | name members stack =>
    cases t <;> cases h
    simp [Expecting.read]
  | colon members n stack =>
    cases t <;> cases h
    simp [Expecting.read, Frame.read]
  | after j stack =>
    cases stack with
    | nil => cases t <;> cases h
    | cons frame stack =>
      cases frame with
      | array items =>
        cases t <;> cases h
        · rw [Expecting.read, tokens_array_reverse]
          simp [Expecting.read, Frame.read]
        · simp [Expecting.read, Frame.read, itemsRead]
      | member members n =>
        cases t <;> cases h
        · rw [Expecting.read, tokens_object_reverse]
          simp [Expecting.read, Frame.read]
        · simp [Expecting.read, Frame.read, membersRead]

theorem read_foldlM {ts : List Token} {e e' : Expecting} (h : ts.foldlM step? e = some e') :
    e'.read = e.read ++ ts := by
  induction ts generalizing e with
  | nil =>
    cases h
    simp
  | cons t ts ih =>
    obtain ⟨next, hstep, hrest⟩ := Option.bind_eq_some_iff.mp h
    rw [ih hrest, read_step? hstep, List.append_assoc, List.singleton_append]

theorem tokens_of_ofTokens? {ts : List Token} {j : Json} (h : ofTokens? ts = some j) :
    ts = j.tokens := by
  obtain ⟨e, hread, hfinish⟩ := Option.bind_eq_some_iff.mp h
  have hts : e.read = ts := read_foldlM hread
  unfold Expecting.finish? at hfinish
  split at hfinish
  · cases hfinish
    exact hts.symm
  · cases hfinish

theorem ofTokens?_eq_some_iff {ts : List Token} {j : Json} :
    ofTokens? ts = some j ↔ ts = j.tokens := by
  constructor
  · exact tokens_of_ofTokens?
  · rintro rfl
    exact ofTokens?_tokens j

theorem parse?_of_written {text : String} {j : Json} (h : Written text.toList j) :
    parse? text = some j := by
  rw [parse?, Token.ofChars?_of_written h, Option.bind_some, ofTokens?_tokens]

end ScopedFormulas.Json
