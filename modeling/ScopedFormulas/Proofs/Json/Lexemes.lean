import ScopedFormulas.Proofs.Json.RoundTrip

namespace ScopedFormulas

namespace Token

open Json (Blank HexDigits Code)

inductive Lexeme : List Char → Token → Prop
  | punctuation {c : Char} {t : Token} (h : punctuation? c = some t) : Lexeme [c] t
  | bare {word : List Char} {t : Token} (h : ofBare? word = some t) : Lexeme word t
  | string {cs : List Char} {ps : List Piece} (h : Pieces cs ps) :
    Lexeme ('\x22' :: cs ++ ['\x22']) (string ((join? ps).map String.ofList))

inductive Lexemes : List Char → List Token → Prop
  | blank {cs : List Char} (h : Blank cs) : Lexemes cs []
  | cons {blank word cs : List Char} {t : Token} {ts : List Token} (hblank : Blank blank)
    (hword : Lexeme word t) (h : Lexemes cs ts) : Lexemes (blank ++ word ++ cs) (t :: ts)

theorem blank_append {before after : List Char} (hbefore : Blank before) (hafter : Blank after) :
    Blank (before ++ after) :=
  List.forall_mem_append.mpr ⟨hbefore, hafter⟩

theorem Lexemes.append_blank {cs blank : List Char} {ts : List Token} (h : Lexemes cs ts)
    (hblank : Blank blank) : Lexemes (cs ++ blank) ts := by
  induction h with
  | blank h => exact .blank (blank_append h hblank)
  | cons hbefore hword h ih =>
    rw [List.append_assoc]
    exact .cons hbefore hword ih

theorem Lexemes.snoc {cs word : List Char} {ts : List Token} {t : Token} (h : Lexemes cs ts)
    (hword : Lexeme word t) : Lexemes (cs ++ word) (ts ++ [t]) := by
  induction h with
  | blank h =>
    have hlast := Lexemes.cons h hword (.blank Json.blank_nil)
    simpa using hlast
  | cons hbefore hfirst h ih =>
    rw [List.append_assoc]
    exact .cons hbefore hfirst ih

def After (cs : List Char) (r : Reader) : Prop :=
  match r.place with
  | .between => Lexemes cs r.tokens.reverse
  | .bare chars => ∃ front, cs = front ++ chars.reverse ∧ Lexemes front r.tokens.reverse
  | .text pieces => ∃ front body, cs = front ++ '\x22' :: body ∧
    Lexemes front r.tokens.reverse ∧ Pieces body pieces.reverse
  | .escape pieces => ∃ front body, cs = front ++ '\x22' :: body ++ ['\x5c'] ∧
    Lexemes front r.tokens.reverse ∧ Pieces body pieces.reverse
  | .code pieces value read => ∃ front body digits,
    cs = front ++ '\x22' :: body ++ '\x5c' :: 'u' :: digits ∧
      Lexemes front r.tokens.reverse ∧ Pieces body pieces.reverse ∧
        HexDigits digits value ∧ digits.length = read

theorem after_begin? {cs : List Char} {read : List Token} {c : Char} {r : Reader}
    (h : Lexemes cs read.reverse) (hr : Reader.begin? read c = some r) : After (cs ++ [c]) r := by
  unfold Reader.begin? at hr
  split_ifs at hr with hblank hquote hbare
  · cases hr
    exact h.append_blank (by simpa [Blank] using isBlank_iff.mp hblank)
  · cases hr
    exact ⟨cs, [], by rw [hquote], h, .nil⟩
  · cases hr
    exact ⟨cs, rfl, h⟩
  · obtain ⟨t, ht, rfl⟩ := Option.map_eq_some_iff.mp hr
    have hword := h.snoc (.punctuation ht)
    simpa [After] using hword

theorem after_text {front body word : List Char} {read : List Token} {pieces : List Piece}
    {p : Piece} (hfront : Lexemes front read.reverse) (hbody : Pieces body pieces.reverse)
    (hword : p.Spelled word) :
    After (front ++ '\x22' :: (body ++ word)) ⟨read, .text (p :: pieces)⟩ := by
  have hpieces := hbody.snoc hword
  exact ⟨front, body ++ word, rfl, hfront, by simpa using hpieces⟩

theorem After.step {cs : List Char} {r r' : Reader} {c : Char} (h : After cs r)
    (hr : r.step? c = some r') : After (cs ++ [c]) r' := by
  obtain ⟨read, place⟩ := r
  cases place with
  | between => exact after_begin? h hr
  | bare chars =>
    obtain ⟨front, rfl, hfront⟩ := h
    simp only [Reader.step?] at hr
    split_ifs at hr with hbare
    · cases hr
      exact ⟨front, by simp, hfront⟩
    · obtain ⟨t, ht, hr⟩ := Option.bind_eq_some_iff.mp hr
      have hword := hfront.snoc (.bare ht)
      exact after_begin? (by simpa using hword) hr
  | text pieces =>
    obtain ⟨front, body, rfl, hfront, hbody⟩ := h
    simp only [Reader.step?] at hr
    split_ifs at hr with hquote hbackslash hcontrol
    · cases hr
      have hword := hfront.snoc (.string hbody)
      simpa [After, hquote] using hword
    · cases hr
      exact ⟨front, body, by rw [hbackslash], hfront, hbody⟩
    · cases hr
      have htext := after_text hfront hbody (.plain hquote hbackslash (Char.not_lt.mp hcontrol))
      simpa using htext
  | escape pieces =>
    obtain ⟨front, body, rfl, hfront, hbody⟩ := h
    simp only [Reader.step?] at hr
    split_ifs at hr with hcode
    · cases hr
      exact ⟨front, body, [], by simp [hcode], hfront, hbody, .nil, rfl⟩
    · obtain ⟨e, he, rfl⟩ := Option.map_eq_some_iff.mp hr
      have htext := after_text hfront hbody (.short (escaped?_eq_some_iff.mp he))
      simpa using htext
  | code pieces value count =>
    obtain ⟨front, body, digits, rfl, hfront, hbody, hdigits, hlength⟩ := h
    obtain ⟨digit, hdigit, hr⟩ := Option.map_eq_some_iff.mp hr
    have hlonger := hdigits.snoc (hexValue?_eq_some_iff.mp hdigit)
    simp only at hr
    split_ifs at hr with hlast
    · cases hr
      have hcode : Code (digits ++ [c]) (16 * value + digit) := ⟨by simp; omega, hlonger⟩
      have htext := after_text hfront hbody (.code hcode)
      simpa using htext
    · cases hr
      exact ⟨front, body, digits ++ [c], by simp, hfront, hbody, hlonger, by simp [hlength]⟩

theorem After.foldlM {cs rest : List Char} {r r' : Reader} (h : After cs r)
    (hr : rest.foldlM Reader.step? r = some r') : After (cs ++ rest) r' := by
  induction rest generalizing cs r with
  | nil =>
    cases hr
    simpa using h
  | cons c rest ih =>
    obtain ⟨next, hstep, hrest⟩ := Option.bind_eq_some_iff.mp hr
    rw [List.append_cons]
    exact ih (h.step hstep) hrest

theorem lexemes_of_ofChars? {cs : List Char} {ts : List Token} (h : ofChars? cs = some ts) :
    Lexemes cs ts := by
  obtain ⟨⟨read, place⟩, hread, hfinish⟩ := Option.bind_eq_some_iff.mp h
  have hstart : After [] Reader.start := Lexemes.blank Json.blank_nil
  have hafter := hstart.foldlM hread
  cases place with
  | between =>
    cases hfinish
    exact hafter
  | bare chars =>
    obtain ⟨t, ht, rfl⟩ := Option.map_eq_some_iff.mp hfinish
    obtain ⟨front, hcs, hfront⟩ := hafter
    have hword := hfront.snoc (.bare ht)
    rw [← hcs] at hword
    simpa using hword
  | text _ | escape _ | code _ _ _ => cases hfinish

theorem Lexemes.blank_of_nil {cs : List Char} (h : Lexemes cs []) : Blank cs := by
  cases h with
  | blank h => exact h

theorem Lexemes.single {cs : List Char} {t : Token} (h : Lexemes cs [t]) :
    ∃ before word after, cs = before ++ word ++ after ∧ Blank before ∧ Lexeme word t ∧
      Blank after := by
  cases h with
  | cons hbefore hword h => exact ⟨_, _, _, rfl, hbefore, hword, h.blank_of_nil⟩

theorem bare_cases {word : List Char} {t : Token} (h : ofBare? word = some t) :
    (word = "null".toList ∧ t = null) ∨ (word = "true".toList ∧ t = bool true) ∨
      (word = "false".toList ∧ t = bool false) ∨ ∃ n, n.Written word ∧ t = number n := by
  unfold ofBare? at h
  split_ifs at h with hnull htrue hfalse
  · cases h
    exact .inl ⟨hnull, rfl⟩
  · cases h
    exact .inr (.inl ⟨htrue, rfl⟩)
  · cases h
    exact .inr (.inr (.inl ⟨hfalse, rfl⟩))
  · obtain ⟨n, hn, rfl⟩ := Option.map_eq_some_iff.mp h
    exact .inr (.inr (.inr ⟨n, Numeral.written_of_ofChars? hn, rfl⟩))

theorem punctuation?_inj {c d : Char} {t : Token} (hc : punctuation? c = some t)
    (hd : punctuation? d = some t) : c = d := by
  unfold punctuation? at hc
  split at hc <;> cases hc <;> unfold punctuation? at hd <;> split at hd <;> first | rfl | cases hd

theorem mem_of_punctuation? {c : Char} {t : Token} (h : punctuation? c = some t) :
    t ∈ [openArray, closeArray, openObject, closeObject, comma, colon] := by
  unfold punctuation? at h
  split at h <;> cases h <;> decide

theorem Lexeme.eq_of_punctuation {word : List Char} {c : Char} {t : Token} (h : Lexeme word t)
    (ht : punctuation? c = some t) : word = [c] := by
  have hmem := mem_of_punctuation? ht
  cases h with
  | punctuation h => rw [punctuation?_inj h ht]
  | bare h => rcases bare_cases h with ⟨-, rfl⟩ | ⟨-, rfl⟩ | ⟨-, rfl⟩ | ⟨n, -, rfl⟩ <;> simp at hmem
  | string h => simp at hmem

theorem Lexemes.split {cs : List Char} {ts us : List Token} {c : Char} {t : Token}
    (h : Lexemes cs (ts ++ t :: us)) (ht : punctuation? c = some t) :
    ∃ left right, cs = left ++ c :: right ∧ Lexemes left ts ∧ Lexemes right us := by
  induction ts generalizing cs with
  | nil =>
    cases h with
    | cons hblank hword h =>
      rw [hword.eq_of_punctuation ht]
      exact ⟨_, _, by simp, .blank hblank, h⟩
  | cons t' ts ih =>
    cases h with
    | cons hblank hword h =>
      obtain ⟨left, right, rfl, hleft, hright⟩ := ih h
      exact ⟨_, right, by simp, .cons hblank hword hleft, hright⟩

theorem Lexemes.enclosed {cs : List Char} {ts : List Token} {c d : Char} {t u : Token}
    (h : Lexemes cs (t :: ts ++ [u])) (ht : punctuation? c = some t)
    (hu : punctuation? d = some u) :
    ∃ before inner after, cs = before ++ (c :: inner ++ [d]) ++ after ∧ Blank before ∧
      Lexemes inner ts ∧ Blank after := by
  obtain ⟨before, rest, rfl, hbefore, hrest⟩ := @Lexemes.split _ [] _ _ _ h ht
  obtain ⟨inner, after, rfl, hinner, hafter⟩ := hrest.split hu
  exact ⟨before, inner, after, by simp, hbefore.blank_of_nil, hinner, hafter.blank_of_nil⟩

theorem Lexemes.separated {α β : Type} (chars : β → List Char) (view : β → α) (Good : β → Prop)
    {split : α → List Token} {a : α} {parts : List α}
    (h : ∀ b ∈ a :: parts, ∀ cs, Lexemes cs (split b) → ∃ w, chars w = cs ∧ view w = b ∧ Good w)
    {cs : List Char} (hcs : Lexemes cs (split a ++ parts.flatMap fun b => .comma :: split b)) :
    ∃ ws : List β, [','].intercalate (ws.map chars) = cs ∧ ws.map view = a :: parts ∧
      ∀ w ∈ ws, Good w := by
  induction parts generalizing a cs with
  | nil =>
    obtain ⟨w, rfl, rfl, hw⟩ := h a List.mem_cons_self cs (by simpa using hcs)
    exact ⟨[w], by simp, rfl, by simpa using hw⟩
  | cons b parts ih =>
    obtain ⟨left, right, rfl, hleft, hright⟩ := hcs.split (c := ',') rfl
    obtain ⟨w, rfl, rfl, hw⟩ := h a List.mem_cons_self left hleft
    obtain ⟨ws, rfl, hview, hws⟩ := ih (fun b hb => h b (List.mem_cons_of_mem _ hb)) hright
    refine ⟨w :: ws, ?_, by rw [List.map_cons, hview], List.forall_mem_cons.mpr ⟨hw, hws⟩⟩
    obtain ⟨v, vs, rfl⟩ := List.exists_cons_of_ne_nil (l := ws) (by rintro rfl; cases hview)
    simp [List.intercalate_cons_cons]

end Token

namespace Json

open Token

inductive Atom : Token → Json → Prop
  | null : Atom .null null
  | bool (b : Bool) : Atom (.bool b) (bool b)
  | number (n : Numeral) : Atom (.number n) (number n)
  | text (s : String) : Atom (.string (some s)) (ofText s)

theorem written_of_lexeme {word : List Char} {t : Token} {j : Json} (h : Lexeme word t)
    (hj : Atom t j) : Written word j := by
  cases h with
  | punctuation h =>
    have hmem := mem_of_punctuation? h
    cases hj <;> simp at hmem
  | bare h =>
    rcases bare_cases h with ⟨rfl, rfl⟩ | ⟨rfl, rfl⟩ | ⟨rfl, rfl⟩ | ⟨n, hn, rfl⟩ <;> cases hj
    exacts [.null, .true, .false, .number hn]
  | @string cs ps h =>
    generalize hs : (join? ps).map String.ofList = s at hj
    cases hj with
    | text s =>
      obtain ⟨text, hjoin, rfl⟩ := Option.map_eq_some_iff.mp hs
      exact .string (quoted_iff.mpr ⟨ps, h, by rw [String.toList_ofList]; exact hjoin⟩)

theorem written_of_atom {cs : List Char} {t : Token} {j : Json} (h : Lexemes cs [t])
    (hj : Atom t j) : Written cs j := by
  obtain ⟨before, word, after, rfl, hbefore, hword, hafter⟩ := h.single
  exact .padded hbefore hafter (written_of_lexeme hword hj)

theorem exists_memberText {m : Option String × Json} (hname : m.1.isSome = true) {cs : List Char}
    (h : Lexemes cs (.string m.1 :: .colon :: m.2.tokens))
    (hcontent : ∀ {cs}, Lexemes cs m.2.tokens → Written cs m.2) :
    ∃ w : MemberText, w.chars = cs ∧ w.member = m ∧
      Written w.nameChars (ofText w.name) ∧ Written w.contentChars w.content := by
  obtain ⟨_ | name, content⟩ := m
  · cases hname
  · obtain ⟨left, right, rfl, hleft, hright⟩ :=
      @Lexemes.split _ [.string (some name)] _ ':' _ h rfl
    have hnamed := written_of_atom hleft (.text name)
    exact ⟨⟨left, name, right, content⟩, rfl, rfl, hnamed, hcontent hright⟩

theorem written_of_lexemes {j : Json} (hj : j.Textual) {cs : List Char}
    (h : Lexemes cs j.tokens) : Written cs j := by
  induction hj generalizing cs with
  | null => exact written_of_atom h .null
  | bool b => exact written_of_atom h (.bool b)
  | number n => exact written_of_atom h (.number n)
  | text s => exact written_of_atom h (.text s)
  | @array items hitems ih =>
    obtain ⟨before, inner, after, rfl, hbefore, hinner, hafter⟩ :=
      Lexemes.enclosed (c := '[') (d := ']') h rfl rfl
    refine .padded hbefore hafter ?_
    cases items with
    | nil => exact .noItems hinner.blank_of_nil
    | cons j rest =>
      rw [itemsTokens, itemsTokens_comma] at hinner
      obtain ⟨ws, rfl, hview, hws⟩ := Lexemes.separated Prod.fst Prod.snd
        (fun item => Written item.1 item.2) (fun k hk cs hcs => ⟨(cs, k), rfl, rfl, ih k hk hcs⟩)
        hinner
      rw [← hview]
      exact .array hws
  | @object members named hmembers ih =>
    obtain ⟨before, inner, after, rfl, hbefore, hinner, hafter⟩ :=
      Lexemes.enclosed (c := '{') (d := '}') ‹_› rfl rfl
    refine .padded hbefore hafter ?_
    cases members with
    | nil => exact .noMembers hinner.blank_of_nil
    | cons m rest =>
      rw [membersTokens, membersTokens_comma] at hinner
      obtain ⟨ws, rfl, hview, hws⟩ := Lexemes.separated MemberText.chars MemberText.member
        (fun w => Written w.nameChars (ofText w.name) ∧ Written w.contentChars w.content)
        (fun m hm cs hcs => exists_memberText (named m hm) hcs (ih m hm)) hinner
      rw [← hview]
      exact .object (fun w hw => (hws w hw).1) fun w hw => (hws w hw).2

theorem parse?_eq_some_iff {text : String} {j : Json} (hj : j.Textual) :
    parse? text = some j ↔ Written text.toList j := by
  constructor
  · intro h
    obtain ⟨ts, hread, hparse⟩ := Option.bind_eq_some_iff.mp h
    rw [ofTokens?_eq_some_iff] at hparse
    subst hparse
    exact written_of_lexemes hj (lexemes_of_ofChars? hread)
  · exact parse?_of_written

end Json

end ScopedFormulas
