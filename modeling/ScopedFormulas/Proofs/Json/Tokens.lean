import ScopedFormulas.Proofs.Json.Grammar

/-!
The tokens of a document, and that they are read off any text that writes it. A bare word is closed
by the character after it, so what a reader has read at the end of a value is said up to a word that
is still open.
-/

namespace ScopedFormulas

namespace Json

mutual

def tokens : Json → List Token
  | null => [.null]
  | bool b => [.bool b]
  | number n => [.number n]
  | string s => [.string s]
  | array items => .openArray :: itemsTokens [] items ++ [.closeArray]
  | object members => .openObject :: membersTokens [] members ++ [.closeObject]

def itemsTokens (before : List Token) : List Json → List Token
  | [] => []
  | j :: rest => before ++ tokens j ++ itemsTokens [.comma] rest

def membersTokens (before : List Token) : List (Option String × Json) → List Token
  | [] => []
  | (name, j) :: rest =>
    before ++ .string name :: .colon :: tokens j ++ membersTokens [.comma] rest

end

theorem itemsTokens_comma (items : List Json) :
    itemsTokens [.comma] items = items.flatMap fun j => .comma :: j.tokens := by
  induction items with
  | nil => rfl
  | cons j rest ih => simp [itemsTokens, ih]

theorem membersTokens_comma (members : List (Option String × Json)) :
    membersTokens [.comma] members =
      members.flatMap fun m => .comma :: .string m.1 :: .colon :: m.2.tokens := by
  induction members with
  | nil => rfl
  | cons m rest ih => simp [membersTokens, ih]

end Json

namespace Token

theorem isBare_of_isDigit {c : Char} (h : c.isDigit = true) : isBare c = true := by
  simp [isBare, Char.isAlphanum, h]

theorem all_isBare_of_digits {digits : List Char} (h : Numeral.Digits digits) :
    digits.all isBare = true :=
  List.all_eq_true.mpr fun c hc => isBare_of_isDigit (h.2 c hc)

theorem all_isBare_of_places {places fraction : List Char} (h : Numeral.Places places fraction) :
    places.all isBare = true := by
  cases h with
  | none => rfl
  | some h =>
    rw [List.all_cons, all_isBare_of_digits h]
    rfl

theorem all_isBare_of_power {power : List Char} {exponent : Option Int}
    (h : Numeral.Power power exponent) : power.all isBare = true := by
  cases h with
  | none => rfl
  | unsigned hmark h =>
    rw [List.all_cons, all_isBare_of_digits h]
    rcases hmark with rfl | rfl <;> rfl
  | plus hmark h | minus hmark h =>
    rw [List.all_cons, List.all_cons, all_isBare_of_digits h]
    rcases hmark with rfl | rfl <;> rfl

theorem all_isBare_of_written {cs : List Char} {n : Numeral} (h : n.Written cs) :
    cs.all isBare = true := by
  cases h with
  | mk negative hwhole hzero hplaces hpower =>
    have hsign : (Numeral.sign negative).all isBare = true := by cases negative <;> rfl
    simp only [List.all_append, hsign, all_isBare_of_digits hwhole, all_isBare_of_places hplaces,
      all_isBare_of_power hpower, Bool.and_self]

theorem ofBare?_of_written {cs : List Char} {n : Numeral} (h : n.Written cs) :
    ofBare? cs = some (number n) := by
  have hword : ∀ word : List Char, word.any (fun c => c == '-' || c.isDigit) = false →
      cs ≠ word := by
    rintro word hnone rfl
    obtain ⟨c, rest, rfl, hc⟩ := h.exists_cons
    rw [List.any_cons] at hnone
    rcases hc with rfl | hc <;> simp_all
  rw [ofBare?, if_neg (hword _ (by decide)), if_neg (hword _ (by decide)),
    if_neg (hword _ (by decide)), h.ofChars?, Option.map_some]

theorem isBlank_iff {c : Char} : isBlank c = true ↔ c ∈ [' ', '\t', '\n', '\r'] := by
  simp [isBlank, or_assoc]

theorem isBare_of_blank {c : Char} (h : c ∈ [' ', '\t', '\n', '\r']) : isBare c = false := by
  simp only [List.mem_cons, List.not_mem_nil, or_false] at h
  rcases h with rfl | rfl | rfl | rfl <;> rfl

namespace Reader

/-- The reader has read the tokens, newest first; the newest may be a word that is still open. -/
inductive Settled : Reader → List Token → Prop
  | between (read : List Token) : Settled ⟨read, .between⟩ read
  | bare {chars : List Char} {t : Token} (read : List Token)
      (word : ofBare? chars.reverse = some t) : Settled ⟨read, .bare chars⟩ (t :: read)

theorem Settled.step?_of_not_bare {r : Reader} {read : List Token} (h : r.Settled read) {c : Char}
    (hc : isBare c = false) : r.step? c = begin? read c := by
  cases h with
  | between => rfl
  | bare read word => simp [step?, hc, word]

theorem Settled.finish? {r : Reader} {read : List Token} (h : r.Settled read) :
    r.finish? = some read.reverse := by
  cases h with
  | between => rfl
  | bare read word => simp [Reader.finish?, word]

def Reads (chars : List Char) (tokens : List Token) : Prop :=
  ∀ read, ∃ r, chars.foldlM step? ⟨read, .between⟩ = some r ∧ r.Settled (tokens.reverse ++ read)

theorem Reads.nil : Reads [] [] := fun read => ⟨_, rfl, .between read⟩

theorem isBare_of_punctuation? {c : Char} {t : Token} (h : punctuation? c = some t) :
    isBare c = false := by
  unfold punctuation? at h
  split at h <;> first | rfl | cases h

theorem begin?_of_punctuation? {c : Char} {t : Token} (h : punctuation? c = some t)
    (read : List Token) : begin? read c = some ⟨t :: read, .between⟩ := by
  unfold punctuation? at h
  split at h <;> cases h <;> rfl

theorem Reads.punctuated {left right : List Char} {before after : List Token} {c : Char} {t : Token}
    (hleft : Reads left before) (hc : punctuation? c = some t) (hright : Reads right after) :
    Reads (left ++ c :: right) (before ++ t :: after) := by
  intro read
  obtain ⟨r, hr, hsettled⟩ := hleft read
  obtain ⟨r', hr', hsettled'⟩ := hright (t :: (before.reverse ++ read))
  refine ⟨r', ?_, by simpa using hsettled'⟩
  -- The punctuation also closes a word that the left part leaves open.
  rw [List.foldlM_append, hr]
  have hstep := hsettled.step?_of_not_bare (isBare_of_punctuation? hc)
  rw [begin?_of_punctuation? hc] at hstep
  simpa [hstep] using hr'

theorem foldlM_bare {rest : List Char} (hrest : ∀ c ∈ rest, isBare c = true) (read : List Token)
    (chars : List Char) :
    rest.foldlM step? ⟨read, .bare chars⟩ = some ⟨read, .bare (rest.reverse ++ chars)⟩ := by
  induction rest generalizing chars with
  | nil => rfl
  | cons c rest ih =>
    have hstep : step? ⟨read, .bare chars⟩ c = some ⟨read, .bare (c :: chars)⟩ := by
      simp [step?, hrest c List.mem_cons_self]
    have htail := ih (fun d hd => hrest d (List.mem_cons_of_mem _ hd)) (c :: chars)
    rw [List.foldlM_cons, hstep]
    simpa using htail

theorem begin?_of_bare {c : Char} (hc : isBare c = true) (read : List Token) :
    begin? read c = some ⟨read, .bare [c]⟩ := by
  have hblank : isBlank c = false := by
    rw [Bool.eq_false_iff]
    intro h
    have hbare := isBare_of_blank (isBlank_iff.mp h)
    rw [hc] at hbare
    cases hbare
  have hquote : c ≠ '\x22' := by
    rintro rfl
    exact absurd hc (by decide)
  simp [begin?, hblank, hquote, hc]

theorem Reads.bare {word : List Char} {t : Token} (hne : word ≠ [])
    (hall : word.all isBare = true) (hword : ofBare? word = some t) : Reads word [t] := by
  intro read
  obtain ⟨c, rest, rfl⟩ := List.exists_cons_of_ne_nil hne
  obtain ⟨hc, hrest⟩ := List.forall_mem_cons.mp (List.all_eq_true.mp hall)
  have hbegin := begin?_of_bare hc read
  have hrun := foldlM_bare hrest read [c]
  refine ⟨⟨read, .bare (rest.reverse ++ [c])⟩, ?_, .bare read (by simpa using hword)⟩
  rw [List.foldlM_cons]
  change (begin? read c).bind _ = _
  rw [hbegin]
  exact hrun

theorem begin?_of_blank {c : Char} (h : c ∈ [' ', '\t', '\n', '\r']) (read : List Token) :
    begin? read c = some ⟨read, .between⟩ := by
  rw [begin?, if_pos (isBlank_iff.mpr h)]

theorem foldlM_blank {blank : List Char} (h : Json.Blank blank) (read : List Token) :
    blank.foldlM step? ⟨read, .between⟩ = some ⟨read, .between⟩ := by
  induction blank with
  | nil => rfl
  | cons c rest ih =>
    have hc := begin?_of_blank (h c List.mem_cons_self) read
    rw [List.foldlM_cons]
    change (begin? read c).bind _ = _
    rw [hc]
    exact ih fun d hd => h d (List.mem_cons_of_mem _ hd)

theorem Settled.foldlM_blank {r : Reader} {read : List Token} (h : r.Settled read)
    {blank : List Char} (hblank : Json.Blank blank) :
    ∃ r', blank.foldlM step? r = some r' ∧ r'.Settled read := by
  cases blank with
  | nil => exact ⟨r, rfl, h⟩
  | cons c rest =>
    have hc := hblank c List.mem_cons_self
    have hrest := Reader.foldlM_blank (fun d hd => hblank d (List.mem_cons_of_mem _ hd)) read
    refine ⟨⟨read, .between⟩, ?_, .between read⟩
    rw [List.foldlM_cons, h.step?_of_not_bare (isBare_of_blank hc), begin?_of_blank hc]
    exact hrest

theorem Reads.padded {before cs after : List Char} {tokens : List Token} (h : Reads cs tokens)
    (hbefore : Json.Blank before) (hafter : Json.Blank after) :
    Reads (before ++ cs ++ after) tokens := by
  intro read
  obtain ⟨r, hr, hsettled⟩ := h read
  obtain ⟨r', hr', hsettled'⟩ := hsettled.foldlM_blank hafter
  refine ⟨r', ?_, hsettled'⟩
  rw [List.append_assoc, List.foldlM_append, foldlM_blank hbefore, Option.bind_eq_bind,
    Option.bind_some, List.foldlM_append, hr]
  exact hr'

theorem Reads.blank {blank : List Char} (h : Json.Blank blank) : Reads blank [] := by
  simpa using Reads.nil.padded h Json.blank_nil

theorem foldlM_hexDigits {digits : List Char} {n : Nat} (h : Json.HexDigits digits n)
    (hlt : digits.length < 4) (read : List Token) (pieces : List Piece) :
    digits.foldlM step? ⟨read, .code pieces 0 0⟩ =
      some ⟨read, .code pieces n digits.length⟩ := by
  induction h with
  | nil => rfl
  | @snoc digits c n value h hc ih =>
    rw [List.length_append, List.length_singleton] at hlt
    have hprefix := ih (by omega)
    have hcount : digits.length ≠ 3 := by omega
    simp [List.foldlM_append, hprefix, step?, hexValue?_eq_some_iff.mpr hc, hcount]

theorem foldlM_code {digits : List Char} {n : Nat} (h : Json.Code digits n) (read : List Token)
    (pieces : List Piece) :
    digits.foldlM step? ⟨read, .code pieces 0 0⟩ = some ⟨read, .text (.ofCode n :: pieces)⟩ := by
  obtain ⟨hlength, hdigits⟩ := h
  cases hdigits with
  | nil => cases hlength
  | @snoc digits c n value h hc =>
    rw [List.length_append, List.length_singleton] at hlength
    have hprefix := foldlM_hexDigits h (by omega) read pieces
    have hcount : digits.length = 3 := by omega
    simp [List.foldlM_append, hprefix, step?, hexValue?_eq_some_iff.mpr hc, hcount]

theorem foldlM_spelled {word : List Char} {p : Piece} (h : p.Spelled word) (read : List Token)
    (pieces : List Piece) :
    word.foldlM step? ⟨read, .text pieces⟩ = some ⟨read, .text (p :: pieces)⟩ := by
  cases h with
  | plain hquote hbackslash hcontrol =>
    simp [step?, hquote, hbackslash, Char.not_lt.mpr hcontrol]
  | short he =>
    have hletter := escaped?_eq_some_iff.mpr he
    have hu := he.ne_code
    simp [step?, hu, hletter]
  | code h => exact foldlM_code h read pieces

theorem foldlM_pieces {cs : List Char} {ps : List Piece} (h : Pieces cs ps) (read : List Token)
    (pieces : List Piece) :
    cs.foldlM step? ⟨read, .text pieces⟩ = some ⟨read, .text (ps.reverse ++ pieces)⟩ := by
  induction h generalizing pieces with
  | nil => rfl
  | cons hword h ih =>
    rw [List.foldlM_append, foldlM_spelled hword]
    simpa using ih (_ :: pieces)

theorem Reads.quoted {cs : List Char} {s : String} (h : Json.Quoted cs s.toList) :
    Reads ('\x22' :: cs ++ ['\x22']) [.string (some s)] := by
  intro read
  obtain ⟨ps, hps, hjoin⟩ := quoted_iff.mp h
  refine ⟨⟨.string (some s) :: read, .between⟩, ?_, .between _⟩
  have hclose : step? ⟨read, .text (ps.reverse ++ [])⟩ '\x22' =
      some ⟨.string (some s) :: read, .between⟩ := by
    simp [step?, hjoin]
  change ((cs ++ ['\x22']).foldlM step? ⟨read, .text []⟩) = _
  rw [List.foldlM_append, foldlM_pieces hps, Option.bind_eq_bind, Option.bind_some,
    List.foldlM_cons, hclose]
  rfl

theorem Reads.prefixed {chars : List Char} {tokens : List Token} {c : Char} {t : Token}
    (hc : punctuation? c = some t) (h : Reads chars tokens) : Reads (c :: chars) (t :: tokens) :=
  Reads.nil.punctuated hc h

theorem Reads.suffixed {chars : List Char} {tokens : List Token} {c : Char} {t : Token}
    (h : Reads chars tokens) (hc : punctuation? c = some t) :
    Reads (chars ++ [c]) (tokens ++ [t]) :=
  h.punctuated hc .nil

theorem Reads.separated {α : Type} {parts : List α} {print : α → List Char}
    {split : α → List Token} (h : ∀ a ∈ parts, Reads (print a) (split a)) {chars : List Char}
    {tokens : List Token} (hfirst : Reads chars tokens) :
    Reads (chars ++ parts.flatMap fun a => ',' :: print a)
      (tokens ++ parts.flatMap fun a => .comma :: split a) := by
  induction parts generalizing chars tokens with
  | nil => simpa using hfirst
  | cons a parts ih =>
    have hnext := hfirst.punctuated (c := ',') rfl (h a List.mem_cons_self)
    have hrest := ih (fun b hb => h b (List.mem_cons_of_mem _ hb)) hnext
    simpa using hrest

theorem Reads.items {items : List (List Char × Json)}
    (h : ∀ item ∈ items, Reads item.1 item.2.tokens) :
    Reads ([','].intercalate (items.map Prod.fst)) (Json.itemsTokens [] (items.map Prod.snd)) := by
  cases items with
  | nil => exact .nil
  | cons item rest =>
    obtain ⟨hfirst, hrest⟩ := List.forall_mem_cons.mp h
    rw [List.map_cons, List.map_cons, Json.intercalate_comma, Json.itemsTokens,
      Json.itemsTokens_comma, List.flatMap_map, List.flatMap_map]
    exact .separated hrest hfirst

theorem Reads.members {members : List Json.MemberText}
    (hnames : ∀ m ∈ members, Reads m.nameChars [.string (some m.name)])
    (h : ∀ m ∈ members, Reads m.contentChars m.content.tokens) :
    Reads ([','].intercalate (members.map Json.MemberText.chars))
      (Json.membersTokens [] (members.map Json.MemberText.member)) := by
  have hmember : ∀ m ∈ members,
      Reads m.chars (.string (some m.name) :: .colon :: m.content.tokens) :=
    fun m hm => (hnames m hm).punctuated rfl (h m hm)
  cases members with
  | nil => exact .nil
  | cons m rest =>
    obtain ⟨hfirst, hrest⟩ := List.forall_mem_cons.mp hmember
    rw [List.map_cons, List.map_cons, Json.intercalate_comma, Json.membersTokens,
      Json.membersTokens_comma, List.flatMap_map, List.flatMap_map]
    exact .separated hrest hfirst

theorem reads_of_written {cs : List Char} {j : Json} (h : Json.Written cs j) :
    Reads cs j.tokens := by
  induction h with
  | null => exact .bare (by decide) rfl rfl
  | true => exact .bare (by decide) rfl rfl
  | false => exact .bare (by decide) rfl rfl
  | number h =>
    obtain ⟨c, rest, rfl, -⟩ := h.exists_cons
    exact .bare (List.cons_ne_nil c rest) (all_isBare_of_written h) (ofBare?_of_written h)
  | string h => exact .quoted h
  | noItems h => exact ((Reads.blank h).prefixed rfl).suffixed rfl
  | array h ih => exact ((Reads.items ih).prefixed rfl).suffixed rfl
  | noMembers h => exact ((Reads.blank h).prefixed rfl).suffixed rfl
  | object hnames h ihnames ih => exact ((Reads.members ihnames ih).prefixed rfl).suffixed rfl
  | padded hbefore hafter h ih => exact ih.padded hbefore hafter

end Reader

theorem ofChars?_of_written {cs : List Char} {j : Json} (h : Json.Written cs j) :
    ofChars? cs = some j.tokens := by
  obtain ⟨r, hread, hsettled⟩ := Reader.reads_of_written h []
  have hstart : cs.foldlM Reader.step? Reader.start = some r := hread
  rw [ofChars?, hstart, Option.bind_some, hsettled.finish?]
  simp

end Token

end ScopedFormulas
