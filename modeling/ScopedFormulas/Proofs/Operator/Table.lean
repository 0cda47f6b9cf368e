import ScopedFormulas.Proofs.Operator.Typing

/-!
The operator table. A row names the sign of its operator, what the operator expects of both operands,
the types of two operands that it accepts, and the type of the result. Evaluation goes by the table:
operands of no row are turned down with the sign and what is expected, and operands of a row give a
value of its type, or a trap where the row computes with a number.
-/

namespace ScopedFormulas

namespace ValueType

inductive Contains : ValueType → ValueType → Prop where
  | self (t : ValueType) : Contains t t
  | items {elem part : ValueType} (h : Contains elem part) : Contains (.array elem) part

theorem contains_array_iff {elem part : ValueType} :
    (array elem).Contains part ↔ part = .array elem ∨ elem.Contains part := by
  constructor
  · intro h
    cases h with
    | self => exact .inl rfl
    | items h => exact .inr h
  · rintro (rfl | h)
    · exact .self _
    · exact .items h

theorem supportsEq_iff (t : ValueType) :
    t.supportsEq = true ↔ ¬ t.Contains .function ∧ ¬ t.Contains .group := by
  induction t with
  | array elem ih =>
    have hfunction : ¬ function = .array elem := by rintro ⟨⟩
    have hgroup : ¬ group = .array elem := by rintro ⟨⟩
    simp only [supportsEq, ih, contains_array_iff, hfunction, hgroup, false_or]
  | function => exact ⟨fun h => absurd h Bool.false_ne_true, fun h => absurd (.self _) h.1⟩
  | group => exact ⟨fun h => absurd h Bool.false_ne_true, fun h => absurd (.self _) h.2⟩
  | _ => exact ⟨fun _ => ⟨by rintro ⟨⟩, by rintro ⟨⟩⟩, fun _ => rfl⟩

def ordered : List ValueType := [.number, .text, .latitude, .longitude, .timestamp]

theorem supportsOrd_iff (t : ValueType) : t.supportsOrd = true ↔ t ∈ ordered := by
  cases t <;> simp [supportsOrd, ordered]

end ValueType

inductive ArithmeticOp.Sign : ArithmeticOp → String → Prop where
  | add : Sign .add "+"
  | sub : Sign .sub "-"
  | mul : Sign .mul "*"
  | div : Sign .div "/"
  | mod : Sign .mod "%"
  | pow : Sign .pow "^"

inductive OrderOp.Sign : OrderOp → String → Prop where
  | lt : Sign .lt "<"
  | le : Sign .le "<="
  | gt : Sign .gt ">"
  | ge : Sign .ge ">="

theorem ArithmeticOp.sign_iff {op : ArithmeticOp} {s : String} : op.Sign s ↔ s = op.symbol := by
  constructor
  · intro h
    cases h <;> rfl
  · rintro rfl
    cases op <;> constructor

theorem OrderOp.sign_iff {op : OrderOp} {s : String} : op.Sign s ↔ s = op.symbol := by
  constructor
  · intro h
    cases h <;> rfl
  · rintro rfl
    cases op <;> constructor

namespace BinaryOp

inductive Row : BinaryOp → String → Expected → ValueType → ValueType → ValueType → Prop where
  | numbers {op : ArithmeticOp} {s : String} (sign : op.Sign s) :
    Row (.arithmetic op) s (.type .number) .number .number .number
  | textLeft (r : ValueType) : Row (.arithmetic .add) "+" (.type .number) .text r .text
  | textRight (l : ValueType) : Row (.arithmetic .add) "+" (.type .number) l .text .text
  | textByNumber : Row (.arithmetic .mul) "*" (.type .number) .text .number .text
  | numberByText : Row (.arithmetic .mul) "*" (.type .number) .number .text .text
  | and : Row .and "&&" (.type .bool) .bool .bool .bool
  | or : Row .or "||" (.type .bool) .bool .bool .bool
  | eq {t : ValueType} (function : ¬ t.Contains .function) (group : ¬ t.Contains .group) :
    Row .eq "==" .eq t t .bool
  | ne {t : ValueType} (function : ¬ t.Contains .function) (group : ¬ t.Contains .group) :
    Row .ne "!=" .eq t t .bool
  | order {op : OrderOp} {s : String} {t : ValueType} (sign : op.Sign s)
    (h : t ∈ ValueType.ordered) : Row (.order op) s .ord t t .bool

inductive Computes : BinaryOp → ValueType → ValueType → Prop where
  | numbers (op : ArithmeticOp) : Computes (.arithmetic op) .number .number
  | textByNumber : Computes (.arithmetic .mul) .text .number
  | numberByText : Computes (.arithmetic .mul) .number .text

variable {op : BinaryOp} {s : String} {e : Expected} {l r t : ValueType}

theorem Computes.exists_arithmetic (h : Computes op l r) : ∃ a, op = .arithmetic a := by
  cases h <;> exact ⟨_, rfl⟩

theorem Row.symbol_eq (h : Row op s e l r t) : s = op.symbol := by
  cases h with
  | numbers sign => exact ArithmeticOp.sign_iff.mp sign
  | order sign => exact OrderOp.sign_iff.mp sign
  | _ => rfl

theorem Row.expected_eq (h : Row op s e l r t) : e = op.expected := by
  cases h <;> rfl

theorem Row.type?_eq (h : Row op s e l r t) : op.type? l r = some t := by
  cases h with
  | numbers sign => cases sign <;> rfl
  | textRight => cases l <;> rfl
  | eq function group | ne function group =>
    have heq := (ValueType.supportsEq_iff l).mpr ⟨function, group⟩
    exact if_pos ⟨rfl, heq⟩
  | order _ h => exact if_pos ⟨rfl, (ValueType.supportsOrd_iff l).mpr h⟩
  | _ => rfl

theorem row_of_arithmetic {op : ArithmeticOp} (h : op.type? l r = some t) :
    Row (.arithmetic op) op.symbol (.type .number) l r t := by
  simp only [ArithmeticOp.type?] at h
  split at h
  all_goals cases h
  · exact .textLeft r
  · exact .textRight l
  · exact .textByNumber
  · exact .numberByText
  · exact .numbers (ArithmeticOp.sign_iff.mpr rfl)

theorem row_of_type? (h : op.type? l r = some t) : Row op op.symbol op.expected l r t := by
  cases op with
  | arithmetic op => exact row_of_arithmetic h
  | and | or =>
    obtain ⟨⟨rfl, rfl⟩, ht⟩ := Option.ite_none_right_eq_some.mp h
    cases ht
    constructor
  | eq | ne =>
    obtain ⟨⟨rfl, heq⟩, ht⟩ := Option.ite_none_right_eq_some.mp h
    cases ht
    obtain ⟨hfunction, hgroup⟩ := (ValueType.supportsEq_iff l).mp heq
    constructor
    · exact hfunction
    · exact hgroup
  | order op =>
    obtain ⟨⟨rfl, hord⟩, ht⟩ := Option.ite_none_right_eq_some.mp h
    cases ht
    exact .order (OrderOp.sign_iff.mpr rfl) ((ValueType.supportsOrd_iff l).mp hord)

theorem not_row_iff : (∀ s e t, ¬ Row op s e l r t) ↔ op.type? l r = none := by
  constructor
  · intro h
    cases ht : op.type? l r with
    | none => rfl
    | some t => exact absurd (row_of_type? ht) (h _ _ t)
  · intro hnone s e t h
    have htype := h.type?_eq
    rw [hnone] at htype
    cases htype

theorem exists_row (op : BinaryOp) : ∃ l r t, Row op op.symbol op.expected l r t := by
  cases op with
  | arithmetic op => exact ⟨_, _, _, .numbers (ArithmeticOp.sign_iff.mpr rfl)⟩
  | and => exact ⟨_, _, _, .and⟩
  | or => exact ⟨_, _, _, .or⟩
  | eq => exact ⟨.bool, .bool, .bool, .eq nofun nofun⟩
  | ne => exact ⟨.bool, .bool, .bool, .ne nofun nofun⟩
  | order op =>
    exact ⟨.number, .number, .bool, .order (OrderOp.sign_iff.mpr rfl) List.mem_cons_self⟩

theorem computes_of_arithmetic? {op : ArithmeticOp} {l r : Value} {cause : Trap}
    (h : arithmetic? op l r = some (.error cause)) :
    Computes (.arithmetic op) l.type r.type := by
  simp only [arithmetic?] at h
  split at h
  · cases h
  · cases h
  · exact .textByNumber
  · exact .numberByText
  · exact .numbers op
  · cases h

theorem computes_of_trap {op : BinaryOp} {l r : Value} {cause : Trap}
    (h : op.result? l r = some (.error cause)) : op.Computes l.type r.type := by
  cases op with
  | arithmetic op => exact computes_of_arithmetic? h
  | and | or =>
    simp only [result?] at h
    split at h <;> cases h
  | eq | ne =>
    obtain ⟨b, -, hb⟩ := Option.map_eq_some_iff.mp h
    cases hb
  | order op =>
    obtain ⟨-, hb⟩ := Option.ite_none_right_eq_some.mp h
    cases hb

theorem eval_eq_trap {op : BinaryOp} {l r : Value} {cause : Trap}
    (h : op.eval l r = .error (.trap cause)) : op.Computes l.type r.type := by
  rw [eval] at h
  split at h
  next => cases h
  next cause' hresult => exact computes_of_trap hresult
  next => cases h

theorem eval_eq_argumentType {op : BinaryOp} {l r : Value} {symbol : String}
    {expected : List Expected} {actual : List ValueType}
    (h : op.eval l r = .error (.argumentType symbol expected actual)) :
    symbol = op.symbol ∧ expected = [op.expected, op.expected] ∧ actual = [l.type, r.type] ∧
      op.type? l.type r.type = none := by
  have houtcome := op.eval_outcome l r
  rw [h] at houtcome
  cases houtcome with
  | declined hnone => exact ⟨rfl, rfl, rfl, hnone⟩

theorem eval_of_not_row {op : BinaryOp} {l r : Value} (h : ∀ s e t, ¬ op.Row s e l.type r.type t) :
    op.eval l r = .error (.argumentType op.symbol [op.expected, op.expected] [l.type, r.type]) := by
  have hnone := not_row_iff.mp h
  have houtcome := op.eval_outcome l r
  generalize op.eval l r = outcome at houtcome ⊢
  cases houtcome with
  | declined => rfl
  | value accepted | trap accepted => cases hnone.symm.trans accepted

theorem eval_of_row {op : BinaryOp} {l r : Value} (h : op.Row s e l.type r.type t) :
    (∃ v, op.eval l r = .ok v ∧ v.type = t) ∨ ∃ cause, op.eval l r = .error (.trap cause) := by
  have hsome := h.type?_eq
  have houtcome := op.eval_outcome l r
  generalize op.eval l r = outcome at houtcome ⊢
  cases houtcome with
  | @value t' v accepted type =>
    cases hsome.symm.trans accepted
    exact .inl ⟨v, rfl, type⟩
  | @trap _ cause => exact .inr ⟨cause, rfl⟩
  | declined hnone => cases hsome.symm.trans hnone

end BinaryOp

theorem UnaryOp.not_eval_of_type {v : Value} (h : v.type ≠ .bool) :
    UnaryOp.not.eval v = .error (.argumentType "!" [.type .bool] [v.type]) := by
  cases v with
  | bool b => exact absurd rfl h
  | _ => rfl

theorem eval_follows_table :
    (∀ (op : BinaryOp) (l r : Value),
      ((∃ symbol expected actual, op.eval l r = .error (.argumentType symbol expected actual)) ↔
        ∀ s e t, ¬ op.Row s e l.type r.type t) ∧
      (∀ symbol expected actual, op.eval l r = .error (.argumentType symbol expected actual) →
        actual = [l.type, r.type] ∧
          ∃ e, expected = [e, e] ∧ (∃ l' r' t, op.Row symbol e l' r' t) ∧
            ∀ s' e' l' r' t, op.Row s' e' l' r' t → s' = symbol ∧ e' = e) ∧
      (∀ s e t, op.Row s e l.type r.type t →
        (∃ v, op.eval l r = .ok v ∧ v.type = t) ∨ ∃ cause, op.eval l r = .error (.trap cause)) ∧
      ∀ cause, op.eval l r = .error (.trap cause) → op.Computes l.type r.type) ∧
    (∀ b, UnaryOp.not.eval (.bool b) = .ok (.bool !b)) ∧
    ∀ v : Value, v.type ≠ .bool →
      UnaryOp.not.eval v = .error (.argumentType "!" [.type .bool] [v.type]) := by
  refine ⟨fun op l r => ⟨⟨?_, ?_⟩, ?_, ?_, ?_⟩, fun b => rfl, fun v => UnaryOp.not_eval_of_type⟩
  · rintro ⟨symbol, expected, actual, herror⟩
    obtain ⟨-, -, -, hnone⟩ := BinaryOp.eval_eq_argumentType herror
    exact BinaryOp.not_row_iff.mpr hnone
  · intro hrow
    exact ⟨_, _, _, BinaryOp.eval_of_not_row hrow⟩
  · intro symbol expected actual herror
    obtain ⟨rfl, hexpected, hactual, -⟩ := BinaryOp.eval_eq_argumentType herror
    have honly (s' : String) (e' : Expected) (l' r' t : ValueType) (hrow : op.Row s' e' l' r' t) :
        s' = op.symbol ∧ e' = op.expected := ⟨hrow.symbol_eq, hrow.expected_eq⟩
    exact ⟨hactual, op.expected, hexpected, op.exists_row, honly⟩
  · intro s e t hrow
    exact BinaryOp.eval_of_row hrow
  · intro cause htrap
    exact BinaryOp.eval_eq_trap htrap

-- Neither arrays of arrays of functions nor empty ones are compared, and a text goes with anything.
theorem eval_follows_table_nested :
    let functions := Value.array (.array .function) []
    (∀ s e t, ¬ BinaryOp.eq.Row s e functions.type functions.type t) ∧
      (∃ symbol expected actual,
        BinaryOp.eq.eval functions functions = .error (.argumentType symbol expected actual)) ∧
      (BinaryOp.arithmetic .add).Row "+" (.type .number) .group .text .text ∧
      ((∃ v, (BinaryOp.arithmetic .add).eval (.group ∅) (.text "a") = .ok v ∧ v.type = .text) ∨
        ∃ cause, (BinaryOp.arithmetic .add).eval (.group ∅) (.text "a") = .error (.trap cause)) := by
  intro functions
  have hrow : ∀ s e t, ¬ BinaryOp.eq.Row s e functions.type functions.type t := by
    intro s e t h
    cases h with
    | eq function group => exact function (.items (.items (.self _)))
  obtain ⟨hbinary, -⟩ := eval_follows_table
  obtain ⟨hdeclined, -⟩ := hbinary .eq functions functions
  obtain ⟨-, -, haccepted, -⟩ := hbinary (.arithmetic .add) (.group ∅) (.text "a")
  exact ⟨hrow, hdeclined.mpr hrow, .textRight _, haccepted _ _ _ (.textRight _)⟩

end ScopedFormulas
