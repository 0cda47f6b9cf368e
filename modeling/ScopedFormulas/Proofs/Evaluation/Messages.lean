import Mathlib.Data.List.Infix
import ScopedFormulas.Error

namespace ScopedFormulas

def Shows (text part : String) : Prop := part.toList <:+: text.toList

namespace Shows

variable {text part : String}

theorem self (text : String) : Shows text text := List.infix_rfl

theorem before (h : Shows text part) (rest : String) : Shows (text ++ rest) part := by
  rw [Shows, String.toList_append]
  exact h.trans (List.prefix_append _ _).isInfix

theorem after (h : Shows text part) (front : String) : Shows (front ++ text) part := by
  rw [Shows, String.toList_append]
  exact h.trans (List.suffix_append _ _).isInfix

theorem intercalate {sep : String} {parts : List String} (h : part ∈ parts) :
    Shows (sep.intercalate parts) part := by
  induction parts with
  | nil => cases h
  | cons first rest ih =>
    cases rest with
    | nil =>
      rw [String.intercalate_singleton, List.mem_singleton.mp h]
      exact self first
    | cons next rest =>
      rw [String.intercalate_cons_cons]
      rcases List.mem_cons.mp h with rfl | h
      · exact ((self part).before sep).before _
      · exact (ih h).after _

end Shows

/-- What a trap is about. The words of a function are all there is to its own traps. -/
def Trap.details : Trap → List String
  | byZero op | notFinite op => [op.name]
  | badCount count | tooLong count => [Number.text count]
  | custom message => [message]

def AssignError.details : AssignError → List String
  | readOnly | emptyTarget => []
  | notNamespace segment actual => [segment, actual.name]

namespace EvalError

def details : EvalError → List String
  | argumentType operator expected actual =>
    operator :: (expected.map (·.name) ++ actual.map (·.name))
  | unresolved name => [name.name, name.span.text]
  | notCallable callee actual => [callee.text, actual.name]
  | trap cause => cause.details
  | assignment target cause => ":".intercalate target :: cause.details
  | arity function expected actual => [function, toString expected, toString actual]

def opening : EvalError → String
  | argumentType .. => "argument type error: '"
  | unresolved _ => "name resolution error: '"
  | notCallable .. => "not callable: '"
  | trap _ => "arithmetic trap: "
  | assignment .. => "cannot assign to '"
  | arity .. => "'"

end EvalError

theorem Trap.message_shows (cause : Trap) : ∀ part ∈ cause.details, Shows cause.message part := by
  intro part hpart
  cases cause with
  | byZero op | notFinite op =>
    obtain rfl := List.mem_singleton.mp hpart
    exact .before (.self _) _
  | badCount count | tooLong count =>
    obtain rfl := List.mem_singleton.mp hpart
    unfold message
    simp only [String.append_assoc]
    exact .after (.before (.self _) _) _
  | custom message =>
    obtain rfl := List.mem_singleton.mp hpart
    exact .self _

theorem AssignError.message_shows (cause : AssignError) :
    ∀ part ∈ cause.details, Shows cause.message part := by
  intro part hpart
  cases cause with
  | readOnly | emptyTarget => cases hpart
  | notNamespace segment actual =>
    unfold message
    simp only [String.append_assoc]
    rcases List.mem_pair.mp hpart with rfl | rfl
    · exact .after (.before (.self _) _) _
    · exact .after (.after (.after (.before (.self _) _) _) _) _

namespace EvalError

theorem message_shows (cause : EvalError) : ∀ part ∈ cause.details, Shows cause.message part := by
  intro part hpart
  cases cause with
  | argumentType operator expected actual =>
    unfold message
    simp only [String.append_assoc]
    rcases List.mem_cons.mp hpart with rfl | hpart
    · exact .after (.before (.self _) _) _
    rcases List.mem_append.mp hpart with hpart | hpart
    · exact .after (.after (.after (.before (.intercalate hpart) _) _) _) _
    · exact .after (.after (.after (.after (.after (.before (.intercalate hpart) _) _) _) _) _) _
  | unresolved name =>
    unfold message
    simp only [String.append_assoc]
    rcases List.mem_pair.mp hpart with rfl | rfl
    · exact .after (.before (.self _) _) _
    · exact .after (.after (.after (.before (.self _) _) _) _) _
  | notCallable callee actual =>
    unfold message
    simp only [String.append_assoc]
    rcases List.mem_pair.mp hpart with rfl | rfl
    · exact .after (.before (.self _) _) _
    · exact .after (.after (.after (.self _) _) _) _
  | trap cause => exact .after (cause.message_shows part hpart) _
  | assignment target cause =>
    unfold message
    simp only [String.append_assoc]
    rcases List.mem_cons.mp hpart with rfl | hpart
    · exact .after (.before (.self _) _) _
    · exact .after (.after (.after (cause.message_shows part hpart) _) _) _
  | arity function expected actual =>
    unfold message
    simp only [String.append_assoc]
    rcases List.mem_cons.mp hpart with rfl | hpart
    · exact .after (.before (.self _) _) _
    rcases List.mem_pair.mp hpart with rfl | rfl
    · exact .after (.after (.after (.before (.self _) _) _) _) _
    · exact .after (.after (.after (.after (.after (.self _) _) _) _) _) _

def openings : List String :=
  ["argument type error: '", "name resolution error: '", "not callable: '", "arithmetic trap: ",
    "cannot assign to '", "'"]

theorem openings_prefix_free : ∀ a ∈ openings, ∀ b ∈ openings, a.toList <+: b.toList → a = b := by
  decide

theorem opening_mem (cause : EvalError) : cause.opening ∈ openings := by
  cases cause <;> simp [opening, openings]

theorem opening_prefix (cause : EvalError) : cause.opening.toList <+: cause.message.toList := by
  have happend : ∃ rest, cause.message = cause.opening ++ rest := by
    unfold message opening
    cases cause <;> simp only [String.append_assoc] <;> exact ⟨_, rfl⟩
  obtain ⟨rest, h⟩ := happend
  rw [h, String.toList_append]
  exact List.prefix_append _ _

/-- Messages of different kinds of errors are different. -/
theorem opening_eq_of_message_eq {cause other : EvalError} (h : cause.message = other.message) :
    cause.opening = other.opening := by
  have hother := other.opening_prefix
  rw [← h] at hother
  rcases List.prefix_or_prefix_of_prefix cause.opening_prefix hother with hle | hle
  · exact openings_prefix_free _ cause.opening_mem _ other.opening_mem hle
  · exact (openings_prefix_free _ other.opening_mem _ cause.opening_mem hle).symm

theorem exists_trap_of_message_eq {trapped : Trap} {other : EvalError}
    (h : other.message = (trap trapped).message) : ∃ cause, other = .trap cause := by
  have hopening := opening_eq_of_message_eq h
  cases other with
  | trap cause => exact ⟨cause, rfl⟩
  | _ => simp [opening] at hopening

end EvalError

end ScopedFormulas
