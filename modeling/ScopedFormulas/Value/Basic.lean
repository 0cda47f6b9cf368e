import ScopedFormulas.Table
import ScopedFormulas.ValueType

namespace ScopedFormulas

structure NativeId where
  index : Nat
  deriving DecidableEq, Repr

/-- A function over values `ν`. A method is bound to the value it is reached through; a bound
receiver is passed in front of the arguments. -/
structure Callable (ν : Type) where
  name : String
  body : NativeId
  isMethod : Bool
  receiver : Option ν

inductive Value where
  | number (x : Float)
  | text (s : String)
  | bool (b : Bool)
  | array (elem : ValueType) (items : List Value)
  | function (f : Callable Value)
  /-- Degrees north. -/
  | latitude (x : Float)
  /-- Degrees east. -/
  | longitude (x : Float)
  /-- Seconds since the epoch. -/
  | timestamp (seconds : Int)
  | group (members : Table Value)

abbrev Function := Callable Value

abbrev Namespace := Table Value

namespace Callable

variable {ν : Type}

def plain (name : String) (body : NativeId) : Callable ν := ⟨name, body, false, none⟩

def method (name : String) (body : NativeId) : Callable ν := ⟨name, body, true, none⟩

def bind (f : Callable ν) (receiver : ν) : Callable ν := { f with receiver := some receiver }

def arguments (f : Callable ν) (args : List ν) : List ν := f.receiver.toList ++ args

theorem forall_mem_arguments {f : Callable ν} {args : List ν} {p : ν → Prop}
    (hf : ∀ v ∈ f.receiver, p v) (hargs : ∀ v ∈ args, p v) : ∀ v ∈ f.arguments args, p v := by
  rw [arguments, List.forall_mem_append]
  exact ⟨fun v hv => hf v (Option.mem_toList.mp hv), hargs⟩

end Callable

namespace Value

@[elab_as_elim, induction_eliminator]
theorem induct {motive : Value → Prop}
    (number : ∀ x, motive (.number x))
    (text : ∀ s, motive (.text s))
    (bool : ∀ b, motive (.bool b))
    (array : ∀ elem items, (∀ v ∈ items, motive v) → motive (.array elem items))
    (function : ∀ f, (∀ v ∈ f.receiver, motive v) → motive (.function f))
    (latitude : ∀ x, motive (.latitude x))
    (longitude : ∀ x, motive (.longitude x))
    (timestamp : ∀ seconds, motive (.timestamp seconds))
    (group : ∀ members, (∀ e ∈ members.entries, motive e.2) → motive (.group members))
    (v : Value) : motive v :=
  Value.rec (motive_1 := motive) (motive_2 := fun items => ∀ v ∈ items, motive v)
    (motive_3 := fun f => ∀ v ∈ f.receiver, motive v)
    (motive_4 := fun members => ∀ e ∈ members.entries, motive e.2)
    (motive_5 := fun receiver => ∀ v ∈ receiver, motive v)
    (motive_6 := fun entries => ∀ e ∈ entries, motive e.2)
    (motive_7 := fun e => motive e.2)
    number text bool array function latitude longitude timestamp group
    (fun _ h => nomatch h)
    (fun _ _ hd tl v h => by
      cases h with
      | head => exact hd
      | tail _ h => exact tl v h)
    (fun _ _ _ _ h => h)
    (fun _ h => h)
    (fun _ h => nomatch h)
    (fun _ h _ e => Option.some.inj e ▸ h)
    (fun _ h => nomatch h)
    (fun _ _ hd tl e h => by
      cases h with
      | head => exact hd
      | tail _ h => exact tl e h)
    (fun _ _ h => h)
    v

def type : Value → ValueType
  | number _ => .number
  | text _ => .text
  | bool _ => .bool
  | array elem _ => .array elem
  | function _ => .function
  | latitude _ => .latitude
  | longitude _ => .longitude
  | timestamp _ => .timestamp
  | group _ => .group

def placeholder? : ValueType → Option Value
  | .number => some (number 0)
  | .text => some (text "")
  | .bool => some (bool false)
  | .array elem => some (array elem [])
  | .function => none
  | .latitude => some (latitude 0)
  | .longitude => some (longitude 0)
  | .timestamp => some (timestamp 0)
  | .group => some (group ∅)

def number? : Value → Option Float
  | number x => some x
  | _ => none

def text? : Value → Option String
  | text s => some s
  | _ => none

def bool? : Value → Option Bool
  | bool b => some b
  | _ => none

def function? : Value → Option Function
  | function f => some f
  | _ => none

theorem type_eq_of_placeholder? {t : ValueType} {v : Value} (h : placeholder? t = some v) :
    v.type = t := by
  cases t <;> simp [placeholder?] at h <;> subst h <;> rfl

end Value

end ScopedFormulas
