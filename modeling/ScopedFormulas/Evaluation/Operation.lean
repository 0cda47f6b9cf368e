import ScopedFormulas.Error
import ScopedFormulas.Number.Arithmetic
import ScopedFormulas.Value.Comparison

namespace ScopedFormulas

namespace Value

mutual

def toText : Value → String
  | number x => Number.text x
  | text s => s
  | bool b => if b then "true" else "false"
  | array _ items => "[" ++ itemsText "" items ++ "]"
  | function f => "<function " ++ f.name ++ ">"
  | latitude x => Number.text x
  | longitude x => Number.text x
  | timestamp t => toString t
  | group _ => "<namespace>"

def itemsText (before : String) : List Value → String
  | [] => ""
  | v :: vs => before ++ toText v ++ itemsText ", " vs

end

def concatenate (a b : Value) : Value := text (a.toText ++ b.toText)

def appendCopies (s : String) : Nat → String → String
  | 0, done => done
  | n + 1, done => appendCopies s n (done ++ s)

/-- The text `s` as often as `count` tells, which has to be a natural number. Neither the count
nor the bytes of the result may exceed `maxRepeatBytes`. -/
def repeatText (s : String) (count : Float) : Except Trap String :=
  match Number.natural? count with
  | none => .error (.badCount count)
  | some n =>
    if n ≤ maxRepeatBytes ∧ s.utf8ByteSize * n ≤ maxRepeatBytes then .ok (appendCopies s n "")
    else .error (.tooLong count)

end Value

def OrderOp.holds : OrderOp → Ordering → Bool
  | lt, o => o == .lt
  | le, o => o != .gt
  | gt, o => o == .gt
  | ge, o => o != .lt

def UnaryOp.eval (op : UnaryOp) (v : Value) : Except EvalError Value :=
  match op, v with
  | not, .bool b => .ok (.bool !b)
  | not, v => .error (.argumentType op.symbol [.type .bool] [v.type])

namespace BinaryOp

def expected : BinaryOp → Expected
  | arithmetic _ => .type .number
  | and | or => .type .bool
  | eq | ne => .eq
  | order _ => .ord

def arithmetic? (op : ArithmeticOp) (l r : Value) : Option (Except Trap Value) :=
  match op, l, r with
  | .add, .text _, _ | .add, _, .text _ => some (.ok (l.concatenate r))
  | .mul, .text s, .number count | .mul, .number count, .text s =>
    some ((Value.repeatText s count).map .text)
  | op, .number a, .number b => some ((Number.apply op a b).map .number)
  | _, _, _ => none

/-- The result on operands of accepted types. Numbers without an order, which are NaNs, satisfy
none of the orderings. -/
def result? (op : BinaryOp) (l r : Value) : Option (Except Trap Value) :=
  match op with
  | arithmetic op => arithmetic? op l r
  | and =>
    match l, r with
    | .bool a, .bool b => some (.ok (.bool (a && b)))
    | _, _ => none
  | or =>
    match l, r with
    | .bool a, .bool b => some (.ok (.bool (a || b)))
    | _, _ => none
  | eq => (l.equals r).map fun b => .ok (.bool b)
  | ne => (l.equals r).map fun b => .ok (.bool !b)
  | order op =>
    if l.type = r.type ∧ l.type.supportsOrd = true then
      some (.ok (.bool ((l.compare? r).any op.holds)))
    else none

def eval (op : BinaryOp) (l r : Value) : Except EvalError Value :=
  match op.result? l r with
  | some (.ok v) => .ok v
  | some (.error cause) => .error (.trap cause)
  | none => .error (.argumentType op.symbol [op.expected, op.expected] [l.type, r.type])

end BinaryOp

end ScopedFormulas
