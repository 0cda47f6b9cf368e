import ScopedFormulas.Number.Text

namespace ScopedFormulas

inductive ArithmeticOp where
  | add
  | sub
  | mul
  | div
  | mod
  | pow
  deriving DecidableEq, Repr

def ArithmeticOp.name : ArithmeticOp → String
  | add => "addition"
  | sub => "subtraction"
  | mul => "multiplication"
  | div => "division"
  | mod => "modulo"
  | pow => "exponentiation"

def maxRepeatBytes : Nat := 1 <<< 24

/-- Why a computation has no value. `custom` is for functions, which word their own. -/
inductive Trap where
  | byZero (op : ArithmeticOp)
  | notFinite (op : ArithmeticOp)
  | badCount (count : Float)
  | tooLong (count : Float)
  | custom (message : String)
  deriving DecidableEq

def Trap.message : Trap → String
  | byZero op => op.name ++ " by zero"
  | notFinite op => op.name ++ " produced NaN/Infinity"
  | badCount count => "cannot repeat text " ++ Number.text count ++ " times"
  | tooLong count =>
    "repeating text " ++ Number.text count ++ " times exceeds " ++ toString maxRepeatBytes ++ " bytes"
  | custom message => message

namespace Number

def isFinite (x : Float) : Bool :=
  match exact x with
  | .finite .. => true
  | _ => false

def compute : ArithmeticOp → Float → Float → Float
  | .add, a, b => a + b
  | .sub, a, b => a - b
  | .mul, a, b => a * b
  | .div, a, b => a / b
  | .mod, a, b => a - b * floor (a / b)
  | .pow, a, b => a.pow b

def divides : ArithmeticOp → Bool
  | .div | .mod => true
  | .add | .sub | .mul | .pow => false

def apply (op : ArithmeticOp) (a b : Float) : Except Trap Float :=
  if divides op && b == 0 then .error (.byZero op)
  else
    let result := compute op a b
    if isFinite result then .ok result else .error (.notFinite op)

end Number

end ScopedFormulas
