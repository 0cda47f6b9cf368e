import ScopedFormulas.Number.Arithmetic

namespace ScopedFormulas

inductive OrderOp where
  | lt
  | le
  | gt
  | ge
  deriving DecidableEq, Repr

inductive BinaryOp where
  | arithmetic (op : ArithmeticOp)
  | and
  | or
  | eq
  | ne
  | order (op : OrderOp)
  deriving DecidableEq, Repr

inductive UnaryOp where
  | not
  deriving DecidableEq, Repr

def ArithmeticOp.symbol : ArithmeticOp → String
  | add => "+"
  | sub => "-"
  | mul => "*"
  | div => "/"
  | mod => "%"
  | pow => "^"

def OrderOp.symbol : OrderOp → String
  | lt => "<"
  | le => "<="
  | gt => ">"
  | ge => ">="

namespace BinaryOp

def symbol : BinaryOp → String
  | arithmetic op => op.symbol
  | and => "&&"
  | or => "||"
  | eq => "=="
  | ne => "!="
  | order op => op.symbol

def tag : BinaryOp → String
  | and => "and"
  | or => "or"
  | eq => "eq?"
  | ne => "ne?"
  | op => op.symbol

def all : List BinaryOp :=
  [.arithmetic .add, .arithmetic .sub, .arithmetic .mul, .arithmetic .div, .arithmetic .mod,
    .arithmetic .pow, .and, .or, .eq, .ne, .order .lt, .order .le, .order .gt, .order .ge]

def ofSymbol? (symbol : String) : Option BinaryOp := all.find? fun op => op.symbol == symbol

end BinaryOp

def UnaryOp.symbol : UnaryOp → String
  | not => "!"

def UnaryOp.tag : UnaryOp → String
  | not => "not"

end ScopedFormulas
