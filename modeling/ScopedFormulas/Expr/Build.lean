import ScopedFormulas.Expr.Basic
import ScopedFormulas.Number.Text

namespace ScopedFormulas

namespace Build

def number (value : Float) : Expr := .number value .synthetic

def string (raw : String) : Expr := .string raw .synthetic

def name (name : String) : Expr := .name (.synthetic name) .synthetic

def not (operand : Expr) : Expr := .unary .not operand operand.span

def binary (left : Expr) (op : BinaryOp) (right : Expr) : Expr :=
  .binary op left right (left.span.merge right.span)

def member (rest : Expr) (name : String) : Expr := .member rest (.synthetic name) rest.span

def target (path : QualifiedName) : Expr := .target path path.span

def call (callee : Expr) (args : List Expr) : Expr :=
  .call callee args (args.foldl (fun s arg => s.merge arg.span) callee.span)

def assign (targets : List QualifiedName) (value : Expr) : Expr :=
  .assign targets value (targets.foldl (fun s target => s.merge target.span) value.span)

end Build

namespace Expr

def targetsText : List QualifiedName → String
  | [q] => q.text
  | qs => "(" ++ ", ".intercalate (qs.map (·.text)) ++ ")"

mutual

def text : Expr → String
  | number value _ => Number.literal value
  | string raw _ => "\"" ++ literalText raw ++ "\""
  | unary op operand _ => "(" ++ op.tag ++ " " ++ operand.text ++ ")"
  | binary op left right _ => "(" ++ op.tag ++ " " ++ left.text ++ " " ++ right.text ++ ")"
  | name ident _ => ident.name
  | member rest ident _ => rest.text ++ ":" ++ ident.name
  | target path _ => path.text
  | call callee args _ => "(" ++ callee.text ++ argsText args ++ ")"
  | assign targets value _ => "(let " ++ targetsText targets ++ " " ++ value.text ++ ")"

def argsText : List Expr → String
  | [] => ""
  | arg :: args => " " ++ arg.text ++ argsText args

end

end Expr

end ScopedFormulas
