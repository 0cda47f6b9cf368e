import ScopedFormulas.Name
import ScopedFormulas.Operator

namespace ScopedFormulas

inductive Expr where
  | number (value : Float) (span : Span)
  /-- A text literal as written, quote marks included. -/
  | string (raw : String) (span : Span)
  | unary (op : UnaryOp) (operand : Expr) (span : Span)
  | binary (op : BinaryOp) (left right : Expr) (span : Span)
  | name (ident : Ident) (span : Span)
  | member (rest : Expr) (ident : Ident) (span : Span)
  /-- An assignment target as an expression; never looked up. -/
  | target (path : QualifiedName) (span : Span)
  | call (callee : Expr) (args : List Expr) (span : Span)
  | assign (targets : List QualifiedName) (value : Expr) (span : Span)

namespace Expr

@[elab_as_elim, induction_eliminator]
theorem induct {motive : Expr → Prop}
    (number : ∀ value span, motive (.number value span))
    (string : ∀ raw span, motive (.string raw span))
    (unary : ∀ op operand span, motive operand → motive (.unary op operand span))
    (binary : ∀ op left right span, motive left → motive right →
      motive (.binary op left right span))
    (name : ∀ ident span, motive (.name ident span))
    (member : ∀ rest ident span, motive rest → motive (.member rest ident span))
    (target : ∀ path span, motive (.target path span))
    (call : ∀ callee args span, motive callee → (∀ arg ∈ args, motive arg) →
      motive (.call callee args span))
    (assign : ∀ targets value span, motive value → motive (.assign targets value span))
    (e : Expr) : motive e :=
  Expr.rec (motive_1 := motive) (motive_2 := fun args => ∀ arg ∈ args, motive arg)
    number string (fun op operand span h => unary op operand span h)
    (fun op left right span hl hr => binary op left right span hl hr) name
    (fun rest ident span h => member rest ident span h) target
    (fun callee args span hc ha => call callee args span hc ha)
    (fun targets value span h => assign targets value span h)
    (fun _ h => nomatch h)
    (fun _ _ hd tl arg h => by
      cases h with
      | head => exact hd
      | tail _ h => exact tl arg h)
    e

def span : Expr → Span
  | number _ s | string _ s | unary _ _ s | binary _ _ _ s | name _ s | member _ _ s | target _ s
  | call _ _ s | assign _ _ s => s

def withSpan (s : Span) : Expr → Expr
  | number value _ => number value s
  | string raw _ => string raw s
  | unary op operand _ => unary op operand s
  | binary op left right _ => binary op left right s
  | name ident _ => name ident s
  | member rest ident _ => member rest ident s
  | target path _ => target path s
  | call callee args _ => call callee args s
  | assign targets value _ => assign targets value s

mutual

/-- Equality of trees, spans included. Numbers are compared as numbers, so a tree that holds a
NaN differs from itself and the two zeros are the same. -/
def same : Expr → Expr → Bool
  | number a s, number b t => a == b && s == t
  | string a s, string b t => a == b && s == t
  | unary o a s, unary p b t => o == p && a.same b && s == t
  | binary o a b s, binary p c d t => o == p && a.same c && b.same d && s == t
  | name a s, name b t => a == b && s == t
  | member a m s, member b n t => a.same b && m == n && s == t
  | target a s, target b t => a == b && s == t
  | call a as s, call b bs t => a.same b && sameList as bs && s == t
  | assign ps a s, assign qs b t => ps == qs && a.same b && s == t
  | _, _ => false

def sameList : List Expr → List Expr → Bool
  | [], [] => true
  | a :: as, b :: bs => a.same b && sameList as bs
  | _, _ => false

end

def literalText (raw : String) : String := String.ofList raw.toList.tail.dropLast

end Expr

end ScopedFormulas
