namespace ScopedFormulas

/-- Byte offsets into the formula text, `stop` exclusive. The span 0..0 marks a node that was built
in code. -/
structure Span where
  start : UInt32
  stop : UInt32
  deriving DecidableEq, Repr

namespace Span

def synthetic : Span := ⟨0, 0⟩

def merge (a b : Span) : Span :=
  if a = synthetic then b
  else if b = synthetic then a
  else ⟨min a.start b.start, max a.stop b.stop⟩

def length (s : Span) : Nat := s.stop.toNat - s.start.toNat

def isEmpty (s : Span) : Bool := s.length == 0

def text (s : Span) : String := toString s.start.toNat ++ ".." ++ toString s.stop.toNat

@[simp] theorem synthetic_merge (s : Span) : synthetic.merge s = s := by simp [merge]

@[simp] theorem merge_synthetic (s : Span) : s.merge synthetic = s := by
  simp only [merge, if_true]
  split <;> simp_all

end Span

structure Ident where
  name : String
  span : Span
  deriving DecidableEq, Repr

def Ident.synthetic (name : String) : Ident := ⟨name, .synthetic⟩

/-- An assignment target. The last segment is outermost: `a:b:c` is the member `c` of `a:b`. -/
inductive QualifiedName where
  | root (name : Ident)
  | member (scope : QualifiedName) (name : Ident)
  deriving DecidableEq, Repr

namespace QualifiedName

def last : QualifiedName → Ident
  | root name => name
  | member _ name => name

def segments : QualifiedName → List String
  | root name => [name.name]
  | member scope name => scope.segments ++ [name.name]

def ofPath? : List String → Option QualifiedName
  | [] => none
  | first :: rest =>
    some (rest.foldl (fun scope name => .member scope (.synthetic name)) (.root (.synthetic first)))

def span : QualifiedName → Span
  | root name => name.span
  | member scope name => name.span.merge scope.span

def text (q : QualifiedName) : String := ":".intercalate q.segments

end QualifiedName

end ScopedFormulas
