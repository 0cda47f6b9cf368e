import ScopedFormulas.Expr.Basic

namespace ScopedFormulas.Expr

mutual

def nodes : Expr → List Expr
  | number value span => [number value span]
  | string raw span => [string raw span]
  | unary op operand span => operand.nodes ++ [unary op operand span]
  | binary op left right span => left.nodes ++ right.nodes ++ [binary op left right span]
  | name ident span => [name ident span]
  | member rest ident span => rest.nodes ++ [member rest ident span]
  | target path span => [target path span]
  | call callee args span => callee.nodes ++ argNodes args ++ [call callee args span]
  | assign targets value span => value.nodes ++ [assign targets value span]

def argNodes : List Expr → List Expr
  | [] => []
  | arg :: args => arg.nodes ++ argNodes args

end

theorem self_mem_nodes (e : Expr) : e ∈ e.nodes := by
  cases e <;> simp [nodes]

theorem argNodes_eq (args : List Expr) : argNodes args = args.flatMap nodes := by
  induction args with
  | nil => rfl
  | cons arg args ih => rw [argNodes, ih, List.flatMap_cons]

theorem mem_argNodes {args : List Expr} {arg n : Expr} (harg : arg ∈ args) (hn : n ∈ arg.nodes) :
    n ∈ argNodes args := by
  rw [argNodes_eq]
  exact List.mem_flatMap.mpr ⟨arg, harg, hn⟩

def isAssign : Expr → Bool
  | assign .. => true
  | _ => false

def AssignFree (e : Expr) : Prop := ∀ n ∈ e.nodes, n.isAssign = false

instance (e : Expr) : Decidable e.AssignFree :=
  inferInstanceAs (Decidable (∀ n ∈ e.nodes, n.isAssign = false))

def isCall : Expr → Bool
  | call .. => true
  | _ => false

section CallNodes

variable (span : Span)

end CallNodes

end ScopedFormulas.Expr
