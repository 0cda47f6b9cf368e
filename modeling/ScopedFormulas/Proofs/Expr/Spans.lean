import ScopedFormulas.Error

namespace ScopedFormulas

def Ident.eraseSpan (ident : Ident) : Ident := .synthetic ident.name

namespace QualifiedName

def eraseSpans : QualifiedName → QualifiedName
  | root name => root name.eraseSpan
  | member scope name => member scope.eraseSpans name.eraseSpan

@[simp] theorem segments_eraseSpans (q : QualifiedName) : q.eraseSpans.segments = q.segments := by
  induction q with
  | root name => rfl
  | member scope name ih =>
    rw [eraseSpans, segments, segments, ih]
    rfl

@[simp] theorem text_eraseSpans (q : QualifiedName) : q.eraseSpans.text = q.text := by
  rw [text, text, segments_eraseSpans]

@[simp] theorem eraseSpans_eraseSpans (q : QualifiedName) :
    q.eraseSpans.eraseSpans = q.eraseSpans := by
  induction q with
  | root name => rfl
  | member scope name ih =>
    rw [eraseSpans, eraseSpans, ih]
    rfl

end QualifiedName

namespace Expr

mutual

def eraseSpans : Expr → Expr
  | number value _ => number value .synthetic
  | string raw _ => string raw .synthetic
  | unary op operand _ => unary op operand.eraseSpans .synthetic
  | binary op left right _ => binary op left.eraseSpans right.eraseSpans .synthetic
  | name ident _ => name ident.eraseSpan .synthetic
  | member rest ident _ => member rest.eraseSpans ident.eraseSpan .synthetic
  | target path _ => target path.eraseSpans .synthetic
  | call callee args _ => call callee.eraseSpans (eraseArgSpans args) .synthetic
  | assign targets value _ => assign (targets.map (·.eraseSpans)) value.eraseSpans .synthetic

def eraseArgSpans : List Expr → List Expr
  | [] => []
  | arg :: args => arg.eraseSpans :: eraseArgSpans args

end

theorem eraseArgSpans_eq (args : List Expr) : eraseArgSpans args = args.map eraseSpans := by
  induction args with
  | nil => rfl
  | cons arg args ih => rw [eraseArgSpans, ih, List.map_cons]

theorem eraseSpans_eraseSpans (e : Expr) : e.eraseSpans.eraseSpans = e.eraseSpans := by
  induction e with
  | number | string | name => rfl
  | unary op operand span ih => rw [eraseSpans, eraseSpans, ih]
  | binary op left right span ihl ihr => rw [eraseSpans, eraseSpans, ihl, ihr]
  | member rest ident span ih =>
    rw [eraseSpans, eraseSpans, ih]
    rfl
  | target path span => rw [eraseSpans, eraseSpans, QualifiedName.eraseSpans_eraseSpans]
  | call callee args span ihc iha =>
    rw [eraseSpans, eraseSpans, ihc, eraseArgSpans_eq, eraseArgSpans_eq, List.map_map]
    congr 1
    exact List.map_congr_left iha
  | assign targets value span ih =>
    rw [eraseSpans, eraseSpans, ih, List.map_map]
    congr 1
    exact List.map_congr_left fun q _ => q.eraseSpans_eraseSpans

theorem targetsText_eraseSpans (targets : List QualifiedName) :
    targetsText (targets.map (·.eraseSpans)) = targetsText targets := by
  match targets with
  | [] => rfl
  | [q] => exact q.text_eraseSpans
  | q :: r :: rest => simp [targetsText, Function.comp_def]

theorem text_eraseSpans (e : Expr) : e.eraseSpans.text = e.text := by
  induction e with
  | number | string | name => rfl
  | unary op operand span ih => rw [eraseSpans, text, text, ih]
  | binary op left right span ihl ihr => rw [eraseSpans, text, text, ihl, ihr]
  | member rest ident span ih =>
    rw [eraseSpans, text, text, ih]
    rfl
  | target path span => rw [eraseSpans, text, text, QualifiedName.text_eraseSpans]
  | call callee args span ihc iha =>
    have hargs : argsText (eraseArgSpans args) = argsText args := by
      clear ihc
      induction args with
      | nil => rfl
      | cons arg args ih =>
        obtain ⟨harg, hrest⟩ := List.forall_mem_cons.mp iha
        rw [eraseArgSpans, argsText, argsText, harg, ih hrest]
    rw [eraseSpans, text, text, ihc, hargs]
  | assign targets value span ih =>
    rw [eraseSpans, text, text, ih, targetsText_eraseSpans]

end Expr

def EvalError.eraseSpans : EvalError → EvalError
  | unresolved name => unresolved name.eraseSpan
  | notCallable callee actual => notCallable callee.eraseSpans actual
  | cause => cause

end ScopedFormulas
