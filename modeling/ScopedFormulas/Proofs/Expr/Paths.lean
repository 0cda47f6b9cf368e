import ScopedFormulas.Evaluation.Basic
import ScopedFormulas.Expr.Build
import ScopedFormulas.Proofs.Expr.Spans

namespace ScopedFormulas.QualifiedName

variable {q : QualifiedName} {segments : List String}

def extend (q : QualifiedName) (names : List String) : QualifiedName :=
  names.foldl (fun scope name => .member scope (.synthetic name)) q

theorem ofPath?_cons (first : String) (rest : List String) :
    ofPath? (first :: rest) = some (extend (root (.synthetic first)) rest) := rfl

theorem segments_extend (q : QualifiedName) (names : List String) :
    (q.extend names).segments = q.segments ++ names := by
  induction names generalizing q with
  | nil => exact (List.append_nil _).symm
  | cons name names ih =>
    have hstep : q.extend (name :: names) = (member q (.synthetic name)).extend names := rfl
    rw [hstep, ih, QualifiedName.segments, List.append_assoc]
    rfl

theorem extend_concat (q : QualifiedName) (names : List String) (name : String) :
    q.extend (names ++ [name]) = member (q.extend names) (.synthetic name) := by
  rw [extend, List.foldl_append]
  rfl

theorem exists_ofPath? (h : segments ≠ []) :
    ∃ q, ofPath? segments = some q ∧ q.segments = segments := by
  obtain ⟨first, rest, rfl⟩ := List.exists_cons_of_ne_nil h
  exact ⟨_, ofPath?_cons first rest, segments_extend _ rest⟩

theorem ofPath?_concat (h : ofPath? segments = some q) (name : String) :
    ofPath? (segments ++ [name]) = some (member q (.synthetic name)) := by
  cases segments with
  | nil => cases h
  | cons first rest =>
    rw [ofPath?_cons, Option.some.injEq] at h
    rw [List.cons_append, ofPath?_cons, extend_concat, h]

theorem ofPath?_segments (q : QualifiedName) : ofPath? q.segments = some q.eraseSpans := by
  induction q with
  | root name => rfl
  | member scope name ih => exact ofPath?_concat ih name.name

def namesInward : QualifiedName → List String → List String
  | root name, met => met ++ [name.name]
  | member scope name, met => scope.namesInward (met ++ [name.name])

theorem reverse_namesInward (q : QualifiedName) (met : List String) :
    (q.namesInward met).reverse = q.segments ++ met.reverse := by
  induction q generalizing met with
  | root name => rw [namesInward, List.reverse_concat, segments, List.singleton_append]
  | member scope name ih =>
    rw [namesInward, ih, List.reverse_concat, segments, List.append_assoc, List.singleton_append]

theorem eval_target (library : Library) (fuel : Nat) (q : QualifiedName) (span : Span)
    (env : Environment) :
    (Expr.target q span).eval library fuel env =
      ⟨.ok (.array .text (q.segments.map .text)), env, []⟩ := by
  rw [Expr.eval, Expr.evalWith]
  rfl

theorem ofPath?_inverse :
    (∀ segments : List String, segments ≠ [] → ∃ q, ofPath? segments = some q ∧
      q.segments = segments ∧ q.text = ":".intercalate segments ∧
      ∀ span, (Expr.target q span).text = ":".intercalate segments ∧
        ∀ (library : Library) (fuel : Nat) (env : Environment),
          (Expr.target q span).eval library fuel env =
            ⟨.ok (.array .text (segments.map .text)), env, []⟩) ∧
      (∀ q : QualifiedName, ofPath? q.segments = some q.eraseSpans) ∧
      ofPath? [] = none ∧
      (∀ (q : QualifiedName) (name : Ident),
        (member q name).segments = q.segments ++ [name.name]) ∧
      ∀ q : QualifiedName, (q.namesInward []).reverse = q.segments := by
  refine ⟨?_, ofPath?_segments, rfl, fun _ _ => rfl, ?_⟩
  · intro segments h
    obtain ⟨q, hq, rfl⟩ := exists_ofPath? h
    refine ⟨q, hq, rfl, rfl, ?_⟩
    intro span
    constructor
    · rw [Expr.text, text]
    · intro library fuel env
      exact eval_target library fuel q span env
  · intro q
    rw [reverse_namesInward, List.reverse_nil, List.append_nil]

theorem ofPath?_inverse_three : ∃ q, ofPath? ["a", "b", "c"] = some q ∧ q.text = "a:b:c" := by
  obtain ⟨q, hq, -, htext, -⟩ := ofPath?_inverse.1 ["a", "b", "c"] (by decide)
  exact ⟨q, hq, htext⟩

end ScopedFormulas.QualifiedName
