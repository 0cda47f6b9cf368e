import Mathlib
import ScopedFormulas.Expr.Build

namespace ScopedFormulas

namespace Span

variable {a b c : Span} {l l' : List Span}

def fromText (l : List Span) : Set Span := {s | s ∈ l ∧ s ≠ synthetic}

@[simp] theorem fromText_append : fromText (l ++ l') = fromText l ∪ fromText l' := by
  ext s
  simp [fromText, or_and_right]

theorem fromText_eq_empty_iff : fromText l = ∅ ↔ ∀ s ∈ l, s = synthetic := by
  simp [fromText, Set.eq_empty_iff_forall_notMem]

theorem fromText_singleton (h : a ≠ synthetic) : fromText [a] = {a} := by
  ext s
  constructor
  · rintro ⟨hs, -⟩
    exact List.mem_singleton.mp hs
  · rintro rfl
    exact ⟨List.mem_singleton_self s, h⟩

structure Hull (l : List Span) (s : Span) : Prop where
  start : IsLeast ((·.start.toNat) '' fromText l) s.start.toNat
  stop : IsGreatest ((·.stop.toNat) '' fromText l) s.stop.toNat

namespace Hull

theorem ne_synthetic (ha : Hull l a) : a ≠ synthetic := by
  -- The span with the least start would stop at 0 as well, though it is not synthetic.
  rintro rfl
  obtain ⟨s, hs, hstart⟩ := ha.start.1
  have hstop : s.stop.toNat ≤ 0 := ha.stop.2 ⟨s, hs, rfl⟩
  apply hs.2
  obtain ⟨start, stop⟩ := s
  rw [synthetic, mk.injEq, ← UInt32.toNat_inj, ← UInt32.toNat_inj]
  exact ⟨hstart, Nat.le_zero.mp hstop⟩

theorem congr (h : fromText l = fromText l') (ha : Hull l a) : Hull l' a := by
  obtain ⟨hstart, hstop⟩ := ha
  rw [h] at hstart hstop
  exact ⟨hstart, hstop⟩

theorem unique (ha : Hull l a) (hb : Hull l b) : a = b := by
  have hstart := UInt32.toNat_inj.mp (ha.start.unique hb.start)
  have hstop := UInt32.toNat_inj.mp (ha.stop.unique hb.stop)
  rw [show a = ⟨a.start, a.stop⟩ from rfl, hstart, hstop]

theorem single (h : a ≠ synthetic) : Hull [a] a := by
  constructor
  · rw [fromText_singleton h, Set.image_singleton]
    exact isLeast_singleton
  · rw [fromText_singleton h, Set.image_singleton]
    exact isGreatest_singleton

theorem merge (ha : Hull l a) (hb : Hull l' b) : Hull (l ++ l') (a.merge b) := by
  rw [Span.merge, if_neg ha.ne_synthetic, if_neg hb.ne_synthetic]
  constructor
  · rw [fromText_append, Set.image_union, UInt32.toNat_min]
    exact ha.start.union hb.start
  · rw [fromText_append, Set.image_union, UInt32.toNat_max]
    exact ha.stop.union hb.stop

theorem covers (ha : Hull l a) (hs : b ∈ l) (h : b ≠ synthetic) :
    a.start ≤ b.start ∧ b.stop ≤ a.stop := by
  rw [UInt32.le_iff_toNat_le, UInt32.le_iff_toNat_le]
  exact ⟨ha.start.2 ⟨b, ⟨hs, h⟩, rfl⟩, ha.stop.2 ⟨b, ⟨hs, h⟩, rfl⟩⟩

end Hull

inductive Joins (l : List Span) : Span → Prop
  | synthetic : fromText l = ∅ → Joins l .synthetic
  | hull {s : Span} : Hull l s → Joins l s

namespace Joins

theorem congr (h : fromText l = fromText l') (ha : Joins l a) : Joins l' a := by
  cases ha with
  | synthetic hempty => exact synthetic (h ▸ hempty)
  | hull ha => exact hull (ha.congr h)

theorem eq_synthetic_iff (ha : Joins l a) : a = .synthetic ↔ fromText l = ∅ := by
  cases ha with
  | synthetic hempty => exact iff_of_true rfl hempty
  | hull ha =>
    obtain ⟨s, hs, -⟩ := ha.start.1
    exact iff_of_false ha.ne_synthetic (Set.nonempty_of_mem hs).ne_empty

theorem isHull (ha : Joins l a) (h : a ≠ .synthetic) : Hull l a := by
  cases ha with
  | synthetic hempty => exact absurd rfl h
  | hull ha => exact ha

theorem unique (ha : Joins l a) (hb : Joins l b) : a = b := by
  by_cases hempty : fromText l = ∅
  · rw [ha.eq_synthetic_iff.mpr hempty, hb.eq_synthetic_iff.mpr hempty]
  · exact (ha.isHull (mt ha.eq_synthetic_iff.mp hempty)).unique
      (hb.isHull (mt hb.eq_synthetic_iff.mp hempty))

theorem single (s : Span) : Joins [s] s := by
  by_cases h : s = .synthetic
  · subst h
    exact synthetic (fromText_eq_empty_iff.mpr (by simp))
  · exact hull (Hull.single h)

theorem merge (ha : Joins l a) (hb : Joins l' b) : Joins (l ++ l') (a.merge b) := by
  cases ha with
  | synthetic hempty =>
    rw [synthetic_merge]
    exact hb.congr (by rw [fromText_append, hempty, Set.empty_union])
  | hull ha =>
    cases hb with
    | synthetic hempty =>
      rw [merge_synthetic]
      exact hull (ha.congr (by rw [fromText_append, hempty, Set.union_empty]))
    | hull hb => exact hull (ha.merge hb)

theorem foldl {α : Type} {spans : α → List Span} {span : α → Span} {xs : List α}
    (ha : Joins l a) (hxs : ∀ x ∈ xs, Joins (spans x) (span x)) :
    Joins (l ++ xs.flatMap spans) (xs.foldl (fun s x => s.merge (span x)) a) := by
  induction xs generalizing l a with
  | nil => simpa using ha
  | cons x xs ih =>
    obtain ⟨hx, hxs⟩ := List.forall_mem_cons.mp hxs
    rw [List.flatMap_cons, ← List.append_assoc, List.foldl_cons]
    exact ih (ha.merge hx) hxs

end Joins

theorem merge_comm (a b : Span) : a.merge b = b.merge a := by
  have hswap : fromText ([b] ++ [a]) = fromText ([a] ++ [b]) := by
    rw [fromText_append, fromText_append, Set.union_comm]
  exact ((Joins.single a).merge (.single b)).unique
    (((Joins.single b).merge (.single a)).congr hswap)

theorem merge_assoc (a b c : Span) : (a.merge b).merge c = a.merge (b.merge c) :=
  (((Joins.single a).merge (.single b)).merge (.single c)).unique
    ((Joins.single a).merge ((Joins.single b).merge (.single c)))

end Span

namespace QualifiedName

def spans : QualifiedName → List Span
  | root name => [name.span]
  | member scope name => name.span :: scope.spans

theorem joins_span (q : QualifiedName) : Span.Joins q.spans q.span := by
  induction q with
  | root name => exact .single name.span
  | member scope name ih => exact (Span.Joins.single name.span).merge ih

end QualifiedName

namespace Expr

mutual

def leafSpans : Expr → List Span
  | number _ span | string _ span | name _ span => [span]
  | unary _ operand _ => operand.leafSpans
  | binary _ left right _ => left.leafSpans ++ right.leafSpans
  | member rest _ _ => rest.leafSpans
  | target path _ => path.spans
  | call callee args _ => callee.leafSpans ++ argLeafSpans args
  | assign targets value _ => value.leafSpans ++ targets.flatMap (·.spans)

def argLeafSpans : List Expr → List Span
  | [] => []
  | arg :: args => arg.leafSpans ++ argLeafSpans args

end

theorem argLeafSpans_eq (args : List Expr) : argLeafSpans args = args.flatMap leafSpans := by
  induction args with
  | nil => rfl
  | cons arg args ih => rw [argLeafSpans, ih, List.flatMap_cons]

/-- Trees made by the builders, in which only leaves are given a span. -/
inductive Built : Expr → Prop
  | number (value : Float) (span : Span) : Built ((Build.number value).withSpan span)
  | string (raw : String) (span : Span) : Built ((Build.string raw).withSpan span)
  | name (name : String) (span : Span) : Built ((Build.name name).withSpan span)
  | not {operand : Expr} : Built operand → Built (Build.not operand)
  | binary {left right : Expr} (op : BinaryOp) :
    Built left → Built right → Built (Build.binary left op right)
  | member {rest : Expr} (name : String) : Built rest → Built (Build.member rest name)
  | target (path : QualifiedName) : Built (Build.target path)
  | call {callee : Expr} {args : List Expr} :
    Built callee → (∀ arg ∈ args, Built arg) → Built (Build.call callee args)
  | assign {value : Expr} (targets : List QualifiedName) :
    Built value → Built (Build.assign targets value)

theorem Built.joins_span {e : Expr} (he : e.Built) : Span.Joins e.leafSpans e.span := by
  induction he with
  | number value span | string raw span | name name span => exact .single span
  | not _ ih | member _ _ ih => exact ih
  | binary op _ _ ihl ihr => exact ihl.merge ihr
  | target path => exact path.joins_span
  | call _ _ ihc iha =>
    rw [Build.call, leafSpans, argLeafSpans_eq]
    exact ihc.foldl iha
  | assign targets _ ih => exact ih.foldl fun q _ => q.joins_span

theorem Built.span_hull {e : Expr} (he : e.Built) :
    (e.span = .synthetic ↔ ∀ s ∈ e.leafSpans, s = .synthetic) ∧
      (e.span ≠ .synthetic → Span.Hull e.leafSpans e.span) ∧
      (∀ s ∈ e.leafSpans, s ≠ .synthetic → e.span.start ≤ s.start ∧ s.stop ≤ e.span.stop) ∧
      ∀ e' : Expr, e'.Built → Span.fromText e'.leafSpans = Span.fromText e.leafSpans →
        e'.span = e.span := by
  have hjoins := he.joins_span
  have hiff := hjoins.eq_synthetic_iff.trans Span.fromText_eq_empty_iff
  refine ⟨hiff, hjoins.isHull, ?_, ?_⟩
  · intro s hs hne
    have hspan : e.span ≠ .synthetic := fun h => hne (hiff.mp h s hs)
    exact (hjoins.isHull hspan).covers hs hne
  · intro e' he' h
    exact (he'.joins_span.congr h).unique hjoins

theorem Built.span_hull_inverted :
    Span.Hull [⟨9, 2⟩, .synthetic, ⟨5, 3⟩, .synthetic, ⟨4, 0⟩] ⟨4, 3⟩ := by
  have hvalue : Built (Build.not ((Build.string "x").withSpan ⟨5, 3⟩)) := .not (.string "x" ⟨5, 3⟩)
  have hassign := hvalue.assign [.member (.root ⟨"a", ⟨4, 0⟩⟩) (.synthetic "b")]
  have he : Built (Build.call ((Build.name "f").withSpan ⟨9, 2⟩) [Build.number 1, _]) :=
    .call (.name "f" ⟨9, 2⟩) (List.forall_mem_cons.mpr
      ⟨.number 1 .synthetic, List.forall_mem_cons.mpr ⟨hassign, by simp⟩⟩)
  exact he.span_hull.2.1 (by decide)

end Expr

end ScopedFormulas
