import ScopedFormulas.Expr.Build
import ScopedFormulas.Proofs.Environment.Lookups
import ScopedFormulas.Proofs.Evaluation.Lockstep

/-!
Runs that write nothing. When native functions do not seed and assignments are either ruled out or
refused, evaluation leaves the environment as it is, and then its answer depends on lookups alone:
how names and methods are spread over scopes makes no difference.
-/

namespace ScopedFormulas

open Comparison

variable {library : Library} {rules : Rules} {a b : Environment}

theorem Environment.Confined.lockstep (hconf : a.Confined library rules) (hab : a.SameLookups b)
    (hnode : ∀ {targets part span v}, rules.node (.assign targets part span) → rules.assigned v)
    (hassign : ∀ v, rules.assigned v → ∀ path, ∃ result,
      a.assign path v = (result, a) ∧ b.assign path v = (result, b))
    (hseed : ∀ v, ¬ rules.seeded v) :
    ∃ c : Conduct, c.toRules = rules ∧ library.Keeps c ∧
      c.Lockstep fun e e' => e = a ∧ e' = b := by
  obtain ⟨bodies, hnames, hmethods, hkeeps⟩ := hconf
  refine ⟨rules.among bodies, rfl, ?_, ?_⟩
  · intro f args hf hargs
    have hbody : bodies f.body := by
      cases hf with
      | function body => exact body
    exact hkeeps f.body _ hbody (hf.arguments hargs)
  · refine
      { rules.among_lawful bodies hnode with
        name? := ?_, method? := ?_, assign := ?_, bind := ?_ }
    · rintro e e' ⟨rfl, rfl⟩ name
      exact ⟨hab.name? name, hnames name⟩
    · rintro e e' ⟨rfl, rfl⟩ t ht name
      exact ⟨hab.method? t ht name, hmethods t ht name⟩
    · rintro e e' ⟨rfl, rfl⟩ path v hv
      obtain ⟨result, hleft, hright⟩ := hassign v hv path
      rw [hleft, hright]
      exact ⟨rfl, rfl, rfl⟩
    · rintro e e' - name v hv
      exact absurd hv (hseed v)

def Rules.lookups : Rules := ⟨fun n => n.isAssign = false, fun _ => False, fun _ => False⟩

theorem Environment.Confined.eval_lookups (hconf : a.Confined library .lookups)
    (hab : a.SameLookups b) {e : Expr} (he : e.AssignFree) (fuel : Nat) :
    ∃ result calls, e.eval library fuel a = ⟨result, a, calls⟩ ∧
      e.eval library fuel b = ⟨result, b, calls⟩ := by
  obtain ⟨c, hrules, hlib, hlockstep⟩ := hconf.lockstep hab (fun hnode => by cases hnode)
    (fun _ hassigned => hassigned.elim) fun _ hseeded => hseeded
  have hnodes : ∀ n ∈ e.nodes, c.node n := by
    rw [hrules]
    exact he
  exact exists_run_of_simulates (hlockstep.eval hlib fuel hnodes)

theorem eval_eq_of_sameLookups (hab : a.SameLookups b) (hconf : a.Confined library .lookups)
    {e : Expr} (he : e.AssignFree) (fuel : Nat) :
    ∃ result calls, e.eval library fuel a = ⟨result, a, calls⟩ ∧
      e.eval library fuel b = ⟨result, b, calls⟩ ∧
      ∀ readOnly,
        e.eval library fuel (a.push readOnly) = ⟨result, a.push readOnly, calls⟩ ∧
        e.eval library fuel (a.flatten readOnly) = ⟨result, a.flatten readOnly, calls⟩ := by
  obtain ⟨result, calls, hleft, hright⟩ := hconf.eval_lookups hab he fuel
  have heval : ∀ other, a.SameLookups other →
      e.eval library fuel other = ⟨result, other, calls⟩ := by
    intro other hother
    obtain ⟨result', calls', hleft', hright'⟩ := hconf.eval_lookups hother he fuel
    cases hleft.symm.trans hleft'
    exact hright'
  refine ⟨result, calls, hleft, hright, fun readOnly => ⟨?_, ?_⟩⟩
  · exact heval _ (.push a readOnly)
  · exact heval _ (.flatten a readOnly)

-- One environment has three scopes, the other has two and shadows a name in the outer one.
theorem eval_eq_of_sameLookups_shadowed :
    let library : Library := fun id _ =>
      match id.index with
      | 0 => .lookup "x" none fun found => .done (.ok (found.getD (.bool false)))
      | 1 => .evaluate (Build.call (Build.name "get") []) .done
      | _ => .assign ["x"] (.bool true) fun _ => .done (.ok (.bool true))
    let get : Function := .plain "get" ⟨0⟩
    let size : Function := .method "size" ⟨1⟩
    let outer := ((Environment.root true).bind "x" (.text "1")).defineMethod .text size
    let a := ((outer.push false).bind "get" (.function get)).push true
    let below := (Environment.root false).bind "x" (.text "0")
    let b := (((below.push false).bind "x" (.text "1")).bind "get" (.function get)).defineMethod
      .text size
    let formula := Build.binary (Build.call (Build.name "get") []) .eq
      (Build.call (Build.member (Build.string "'x'") "size") [])
    a.SameLookups b ∧ a.Confined library .lookups ∧ formula.AssignFree ∧
      ∀ fuel, ∃ result calls, formula.eval library fuel a = ⟨result, a, calls⟩ ∧
        formula.eval library fuel b = ⟨result, b, calls⟩ := by
  intro library get size outer a below b formula
  have hsame : a.SameLookups b := by
    refine ⟨fun name => ?_, fun t _ name => ?_⟩
    · simp only [a, b, outer, below, Environment.name?_bind, Environment.name?_push,
        Environment.name?_defineMethod, Environment.name?_root]
      by_cases hx : "x" = name
      · simp only [hx, if_true]
      · simp only [hx, if_false]
    · simp only [a, b, outer, below, Environment.method?_bind, Environment.method?_push,
        Environment.method?_defineMethod, Environment.method?_root]
  have hconf : a.Confined library .lookups := by
    refine ⟨fun id => id.index < 2, fun name v hv => ?_, fun t _ name f hf => ?_, ?_⟩
    · simp only [a, outer, Environment.name?_bind, Environment.name?_push,
        Environment.name?_defineMethod, Environment.name?_root] at hv
      split at hv
      · cases hv
        exact .function (by decide) fun v hv => nomatch hv
      · split at hv
        · cases hv
          exact .text "1"
        · cases hv
    · simp only [a, outer, Environment.method?_bind, Environment.method?_push,
        Environment.method?_defineMethod, Environment.method?_root] at hf
      split at hf
      · cases hf
        exact .function (by decide) fun v hv => nomatch hv
      · cases hf
    · rintro ⟨index⟩ args hindex -
      match index, hindex with
      | 0, _ =>
        refine .lookup fun found hfound => .done fun v hv => ?_
        cases found with
        | none => exact Except.ok.inj hv ▸ .bool false
        | some w => exact Except.ok.inj hv ▸ hfound w rfl
      | 1, _ =>
        have hget : (Build.call (Build.name "get") []).AssignFree := by decide
        exact .evaluate hget fun answer hanswer => .done hanswer
  have hfree : formula.AssignFree := by decide
  refine ⟨hsame, hconf, hfree, fun fuel => ?_⟩
  obtain ⟨result, calls, ha, hb, -⟩ := eval_eq_of_sameLookups hsame hconf hfree fuel
  exact ⟨result, calls, ha, hb⟩

end ScopedFormulas
