import Mathlib.Data.List.Forall2
import ScopedFormulas.Evaluation.Basic

/-!
Two runs side by side. A comparison says which environments and which stops correspond, and
computations simulate each other when corresponding environments give runs that end alike. There
is one rule for each way to build a computation.
-/

namespace ScopedFormulas

namespace EvalM

variable {α β : Type} {x : EvalM α} {f : α → EvalM β} {env : Environment}

theorem bind_of_ok {a : α} (h : (x env).result = .ok a) :
    (x >>= f) env = ⟨(f a (x env).env).result, (f a (x env).env).env,
      (x env).calls ++ (f a (x env).env).calls⟩ := by
  change EvalM.bind x f env = _
  simp only [EvalM.bind, h]

theorem bind_of_error {s : Stop} (h : (x env).result = .error s) :
    (x >>= f) env = ⟨.error s, (x env).env, (x env).calls⟩ := by
  change EvalM.bind x f env = _
  simp only [EvalM.bind, h]

theorem read_bind (g : Environment → α) (f : α → EvalM β) (env : Environment) :
    (read g >>= f) env = f (g env) env := bind_of_ok rfl

theorem exists_of_bind_eq_ok {b : β} (h : ((x >>= f) env).result = .ok b) :
    ∃ a, (x env).result = .ok a ∧ (f a (x env).env).result = .ok b ∧
      ((x >>= f) env).env = (f a (x env).env).env := by
  cases hx : (x env).result with
  | ok a =>
    rw [bind_of_ok hx] at h ⊢
    exact ⟨a, rfl, h, rfl⟩
  | error s =>
    rw [bind_of_error hx] at h
    cases h

theorem of_bind_eq_error {s : Stop} (h : ((x >>= f) env).result = .error s) :
    (x env).result = .error s ∨
      ∃ a, (x env).result = .ok a ∧ (f a (x env).env).result = .error s := by
  cases hx : (x env).result with
  | ok a =>
    rw [bind_of_ok hx] at h
    exact .inr ⟨a, rfl, h⟩
  | error t =>
    rw [bind_of_error hx] at h
    cases h
    exact .inl rfl

end EvalM

/-- A call is one entry of the log and then one run of the body: the answer, the writes and the rest
of the log are those of the body. -/
theorem Library.call_succ (library : Library) (fuel : Nat) (f : Function) (args : List Value)
    (env : Environment) :
    let body := (library f.body (f.arguments args)).run (library.call fuel) env
    library.call (fuel + 1) f args env =
      ⟨body.result, body.env, ⟨f, f.arguments args⟩ :: body.calls⟩ :=
  EvalM.bind_of_ok rfl

structure Comparison where
  env : Environment → Environment → Prop
  stop : Stop → Stop → Prop
  /-- Stops of one run that release the other. -/
  excused : Stop → Prop

namespace Comparison

variable {C : Comparison} {α β α' β' : Type}

inductive Alike (C : Comparison) (A : α → β → Prop) (r : Run α) (r' : Run β) : Prop where
  | ok {a : α} {b : β} (left : r.result = .ok a) (right : r'.result = .ok b) (value : A a b)
    (env : C.env r.env r'.env) (calls : r.calls = r'.calls)
  | stop {s t : Stop} (left : r.result = .error s) (right : r'.result = .error t) (stop : C.stop s t)
    (env : C.env r.env r'.env) (calls : r.calls = r'.calls)
  | excusedLeft {s : Stop} (left : r.result = .error s) (excused : C.excused s)
  | excusedRight {s : Stop} (right : r'.result = .error s) (excused : C.excused s)

def Simulates (C : Comparison) (A : α → β → Prop) (x : EvalM α) (y : EvalM β) : Prop :=
  ∀ e e', C.env e e' → C.Alike A (x e) (y e')

namespace Simulates

variable {A : α → β → Prop} {B : α' → β' → Prop} {x : EvalM α} {y : EvalM β}

theorem pure {a : α} {b : β} (h : A a b) : C.Simulates A (Pure.pure a) (Pure.pure b) :=
  fun _ _ he => .ok rfl rfl h he rfl

theorem stop {s t : Stop} (h : C.stop s t) :
    C.Simulates A (EvalM.stop s : EvalM α) (EvalM.stop t : EvalM β) :=
  fun _ _ he => .stop rfl rfl h he rfl

theorem read {f : Environment → α} {g : Environment → β}
    (h : ∀ e e', C.env e e' → A (f e) (g e')) :
    C.Simulates A (EvalM.read f) (EvalM.read g) :=
  fun e e' he => .ok rfl rfl (h e e' he) he rfl

theorem modify {f : Environment → α × Environment} {g : Environment → β × Environment}
    (h : ∀ e e', C.env e e' → A (f e).1 (g e').1 ∧ C.env (f e).2 (g e').2) :
    C.Simulates A (EvalM.modify f) (EvalM.modify g) :=
  fun e e' he => .ok rfl rfl (h e e' he).1 (h e e' he).2 rfl

theorem mono {B : α → β → Prop} (h : C.Simulates A x y) (hAB : ∀ a b, A a b → B a b) :
    C.Simulates B x y := by
  intro e e' he
  cases h e e' he with
  | ok left right value env calls => exact .ok left right (hAB _ _ value) env calls
  | stop left right stop env calls => exact .stop left right stop env calls
  | excusedLeft left excused => exact .excusedLeft left excused
  | excusedRight right excused => exact .excusedRight right excused

theorem record (call : Invocation) :
    C.Simulates Eq (EvalM.record call) (EvalM.record call) :=
  fun _ _ he => .ok rfl rfl rfl he rfl

theorem bind {f : α → EvalM α'} {g : β → EvalM β'} (hx : C.Simulates A x y)
    (hf : ∀ a b, A a b → C.Simulates B (f a) (g b)) : C.Simulates B (x >>= f) (y >>= g) := by
  intro e e' he
  cases hx e e' he with
  | ok left right value env calls =>
    rw [EvalM.bind_of_ok left, EvalM.bind_of_ok right]
    cases hf _ _ value _ _ env with
    | ok left' right' value' env' calls' =>
      exact .ok left' right' value' env' (by rw [calls, calls'])
    | stop left' right' stop' env' calls' =>
      exact .stop left' right' stop' env' (by rw [calls, calls'])
    | excusedLeft left' excused => exact .excusedLeft left' excused
    | excusedRight right' excused => exact .excusedRight right' excused
  | stop left right stop env calls =>
    rw [EvalM.bind_of_error left, EvalM.bind_of_error right]
    exact .stop rfl rfl stop env calls
  | excusedLeft left excused =>
    rw [EvalM.bind_of_error left]
    exact .excusedLeft rfl excused
  | excusedRight right excused =>
    rw [EvalM.bind_of_error right]
    exact .excusedRight rfl excused

end Simulates

def exact (E : Environment → Environment → Prop) : Comparison := ⟨E, Eq, fun _ => False⟩

def Shared (p : α → Prop) (a b : α) : Prop := a = b ∧ p a

variable {E : Environment → Environment → Prop} {p : α → Prop} {x y : EvalM α}

theorem rel_shared_iff {o o' : Option α} :
    Option.Rel (Shared p) o o' ↔ o = o' ∧ ∀ a, o = some a → p a := by
  constructor
  · intro h
    cases h with
    | none => exact ⟨rfl, fun a ha => nomatch ha⟩
    | some h =>
      obtain ⟨rfl, hp⟩ := h
      exact ⟨rfl, fun a ha => Option.some.inj ha ▸ hp⟩
  · rintro ⟨rfl, hp⟩
    cases o with
    | none => exact .none
    | some a => exact .some ⟨rfl, hp a rfl⟩

theorem forall₂_shared_iff {l l' : List α} :
    List.Forall₂ (Shared p) l l' ↔ l = l' ∧ ∀ a ∈ l, p a := by
  constructor
  · intro h
    induction h with
    | nil => exact ⟨rfl, fun a ha => nomatch ha⟩
    | cons h _ ih =>
      obtain ⟨rfl, hp⟩ := h
      obtain ⟨rfl, hps⟩ := ih
      exact ⟨rfl, List.forall_mem_cons.mpr ⟨hp, hps⟩⟩
  · rintro ⟨rfl, hp⟩
    exact List.forall₂_same.mpr fun a ha => ⟨rfl, hp a ha⟩

theorem Simulates.ofExcept {result : Except EvalError α} (h : ∀ a, result = .ok a → p a) :
    (exact E).Simulates (Shared p) (EvalM.ofExcept result) (EvalM.ofExcept result) := by
  cases result with
  | ok a => exact .pure ⟨rfl, h a rfl⟩
  | error cause => exact .stop rfl

theorem Simulates.attempt (h : (exact E).Simulates (Shared p) x y) :
    (exact E).Simulates (Shared fun r => ∀ a, r = .ok a → p a) (EvalM.attempt x)
      (EvalM.attempt y) := by
  intro e e' he
  cases h e e' he with
  | @ok a b left right value env calls =>
    obtain ⟨rfl, hp⟩ := value
    simp only [EvalM.attempt, left, right]
    exact .ok rfl rfl ⟨rfl, fun a ha => Except.ok.inj ha ▸ hp⟩ env calls
  | @stop s t left right stop env calls =>
    obtain rfl : s = t := stop
    simp only [EvalM.attempt, left, right]
    cases s with
    | error cause => exact .ok rfl rfl ⟨rfl, fun a ha => nomatch ha⟩ env calls
    | outOfFuel => exact .stop rfl rfl rfl env calls
  | excusedLeft _ excused => exact excused.elim
  | excusedRight _ excused => exact excused.elim

theorem Simulates.exact {e e' : Environment} (h : (exact E).Simulates Eq x y) (he : E e e') :
    (x e).result = (y e').result ∧ (x e).calls = (y e').calls ∧ E (x e).env (y e').env := by
  cases h e e' he with
  | ok left right value env calls => exact ⟨by rw [left, right, value], calls, env⟩
  | stop left right stop env calls => exact ⟨by rw [left, right, show _ = _ from stop], calls, env⟩
  | excusedLeft _ excused => exact excused.elim
  | excusedRight _ excused => exact excused.elim

end Comparison

theorem exists_run_of_simulates {α : Type} {x y : EvalM α} {a b : Environment}
    (h : (Comparison.exact fun e e' => e = a ∧ e' = b).Simulates Eq x y) :
    ∃ result calls, x a = ⟨result, a, calls⟩ ∧ y b = ⟨result, b, calls⟩ := by
  obtain ⟨hresult, hcalls, hleft, hright⟩ := h.exact ⟨rfl, rfl⟩
  refine ⟨(x a).result, (x a).calls, ?_, ?_⟩
  · exact congrArg (fun env => Run.mk (x a).result env (x a).calls) hleft
  · rw [hresult, hcalls]
    exact congrArg (fun env => Run.mk (y b).result env (y b).calls) hright

end ScopedFormulas
