import ModelGraph.Proofs.Machine.Congruence

/-!
# Traces over catalogs without schemas

A trace whose catalog has no schemas goes unnoticed: scripts do what they do without it, and it
records nothing. The two ways nest differently, since a trace runs the call inside `NumToTensor`
itself; so each way is followed with a depth that is enough for the other.
-/

namespace ModelGraph

open Exec
open Script (Expr Statement)

namespace Host

/-- The trace `t` makes no difference to the action, and the action none to the trace. A depth that
is enough without the trace is enough with it, and twice a depth that is enough with it is enough
without. -/
structure Unnoticed {α : Type} (t : Tracer) (action : Host → Exec α) (m : Machine) : Prop where
  of_untraced : ∀ depth, ((action (ofDepth depth)).outcome m).1 ≠ .error .tooDeep →
    (action (ofDepth depth)).outcome (m.withTracer (some t)) =
      (((action (ofDepth depth)).outcome m).1,
        ((action (ofDepth depth)).outcome m).2.withTracer (some t))
  of_traced : ∀ depth,
    ((action (ofDepth depth)).outcome (m.withTracer (some t))).1 ≠ .error .tooDeep →
    (action (ofDepth depth)).outcome (m.withTracer (some t)) =
      (((action (ofDepth (2 * depth))).outcome m).1,
        ((action (ofDepth (2 * depth))).outcome m).2.withTracer (some t))

end Host

/-- `x` without a trace and `y` under the trace `t` come to the same, and the trace stays as it is,
unless `x` ends in an error of the first kind or `y` in one of the second. -/
def Mirrors (t : Tracer) (mine theirs : RunError → Prop) ⦃α : Type⦄ (x y : Exec α) : Prop :=
  ∀ m : Machine, m.tracer? = none →
    (∃ e, mine e ∧ (x.outcome m).1 = .error e) ∨
    (∃ e, theirs e ∧ (y.outcome (m.withTracer (some t))).1 = .error e) ∨
    ((x.outcome m).2.tracer? = none ∧
      y.outcome (m.withTracer (some t)) = ((x.outcome m).1, (x.outcome m).2.withTracer (some t)))

namespace Mirrors

variable {t : Tracer} {mine theirs : RunError → Prop} {α : Type}

theorem congruence : Congruence (Mirrors t mine theirs) where
  plain hx _ hm := .inr (.inr ⟨(hx.tracer?_eq _).trans hm, hx.outcome_withTracer _ _⟩)
  bind {_ _ x y f g} hx hf m hm := by
    rcases hx m hm with ⟨e, he, hxe⟩ | ⟨e, he, hye⟩ | ⟨hclear, hxy⟩
    · refine .inl ⟨e, he, ?_⟩
      rw [outcome_bind_error (Prod.ext hxe rfl)]
    · refine .inr (.inl ⟨e, he, ?_⟩)
      rw [outcome_bind_error (Prod.ext hye rfl)]
    · rcases hxm : x.outcome m with ⟨e | a, m'⟩ <;> rw [hxm] at hclear hxy
      · rw [outcome_bind_error hxm, outcome_bind_error hxy]
        exact .inr (.inr ⟨hclear, rfl⟩)
      · rw [outcome_bind_ok hxm, outcome_bind_ok hxy]
        exact hf a m' hclear

theorem registers (name : String) (id : Nat) :
    Mirrors t mine theirs (register name id) (register name id) :=
  fun _ hm => .inr (.inr ⟨hm, rfl⟩)

theorem of_error {x y : Exec α} {e : RunError} (he : mine e) (hx : ∀ m, (x.outcome m).1 = .error e) :
    Mirrors t mine theirs x y :=
  fun m _ => .inl ⟨e, he, hx m⟩

theorem of_error_traced {x y : Exec α} {e : RunError} (he : theirs e)
    (hy : ∀ m, (y.outcome m).1 = .error e) : Mirrors t mine theirs x y :=
  fun _ _ => .inr (.inl ⟨e, he, hy _⟩)

theorem congr_left {x x' y : Exec α} (h : ∀ m, m.tracer? = none → x.outcome m = x'.outcome m)
    (hx : Mirrors t mine theirs x' y) : Mirrors t mine theirs x y := by
  intro m hm
  rw [h m hm]
  exact hx m hm

theorem congr_right {x y y' : Exec α} (h : ∀ m, m.tracer? = some t → y.outcome m = y'.outcome m)
    (hx : Mirrors t mine theirs x y') : Mirrors t mine theirs x y := by
  intro m hm
  rw [h _ rfl]
  exact hx m hm

end Mirrors

/-! ## Call expressions -/

namespace Host

/-- A call as it is made without a trace: the arguments, then what is called. -/
def plainCall (host : Host) (target : Expr) (unevaluated : List (Option String × Expr))
    (scope : Scope) : Exec Value := do
  host.callTarget target (← host.arguments scope unevaluated) scope

/-- A call around another call: the arguments of the inner one, the inner one, the outer one. -/
def nestedCall (below above : Host) (innerTarget : Expr)
    (innerArguments : List (Option String × Expr)) (target : Expr) (scope : Scope) : Exec Value := do
  let evaluated ← below.arguments scope innerArguments
  let v ← below.callTarget innerTarget evaluated scope
  above.callTarget target { positional := [v] } scope

theorem innerCall?_eq_some {path member name : String} {arguments : List (Option String × Expr)}
    {innerTarget : Expr} {innerArguments : List (Option String × Expr)}
    (h : innerCall? path member arguments = some (name, innerTarget, innerArguments)) :
    arguments = [(none, .call innerTarget innerArguments)] := by
  unfold innerCall? at h
  split at h
  · split at h
    · simp only [Option.map_eq_some_iff, Prod.mk.injEq] at h
      obtain ⟨_, _, -, rfl, rfl⟩ := h
      rfl
    · contradiction
  · contradiction

theorem outcome_callExpression_untraced (host : Host) (target : Expr)
    (unevaluated : List (Option String × Expr)) (scope : Scope) {m : Machine}
    (hm : m.tracer? = none) :
    (host.callExpression target unevaluated scope).outcome m =
      (host.plainCall target unevaluated scope).outcome m := by
  unfold callExpression
  rw [outcome_bind_ok (outcome_get m), hm]
  rfl

theorem outcome_callExpression_traced (host : Host) (target : Expr)
    (unevaluated : List (Option String × Expr)) (scope : Scope) {m : Machine} {t : Tracer}
    (hm : m.tracer? = some t) :
    (host.callExpression target unevaluated scope).outcome m =
      (do
        match ← host.traceCall target unevaluated scope with
        | some v => return v
        | none => host.plainCall target unevaluated scope : Exec Value).outcome m := by
  unfold callExpression
  rw [outcome_bind_ok (outcome_get m), hm]
  rfl

theorem outcome_tracedSchemas {m : Machine} {t : Tracer} (hm : m.tracer? = some t) (name : String) :
    (tracedSchemas name).outcome m = (.ok (t.catalog.schemas name), m) := by
  unfold tracedSchemas
  rw [outcome_bind_ok (outcome_get m), hm]
  rfl

theorem plainCall_singleton (host : Host) (target e : Expr) (scope : Scope) :
    host.plainCall target [(none, e)] scope =
      (do host.callTarget target { positional := [← host.evaluate e scope] } scope) := by
  simp [plainCall, arguments]

/-- Without schemas, a call that is not around another is made as it is without a trace. -/
theorem outcome_callExpression_silent {t : Tracer} (ht : ∀ name, t.catalog.schemas name = [])
    (host : Host) {target : Expr} {unevaluated : List (Option String × Expr)}
    (htarget : ∀ inner member path, target = .attr inner member → inner.dottedName? = some path →
      innerCall? path member unevaluated = none)
    (scope : Scope) {m : Machine} (hm : m.tracer? = some t) :
    (host.callExpression target unevaluated scope).outcome m =
      (host.plainCall target unevaluated scope).outcome m := by
  have hnone : (host.traceCall target unevaluated scope).outcome m = (.ok none, m) := by
    unfold traceCall
    split
    · next inner member =>
      dsimp only
      split
      · next path hpath =>
        rw [htarget inner member path rfl hpath, outcome_bind_ok (outcome_tracedSchemas hm _), ht]
        rfl
      · rfl
    · rfl
  rw [outcome_callExpression_traced host target unevaluated scope hm, outcome_bind_ok hnone]

theorem outcome_plainCall_nested (below : Host) (run : Value → Value → Value → Exec Value)
    (innerTarget : Expr) (innerArguments : List (Option String × Expr)) (target : Expr)
    (scope : Scope) {m : Machine} (hm : m.tracer? = none) :
    ((below.stepWith run).plainCall target [(none, .call innerTarget innerArguments)] scope).outcome
        m =
      (below.nestedCall (below.stepWith run) innerTarget innerArguments target scope).outcome m := by
  have hinner : ((below.stepWith run).evaluate (.call innerTarget innerArguments) scope).outcome m =
      (below.plainCall innerTarget innerArguments scope).outcome m :=
    below.outcome_callExpression_untraced innerTarget innerArguments scope hm
  rw [plainCall_singleton, outcome_bind, hinner, ← outcome_bind]
  simp only [plainCall, nestedCall, bind_assoc]

/-- What a trace makes of a call around another once the inner arguments are evaluated. -/
def matchNested (host : Host) (name : String) (innerTarget target : Expr) (scope : Scope)
    (evaluated : Arguments) : Exec Value := do
  match ← matchSchemas name evaluated true (← tracedSchemas name) with
  | some v => return v
  | none =>
    let v ← host.callTarget innerTarget evaluated scope
    host.callTarget target { positional := [v] } scope

theorem outcome_callExpression_nested (host : Host) {inner : Expr} {member path name : String}
    {unevaluated : List (Option String × Expr)} {innerTarget : Expr}
    {innerArguments : List (Option String × Expr)} (hpath : inner.dottedName? = some path)
    (hinner : innerCall? path member unevaluated = some (name, innerTarget, innerArguments))
    (scope : Scope) {m : Machine} {t : Tracer} (hm : m.tracer? = some t) :
    (host.callExpression (.attr inner member) unevaluated scope).outcome m =
      (do
        let evaluated ← host.arguments scope innerArguments
        host.matchNested name innerTarget (.attr inner member) scope evaluated).outcome m := by
  rw [outcome_callExpression_traced host _ unevaluated scope hm]
  simp only [traceCall, matchNested, hpath, hinner, bind_assoc]
  congr 2
  funext evaluated
  congr 1
  funext schemas
  congr 1
  funext found
  cases found <;> simp

theorem outcome_matchNested_silent {t : Tracer} (ht : ∀ name, t.catalog.schemas name = [])
    (host : Host) (name : String) (innerTarget target : Expr) (scope : Scope)
    (evaluated : Arguments) {m : Machine} (hm : m.tracer? = some t) :
    (host.matchNested name innerTarget target scope evaluated).outcome m =
      (do
        let v ← host.callTarget innerTarget evaluated scope
        host.callTarget target { positional := [v] } scope).outcome m := by
  unfold matchNested
  rw [outcome_bind_ok (outcome_tracedSchemas hm _), ht]
  rfl

end Host

/-- The host fails with an error of the kind, or is a step above one. -/
def Host.Above (R : ∀ ⦃α : Type⦄, Exec α → Exec α → Prop) (mine : RunError → Prop)
    (host host' : Host) : Prop :=
  host = .exhausted ∧ mine .tooDeep ∨
    ∃ below run, host = below.stepWith run ∧ Host.Related R below host'

theorem Mirrors.callExpression {t : Tracer} (ht : ∀ name, t.catalog.schemas name = [])
    {mine theirs : RunError → Prop} {host host' : Host}
    (hosts : Host.Related (Mirrors t mine theirs) host host')
    (habove : Host.Above (Mirrors t mine theirs) mine host host') (target : Expr)
    (unevaluated : List (Option String × Expr)) (scope : Scope) :
    Mirrors t mine theirs (host.callExpression target unevaluated scope)
      (host'.callExpression target unevaluated scope) := by
  have c : Congruence (Mirrors t mine theirs) := congruence
  refine congr_left (fun m hm => host.outcome_callExpression_untraced target unevaluated scope hm) ?_
  by_cases hnested : ∃ inner member path found, target = .attr inner member ∧
      inner.dottedName? = some path ∧ Host.innerCall? path member unevaluated = some found
  · obtain ⟨inner, member, path, ⟨name, innerTarget, innerArguments⟩, rfl, hpath, hinner⟩ := hnested
    refine congr_right
      (fun m hm => host'.outcome_callExpression_nested hpath hinner scope hm) ?_
    rw [Host.innerCall?_eq_some hinner]
    rcases habove with ⟨rfl, hdeep⟩ | ⟨below, run, rfl, hbelow⟩
    · exact of_error hdeep fun _ => rfl
    · refine congr_left (fun m hm => below.outcome_plainCall_nested run _ _ _ scope hm) ?_
      refine c.bind (c.arguments hbelow scope innerArguments) fun evaluated => ?_
      refine congr_right
        (fun m hm => host'.outcome_matchNested_silent ht name _ _ scope evaluated hm) ?_
      exact c.bind (c.callTarget hbelow innerTarget evaluated scope) fun v =>
        c.callTarget hosts _ _ scope
  · refine congr_right (fun m hm => Host.outcome_callExpression_silent ht host' ?_ scope hm) ?_
    · intro inner member path htarget hpath
      refine Option.eq_none_iff_forall_ne_some.mpr fun found hfound => ?_
      exact hnested ⟨inner, member, path, found, htarget, hpath, hfound⟩
    · exact c.bind (c.arguments hosts scope unevaluated) fun evaluated =>
        c.callTarget hosts target evaluated scope

/-! ## Depths -/

namespace Mirrors

variable {t : Tracer} (ht : ∀ name, t.catalog.schemas name = []) {mine theirs : RunError → Prop}
include ht

theorem related_succ (e : RunError) {left right : Nat}
    (hosts : Host.Related (Mirrors t mine theirs) (.ofDepthWith (fun _ _ _ => throw e) left)
      (.ofDepth right))
    (habove : Host.Above (Mirrors t mine theirs) mine (.ofDepthWith (fun _ _ _ => throw e) left)
      (.ofDepth right)) (he : mine e) :
    Host.Related (Mirrors t mine theirs) (.ofDepthWith (fun _ _ _ => throw e) (left + 1))
      (.ofDepth (right + 1)) := by
  rw [← Host.ofDepthWith_run (right + 1), Host.ofDepthWith, Host.ofDepthWith, Host.ofDepthWith_run]
  exact congruence.stepWith hosts (fun _ _ _ => of_error he fun _ => rfl)
    (callExpression ht hosts habove)
    fun name => congruence.loadPackage hosts name (registers name)

/-- A depth that is enough without the trace is enough with it. -/
theorem related_of_le (right : Nat) {left : Nat} (hle : left ≤ right) :
    Host.Related (Mirrors t (· = .tooDeep) fun _ => False)
      (.ofDepthWith (fun _ _ _ => throw .tooDeep) left) (.ofDepth right) := by
  induction right generalizing left with
  | zero =>
      obtain rfl := Nat.le_zero.mp hle
      constructor <;> intros <;> exact of_error rfl fun _ => rfl
  | succ right ih =>
      cases left with
      | zero => constructor <;> intros <;> exact of_error rfl fun _ => rfl
      | succ left =>
          have hbelow : left ≤ right := Nat.le_of_succ_le_succ hle
          refine related_succ ht .tooDeep (ih hbelow) ?_ rfl
          cases left with
          | zero => exact .inl ⟨rfl, rfl⟩
          | succ left => exact .inr ⟨_, _, rfl, ih (Nat.le_of_succ_le hbelow)⟩

/-- Twice a depth that is enough with the trace is enough without it. -/
theorem related_of_two_mul_le (e : RunError) (right : Nat) {left : Nat} (hle : 2 * right ≤ left) :
    Host.Related (Mirrors t (· = e) (· = .tooDeep)) (.ofDepthWith (fun _ _ _ => throw e) left)
      (.ofDepth right) := by
  induction right generalizing left with
  | zero => constructor <;> intros <;> exact of_error_traced rfl fun _ => rfl
  | succ right ih =>
      obtain ⟨below, rfl⟩ := Nat.exists_eq_add_of_le' (show 2 ≤ left by omega)
      have hbelow : 2 * right ≤ below := by omega
      exact related_succ ht e (ih (Nat.le_succ_of_le hbelow)) (.inr ⟨_, _, rfl, ih hbelow⟩) rfl

end Mirrors

/-- An action that runs no compiled model does not notice a trace without schemas. -/
theorem Host.NeverRuns.unnoticed {α : Type} {action : Host → Exec α} {m : Machine}
    (hnever : Host.NeverRuns action m) (hcomposes : Host.Composes action) (hm : m.tracer? = none)
    {t : Tracer} (ht : ∀ name, t.catalog.schemas name = []) : Host.Unnoticed t action m where
  of_untraced depth hdeep := by
    have hmirrors := hcomposes Mirrors.congruence (Mirrors.related_of_le ht depth (Nat.le_refl _)) m hm
    rw [hnever] at hmirrors
    rcases hmirrors with ⟨e, rfl, he⟩ | ⟨e, hfalse, -⟩ | ⟨-, hsame⟩
    · exact absurd he hdeep
    · exact hfalse.elim
    · exact hsame
  of_traced depth hdeep := by
    have hmirrors (e : RunError) := hcomposes Mirrors.congruence
      (Mirrors.related_of_two_mul_le ht e depth (Nat.le_refl _)) m hm
    simp only [hnever _ _] at hmirrors
    -- The error that stands for the run of a compiled model may be any, so it is none.
    rcases hmirrors .tooDeep with ⟨e, rfl, he⟩ | ⟨e, rfl, he⟩ | ⟨-, hsame⟩
    · rcases hmirrors (.raised "") with ⟨e', rfl, he'⟩ | ⟨e', rfl, he'⟩ | ⟨-, hsame⟩
      · rw [he] at he'
        cases he'
      · exact absurd he' hdeep
      · exact hsame
    · exact absurd he hdeep
    · exact hsame

/-- Tracing over a catalog without schemas changes nothing and records nothing: expressions and
blocks that run no compiled model come to the same result on the same machine, errors included. The
call inside `NumToTensor` is made of the same steps with a trace and without: each of its arguments
in turn, the call itself, the outer call. -/
theorem unnoticed_of_no_schemas {t : Tracer} (ht : ∀ name, t.catalog.schemas name = [])
    {m : Machine} (hm : m.tracer? = none) (scope : Scope) :
    (∀ e, Host.NeverRuns (·.evaluate e scope) m → Host.Unnoticed t (·.evaluate e scope) m) ∧
    (∀ statements, Host.NeverRuns (·.block statements scope) m →
      Host.Unnoticed t (·.block statements scope) m) ∧
    (∀ (host : Host) {inner innerTarget : Expr} {path member name : String}
      {unevaluated innerArguments : List (Option String × Expr)}, inner.dottedName? = some path →
      Host.innerCall? path member unevaluated = some (name, innerTarget, innerArguments) →
      (host.step.callExpression (.attr inner member) unevaluated scope).outcome m =
        (host.nestedCall host.step innerTarget innerArguments (.attr inner member) scope).outcome m ∧
      (((host.arguments scope innerArguments).outcome (m.withTracer (some t))).2.tracer? = some t →
        (host.callExpression (.attr inner member) unevaluated scope).outcome
            (m.withTracer (some t)) =
          (host.nestedCall host innerTarget innerArguments (.attr inner member) scope).outcome
            (m.withTracer (some t)))) := by
  refine ⟨fun e hnever => ?_, fun statements hnever => ?_, ?_⟩
  · exact hnever.unnoticed (Host.composes_evaluate e scope) hm ht
  · exact hnever.unnoticed (Host.composes_block statements scope) hm ht
  · intro host inner innerTarget path member name unevaluated innerArguments hpath hinner
    constructor
    · rw [Host.outcome_callExpression_untraced _ _ _ _ hm, Host.innerCall?_eq_some hinner,
        ← host.stepWith_run]
      exact host.outcome_plainCall_nested _ _ _ _ scope hm
    · intro hkept
      rw [host.outcome_callExpression_nested hpath hinner scope rfl, Host.nestedCall, outcome_bind,
        outcome_bind]
      split
      · next evaluated m' hevaluated =>
        rw [hevaluated] at hkept
        exact host.outcome_matchNested_silent ht name _ _ scope evaluated hkept
      · rfl

/-- A machine that knows `torch.numel` and `ops.prim.NumToTensor`. -/
def Machine.nested : Machine where
  heap := ⟨#[
    .namespace { fields := ⟨[("torch", .ref 1), ("ops", .ref 2)]⟩ },
    .namespace { fields := ⟨[("numel", .ref 3)]⟩ },
    .namespace { fields := ⟨[("prim", .ref 4)]⟩ },
    .function { module := "torch", name := "numel", kind := .native .length, method := false },
    .namespace { fields := ⟨[("NumToTensor", .ref 5)]⟩ },
    .function
      { module := "ops.prim", name := "NumToTensor", kind := .native .numToTensor, method := false }]⟩

/-- `ops.prim.NumToTensor(torch.numel([]))` -/
def Script.Expr.nested : Expr :=
  .call (.attr (.attr (.id "ops") "prim") "NumToTensor")
    [(none, .call (.attr (.id "torch") "numel") [(none, .list [])])]

theorem unnoticed_nested :
    (∀ name, ({ catalog := .empty } : Tracer).catalog.schemas name = []) ∧
    Machine.nested.tracer? = none ∧
    Host.NeverRuns (·.evaluate .nested rootScope) Machine.nested ∧
    Host.Unnoticed { catalog := .empty } (·.evaluate .nested rootScope) Machine.nested := by
  have hempty (name : String) : ({ catalog := .empty } : Tracer).catalog.schemas name = [] := rfl
  have hraised : RunError.raised "" ≠ .tooDeep := by decide
  have hends (e : RunError) : (((Host.ofDepthWith (fun _ _ _ => throw (.raised "")) 4).evaluate
      .nested rootScope).outcome Machine.nested).1 ≠ .error e := by
    have hok : (((Host.ofDepthWith (fun _ _ _ => throw (.raised "")) 4).evaluate
        .nested rootScope).outcome Machine.nested).1.toOption.isSome := by decide +kernel
    intro hend
    rw [hend] at hok
    contradiction
  have hnever : Host.NeverRuns (·.evaluate .nested rootScope) Machine.nested :=
    (Host.composes_evaluate .nested rootScope).neverRuns 4 hraised (hends _) (hends _)
  exact ⟨hempty, rfl, hnever, (unnoticed_of_no_schemas hempty rfl rootScope).1 .nested hnever⟩

end ModelGraph
