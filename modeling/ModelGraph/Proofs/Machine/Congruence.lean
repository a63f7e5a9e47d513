import Mathlib.Control.Lawful
import ModelGraph.Proofs.Machine.Builtin

/-!
# Relations that scripts keep

The actions of scripts are put together from plain ones and from those of a host. A relation between
actions that sequencing keeps, and in which plain actions stand to themselves, therefore passes from
the actions of two hosts to the actions that the next depth builds on them. What remains to be shown
for a relation are the two places where a trace is looked at, a call expression and the run of a
compiled model, and the noting of a package that begins to load.
-/

namespace ModelGraph

open Exec
open Script (Expr Statement)

/-- A relation that sequencing keeps and in which plain actions stand to themselves. -/
structure Congruence (R : ∀ ⦃α : Type⦄, Exec α → Exec α → Prop) : Prop where
  plain : ∀ {α : Type} {x : Exec α}, Plain True x → R x x
  bind : ∀ {α β : Type} {x y : Exec α} {f g : α → Exec β},
    R x y → (∀ a, R (f a) (g a)) → R (x >>= f) (y >>= g)

/-- The actions of one host stand to those of another. -/
structure Host.Related (R : ∀ ⦃α : Type⦄, Exec α → Exec α → Prop) (host host' : Host) : Prop where
  evaluate : ∀ e scope, R (host.evaluate e scope) (host'.evaluate e scope)
  block : ∀ statements scope, R (host.block statements scope) (host'.block statements scope)
  package : ∀ name, R (host.package name) (host'.package name)
  call : ∀ callee receiver arguments,
    R (host.call callee receiver arguments) (host'.call callee receiver arguments)

/-- The action is put together from plain ones and from those of the host. -/
def Host.Composes {α : Type} (action : Host → Exec α) : Prop :=
  ∀ ⦃R : ∀ ⦃α : Type⦄, Exec α → Exec α → Prop⦄, Congruence R →
    ∀ ⦃host host' : Host⦄, Host.Related R host host' → R (action host) (action host')

theorem Host.composes_evaluate (e : Expr) (scope : Scope) : Host.Composes (·.evaluate e scope) :=
  fun _ _ _ _ hosts => hosts.evaluate e scope

theorem Host.composes_block (statements : List Statement) (scope : Scope) :
    Host.Composes (·.block statements scope) :=
  fun _ _ _ _ hosts => hosts.block statements scope

namespace Congruence

variable {R : ∀ ⦃α : Type⦄, Exec α → Exec α → Prop} (c : Congruence R) {α β : Type}
include c

theorem pure (a : α) : R (Pure.pure a) (Pure.pure a) := c.plain (.pure a)

theorem after {x : Exec α} {f g : α → Exec β} (hx : Plain True x) (h : ∀ a, R (f a) (g a)) :
    R (x >>= f) (x >>= g) :=
  c.bind (c.plain hx) h

/-- Reading the machine is plain where the trace that was read is not used. -/
theorem afterGet {f g : Machine → Exec α} (hf : ∀ m, f (m.withTracer none) = f m)
    (hg : ∀ m, g (m.withTracer none) = g m) (h : ∀ m, R (f m) (g m)) :
    R (get >>= f) (get >>= g) := by
  have hview (f : Machine → Exec α) (hf : ∀ m, f (m.withTracer none) = f m) :
      (get >>= f) = (do return (← get).withTracer none) >>= f :=
    funext fun m => congrFun (hf m).symm m
  rw [hview f hf, hview g hg]
  exact c.after (.view fun _ _ => rfl) h

theorem mapM {γ : Type} {f g : γ → Exec α} (h : ∀ a, R (f a) (g a)) (items : List γ) :
    R (items.mapM f) (items.mapM g) := by
  induction items with
  | nil => exact c.pure []
  | cons a rest ih =>
      rw [List.mapM_cons, List.mapM_cons]
      exact c.bind (h a) fun _ => c.bind ih fun _ => c.pure _

theorem forIn {γ : Type} {f g : γ → β → Exec (ForInStep β)} (h : ∀ a b, R (f a b) (g a b))
    (items : List γ) (start : β) : R (forIn items start f) (forIn items start g) := by
  induction items generalizing start with
  | nil => exact c.pure start
  | cons a rest ih =>
      rw [List.forIn_cons, List.forIn_cons]
      refine c.bind (h a start) fun result => ?_
      cases result with
      | done b => exact c.pure b
      | yield b => exact ih b

section

variable {host host' : Host} (hosts : Host.Related R host host')
include hosts

/-! ## Names and calls -/

theorem typeOf (name : String) : R (host.typeOf name) (host'.typeOf name) := by
  refine c.after (.global? name) fun found => ?_
  dsimp only
  split
  · exact c.pure _
  · split
    · exact c.pure _
    · refine c.bind (hosts.package _) fun globals => ?_
      cases globals with
      | some globals => exact c.plain (.attribute? globals _)
      | none => exact c.pure _

theorem invoke (name : String) (arguments : List Value) :
    R (host.invoke name arguments) (host'.invoke name arguments) := by
  refine c.bind (c.typeOf hosts name) fun callee => ?_
  cases callee with
  | some callee => exact hosts.call callee none _
  | none => exact c.plain (.placeholder name)

theorem reconstruct (value : Value) :
    R (Builtin.reconstruct host value) (Builtin.reconstruct host' value) := by
  refine c.after .heap fun h => ?_
  split
  · exact c.plain (.construct _ _)
  · exact c.invoke hosts _ _
  · exact c.plain ((Plain.describe _).bind fun _ => .typeFault _)

theorem primitive {p : Primitive} (hp : p ≠ .compilationRun) (arguments : List Value) :
    R (host.primitive p arguments) (host'.primitive p arguments) := by
  cases hstarts : p.startsCalls with
  | false =>
      rw [host'.primitive_eq host hstarts]
      exact c.plain (.primitive host hstarts arguments)
  | true =>
      cases p with
      | reconstruct => exact c.reconstruct hosts _
      | rebuildParameter =>
          exact c.bind (c.invoke hosts _ _) fun made =>
            c.plain ((Plain.setAttribute made _ _).bind fun _ => .pure _)
      | rebuildFromType => exact c.after (.items _) fun items => hosts.call _ none _
      | compilationRun => contradiction
      | _ => contradiction

theorem bindParameters (globals scope : Scope) (named : List (String × Value))
    (parameters : List Script.Parameter) (positional : List Value) :
    R (host.bindParameters globals scope named parameters positional)
      (host'.bindParameters globals scope named parameters positional) := by
  induction parameters generalizing positional with
  | nil => exact c.pure ()
  | cons p rest ih =>
      cases positional with
      | cons v positional => exact c.after (.assign scope p.name v) fun _ => ih positional
      | nil =>
          unfold Host.bindParameters
          split
          · exact c.after (.pure _) fun v => c.after (.assign scope p.name v) fun _ => ih []
          · exact c.bind (hosts.evaluate _ _) fun v =>
              c.after (.assign scope p.name v) fun _ => ih []
          · exact c.after (.pure _) fun v => c.after (.assign scope p.name v) fun _ => ih []

theorem apply (definition : Script.Function) (globals : Scope) (arguments : Arguments) :
    R (host.apply definition globals arguments) (host'.apply definition globals arguments) := by
  refine c.after (.alloc (o := .namespace {}) trivial) fun locals => ?_
  refine c.bind (c.bindParameters hosts _ _ _ _ _) fun _ => c.bind (hosts.block _ _) fun flow => ?_
  cases flow <;> exact c.pure _

theorem resolvePath (path : String) (scope : Scope) :
    R (host.resolvePath path scope) (host'.resolvePath path scope) := by
  refine c.after .heap fun h => ?_
  split
  · exact c.pure _
  · exact c.bind (hosts.package path) fun _ => c.pure _

theorem receiver (e : Expr) (scope : Scope) : R (host.receiver e scope) (host'.receiver e scope) := by
  unfold Host.receiver
  split
  · exact c.resolvePath hosts _ scope
  · exact hosts.evaluate e scope

theorem arguments (scope : Scope) (unevaluated : List (Option String × Expr)) :
    R (host.arguments scope unevaluated) (host'.arguments scope unevaluated) := by
  induction unevaluated with
  | nil => exact c.pure _
  | cons argument rest ih =>
      obtain ⟨keyword, e⟩ := argument
      refine c.bind (hosts.evaluate e scope) fun v => c.bind ih fun others => ?_
      cases keyword <;> exact c.pure _

theorem callTarget (target : Expr) (arguments : Arguments) (scope : Scope) :
    R (host.callTarget target arguments scope) (host'.callTarget target arguments scope) := by
  have hunresolved : ∀ name, Plain True (Host.unresolvedCall name) := by
    intro name
    refine Plain.bind (x := do return (← get).diagnostics.isReported name)
      (f := fun reported => if reported = true then placeholder name
        else unsupported (.function name)) (.view fun _ _ => rfl) fun reported => ?_
    split
    · exact .placeholder name
    · exact .unsupported _
  unfold Host.callTarget
  split
  · refine c.bind (c.receiver hosts _ scope) fun object => c.after .heap fun h => ?_
    split
    · exact c.plain (.record _ _ _)
    · split
      · exact hosts.call _ _ arguments
      · refine c.bind (c.typeOf hosts _) fun callee => ?_
        split
        · exact hosts.call _ none arguments
        · exact c.plain (hunresolved _)
      · exact c.plain (.unsupported _)
  · refine c.bind (c.receiver hosts _ scope) fun callee => ?_
    split
    · exact c.plain (hunresolved _)
    · exact hosts.call callee none arguments
  · exact c.bind (hosts.evaluate target scope) fun callee => hosts.call callee none arguments

/-! ## Expressions -/

theorem subscript (target : Expr) (index : List Expr) (scope : Scope) :
    R (host.subscript target index scope) (host'.subscript target index scope) := by
  have hindices := c.mapM (fun e => hosts.evaluate e scope) index
  unfold Host.subscript
  dsimp only
  split
  case' h_1 => refine c.after .heap fun h => ?_
  all_goals
    refine c.after (.pure _) fun bound? => ?_
    cases bound?
    case' some v =>
      refine c.after (.pure v) fun container => c.bind hindices fun indices =>
        c.plain (Plain.heap.bind fun h => ?_)
    case' none =>
      refine c.bind (hosts.evaluate _ scope) fun container => c.bind hindices fun indices =>
        c.plain (Plain.heap.bind fun h => ?_)
    all_goals
      split
      · exact .alloc trivial
      · exact .pure _
      · exact .unsupported _

theorem evaluateStep (calls : ∀ target unevaluated scope,
      R (host.callExpression target unevaluated scope) (host'.callExpression target unevaluated scope))
    (e : Expr) (scope : Scope) : R (host.evaluateStep e scope) (host'.evaluateStep e scope) := by
  cases e with
  | id name => exact c.plain (Plain.heap.bind fun _ => .pure _)
  | str s => exact c.pure _
  | int i => exact c.pure _
  | float x => exact c.pure _
  | list items =>
      exact c.bind (c.mapM (fun e => hosts.evaluate e scope) items) fun _ => c.plain (.list _)
  | tuple items =>
      exact c.bind (c.mapM (fun e => hosts.evaluate e scope) items) fun _ => c.plain (.list _)
  | dict entries =>
      refine c.after (.dict _) fun made => c.bind (c.forIn (fun entry _ => ?_) entries _) fun _ =>
        c.pure _
      exact c.bind (hosts.evaluate _ scope) fun key => c.bind (hosts.evaluate _ scope) fun value =>
        c.plain ((Plain.modifyHeap fun h => h.grows_setItem made key value).bind fun _ => .pure _)
  | attr target member =>
      unfold Host.evaluateStep
      dsimp only
      split
      · exact c.resolvePath hosts _ scope
      · exact c.bind (hosts.evaluate target scope) fun object =>
          c.plain ((Plain.attribute? object member).bind fun _ => .pure _)
  | subscript target index => exact c.subscript hosts target index scope
  | call target unevaluated => exact calls target unevaluated scope

/-- A call expression passes where reading the machine and matching a call with schemas do. -/
theorem callExpression (reads : R (get : Exec Machine) get)
    (schemas : ∀ name arguments wantsInt candidates,
      R (matchSchemas name arguments wantsInt candidates)
        (matchSchemas name arguments wantsInt candidates))
    (target : Expr) (unevaluated : List (Option String × Expr)) (scope : Scope) :
    R (host.callExpression target unevaluated scope)
      (host'.callExpression target unevaluated scope) := by
  have htraced (name : String) : R (tracedSchemas name) (tracedSchemas name) := by
    refine c.bind reads fun m => ?_
    split
    · exact c.pure _
    · exact c.pure _
  have htrace : R (host.traceCall target unevaluated scope)
      (host'.traceCall target unevaluated scope) := by
    unfold Host.traceCall
    split
    · dsimp only
      split
      · split
        · refine c.bind (c.arguments hosts scope _) fun evaluated =>
            c.bind (htraced _) fun candidates => c.bind (schemas _ _ _ _) fun matched => ?_
          cases matched with
          | some v => exact c.pure _
          | none =>
              exact c.bind (c.callTarget hosts _ evaluated scope) fun v =>
                c.bind (c.callTarget hosts _ _ scope) fun _ => c.pure _
        · refine c.bind (htraced _) fun candidates => ?_
          split
          · exact c.pure _
          · refine c.bind (c.arguments hosts scope _) fun evaluated =>
              c.bind (schemas _ _ _ _) fun matched => ?_
            cases matched with
            | some v => exact c.pure _
            | none => exact c.bind (c.callTarget hosts _ evaluated scope) fun _ => c.pure _
      · exact c.pure _
    · exact c.pure _
  refine c.bind reads fun m => ?_
  split
  case' isTrue => refine c.bind htrace fun traced => ?_
  case' isFalse => refine c.bind (c.pure none) fun traced => ?_
  all_goals
    cases traced with
    | some v => exact c.pure v
    | none =>
        exact c.bind (c.arguments hosts scope unevaluated) fun evaluated =>
          c.callTarget hosts target evaluated scope

/-! ## Statements -/

theorem importedModule (name : String) (scope : Scope) :
    R (host.importedModule name scope) (host'.importedModule name scope) := by
  refine c.after .heap fun h => ?_
  split
  · exact c.pure _
  · refine c.bind (hosts.package name) fun globals => ?_
    split
    · exact c.pure _
    · exact c.plain (.throw _)

theorem assignedContainer (target : Expr) (scope : Scope) :
    R (host.assignedContainer target scope) (host'.assignedContainer target scope) := by
  unfold Host.assignedContainer
  split
  · refine c.after .heap fun h => ?_
    split
    · exact c.pure _
    · split
      · exact c.plain ((Plain.dict _).bind fun made => (Plain.assign scope _ made).bind fun _ =>
          .pure _)
      · exact c.plain (.typeFault _)
  · exact hosts.evaluate target scope

end

section

variable {host host' : Host}

mutual

theorem assignTo (hosts : Host.Related R host host') (scope : Scope) (target : Expr) (v : Value) :
    R (host.assignTo scope target v) (host'.assignTo scope target v) := by
  unfold Host.assignTo
  split
  · exact c.plain (.assign scope _ v)
  · refine c.bind (c.assignedContainer hosts _ scope) fun container =>
      c.bind (hosts.evaluate _ scope) fun key => c.after .heap fun h => ?_
    split
    · exact c.plain (.modifyHeap fun h => h.grows_setItem container key v)
    · exact c.plain (.typeFault _)
  · refine c.bind (hosts.evaluate _ scope) fun object => c.after .heap fun h => ?_
    split
    · exact c.plain (.setAttribute object _ v)
    · exact c.plain (.typeFault _)
  · exact unpackTo hosts scope _ v
  · exact unpackTo hosts scope _ v
  · exact c.plain (.unsupported _)

theorem unpackTo (hosts : Host.Related R host host') (scope : Scope) (targets : List Expr)
    (v : Value) :
    R (host.unpackTo scope targets v) (host'.unpackTo scope targets v) := by
  unfold Host.unpackTo
  refine c.after .heap fun h => ?_
  split
  · split
    · exact assignAll hosts scope targets _
    · exact c.plain (.unsupported _)
  · exact c.plain (.unsupported _)

theorem assignAll (hosts : Host.Related R host host') (scope : Scope) (targets : List Expr)
    (values : List Value) :
    R (host.assignAll scope targets values) (host'.assignAll scope targets values) := by
  unfold Host.assignAll
  split
  · exact c.bind (assignTo hosts scope _ _) fun _ => assignAll hosts scope _ _
  · exact c.pure ()

end

end

section

variable {host host' : Host} (hosts : Host.Related R host host')
include hosts

theorem loop (scope : Scope) (name : String) (body : List Statement) (items : List Value) :
    R (host.loop scope name body items) (host'.loop scope name body items) := by
  induction items with
  | nil => exact c.pure _
  | cons v rest ih =>
      refine c.after (.assign scope name v) fun _ => c.bind (hosts.block body scope) fun flow => ?_
      cases flow with
      | «return» v => exact c.pure _
      | next => exact ih

theorem importNames (scope : Scope) (module : String) (package : Value)
    (names : List Script.ImportName) :
    R (host.importNames scope module package names)
      (host'.importNames scope module package names) := by
  induction names with
  | nil => exact c.pure ()
  | cons i rest ih =>
      refine c.after (.attribute? package i.name) fun found => ?_
      dsimp only
      split
      · exact c.after (.pure _) fun v => c.after (.assign scope i.binding v) fun _ => ih
      · exact c.bind (c.typeOf hosts _) fun _ => c.after (.pure _) fun v =>
          c.after (.assign scope i.binding v) fun _ => ih

theorem importModules (scope : Scope) (names : List Script.ImportName) :
    R (host.importModules scope names) (host'.importModules scope names) := by
  induction names with
  | nil => exact c.pure ()
  | cons i rest ih =>
      unfold Host.importModules
      split
      · exact c.bind (c.importedModule hosts _ scope) fun v =>
          c.after (.assign scope _ v) fun _ => ih
      · exact ih

theorem execute (s : Statement) (scope : Scope) :
    R (host.execute s scope) (host'.execute s scope) := by
  unfold Host.execute
  split
  · exact c.pure _
  · exact c.pure _
  · exact c.bind (hosts.evaluate _ scope) fun _ => c.pure _
  · exact c.plain ((Plain.define _ scope).bind fun _ => .pure _)
  · exact c.after .heap fun h => c.after (.alloc (o := .class _) trivial) fun made =>
      c.after (.assign scope _ made) fun _ => c.bind (hosts.block _ _) fun _ => c.pure _
  · exact c.plain ((Plain.assign scope _ _).bind fun _ => .pure _)
  · exact c.bind (hosts.evaluate _ scope) fun v => c.bind (c.assignTo hosts scope _ v) fun _ =>
      c.pure _
  · refine c.bind (hosts.evaluate _ scope) fun v => ?_
    split
    · exact hosts.block _ scope
    · exact hosts.block _ scope
    · exact c.plain ((Plain.describe _).bind fun _ => .unsupported _)
  · refine c.bind (hosts.evaluate _ scope) fun v => c.after .heap fun h => ?_
    split
    · exact c.loop hosts scope _ _ _
    · exact c.plain (.unsupported _)
  · exact c.plain (.unsupported _)
  · refine c.bind (hosts.evaluate _ scope) fun v => ?_
    split
    · exact c.pure _
    · exact c.plain (.unsupported _)
  · exact c.bind (hosts.evaluate _ scope) fun _ => c.pure _
  · exact c.bind (c.importModules hosts scope _) fun _ => c.pure _
  · exact c.bind (c.importedModule hosts _ scope) fun package =>
      c.bind (c.importNames hosts scope _ package _) fun _ => c.pure _

theorem blockStep (scope : Scope) (statements : List Statement) :
    R (host.blockStep scope statements) (host'.blockStep scope statements) := by
  induction statements with
  | nil => exact c.pure _
  | cons s rest ih =>
      refine c.bind (c.execute hosts s scope) fun flow => ?_
      cases flow with
      | «return» v => exact c.pure _
      | next => exact ih

/-! ## Packages -/

theorem loadPackage (name : String) (registers : ∀ id, R (register name id) (register name id)) :
    R (host.loadPackage name) (host'.loadPackage name) := by
  refine c.afterGet (fun _ => rfl) (fun _ => rfl) fun m => ?_
  split
  · exact c.pure _
  · dsimp only
    split
    · exact c.pure _
    · refine c.after (.packageNamespace name) fun id => ?_
      refine c.after (.modifyHeap fun h => h.grows_modify id fun o => ?_) fun _ => ?_
      · cases o <;> rfl
      refine c.bind (registers id) fun _ => ?_
      refine c.after (.parseFile _ _) fun statements => ?_
      exact c.bind (hosts.block statements _) fun _ => c.pure _

end

end Congruence

/-! ## Depths with another way to run compiled models -/

namespace Host

variable (run : Value → Value → Value → Exec Value)

/-- Built-in functions with `run` in the place of the running of compiled models. -/
def primitiveWith (host : Host) (p : Primitive) (arguments : List Value) : Exec Value :=
  match p with
  | .compilationRun => run (argument arguments 0) (argument arguments 1) (argument arguments 2)
  | p => host.primitive p arguments

/-- Calls with `run` in the place of the running of compiled models. -/
def dispatchWith (host : Host) (callee : Value) (receiver : Option Value) (arguments : Arguments) :
    Exec Value := do
  let h ← heap
  match callee, h.object? callee with
  | .ref id, some (.class _) => construct id arguments.values
  | _, some (.function f) =>
    let arguments := withReceiver h f.method receiver arguments
    match f.kind with
    | .native p => host.primitiveWith run p arguments.values
    | .script definition globals => host.apply definition globals arguments
  | _, _ => typeFault (.notCallable (h.describe callee))

/-- The actions of the next depth, with `run` in the place of the running of compiled models. -/
def stepWith (host : Host) : Host :=
  { host.step with call := host.dispatchWith run }

/-- The host for a depth of nesting, with `run` in the place of the running of compiled models. -/
def ofDepthWith : (depth : Nat) → Host
  | 0 => exhausted
  | depth + 1 => (ofDepthWith depth).stepWith run

theorem primitiveWith_run (host : Host) : host.primitiveWith Compilation.run = host.primitive := by
  funext p arguments
  cases p <;> rfl

theorem dispatchWith_run (host : Host) : host.dispatchWith Compilation.run = host.dispatch := by
  unfold dispatchWith
  rw [primitiveWith_run]
  rfl

theorem stepWith_run (host : Host) : host.stepWith Compilation.run = host.step := by
  rw [stepWith, dispatchWith_run]
  rfl

theorem ofDepthWith_run (depth : Nat) : ofDepthWith Compilation.run depth = ofDepth depth := by
  induction depth with
  | zero => rfl
  | succ depth ih => rw [ofDepth_succ, ← ih, ofDepthWith, stepWith_run]

end Host

/-! ## From one depth to the next -/

namespace Congruence

variable {R : ∀ ⦃α : Type⦄, Exec α → Exec α → Prop} (c : Congruence R)
  {host host' : Host} (hosts : Host.Related R host host')
  {run run' : Value → Value → Value → Exec Value}
  (runs : ∀ compilation inputs outputs,
    R (run compilation inputs outputs) (run' compilation inputs outputs))
include c hosts runs

theorem dispatchWith (callee : Value) (receiver : Option Value) (arguments : Arguments) :
    R (host.dispatchWith run callee receiver arguments)
      (host'.dispatchWith run' callee receiver arguments) := by
  have hprimitive (p : Primitive) (arguments : List Value) :
      R (host.primitiveWith run p arguments) (host'.primitiveWith run' p arguments) := by
    unfold Host.primitiveWith
    split
    · exact runs _ _ _
    · next p hp => exact c.primitive hosts hp arguments
  refine c.after .heap fun h => ?_
  split
  · exact c.plain (.construct _ _)
  · dsimp only
    split
    · exact hprimitive _ _
    · exact c.apply hosts _ _ _
  · exact c.plain (.typeFault _)

/-- A relation passes to the next depth if it holds of the runs of compiled models, of call
expressions and of the loading of packages. -/
theorem stepWith (calls : ∀ target unevaluated scope,
      R (host.callExpression target unevaluated scope)
        (host'.callExpression target unevaluated scope))
    (packages : ∀ name, R (host.loadPackage name) (host'.loadPackage name)) :
    Host.Related R (host.stepWith run) (host'.stepWith run') where
  evaluate e scope := c.evaluateStep hosts calls e scope
  block statements scope := c.blockStep hosts scope statements
  package name := packages name
  call callee receiver arguments := c.dispatchWith hosts runs callee receiver arguments

end Congruence

/-! ## Depth of nesting

A greater depth changes nothing once the depth is enough. So whether an action runs a compiled model
is seen by one run, at a depth that is enough, in which such a run is an error. -/

/-- `x` ends in the error or does what `y` does. -/
def Approximates (e : RunError) ⦃α : Type⦄ (x y : Exec α) : Prop :=
  ∀ m : Machine, (x.outcome m).1 = .error e ∨ y.outcome m = x.outcome m

namespace Approximates

variable {e : RunError} {α : Type}

theorem refl (x : Exec α) : Approximates e x x := fun _ => .inr rfl

theorem congruence : Congruence (Approximates e) where
  plain _ := refl _
  bind {_ _ x y f g} hx hf m := by
    rcases hx m with hend | hxy
    · left
      rw [outcome_bind_error (Prod.ext hend rfl)]
    · rcases hxm : x.outcome m with ⟨e | a, m'⟩ <;> rw [hxm] at hxy
      · rw [outcome_bind_error hxm, outcome_bind_error hxy]
        exact .inr rfl
      · rw [outcome_bind_ok hxm, outcome_bind_ok hxy]
        exact hf a m'

variable {run run' : Value → Value → Value → Exec Value}
  (runs : ∀ compilation inputs outputs, Approximates e (run compilation inputs outputs)
    (run' compilation inputs outputs))
include runs

theorem stepWith {host host' : Host} (hosts : Host.Related (Approximates e) host host') :
    Host.Related (Approximates e) (host.stepWith run) (host'.stepWith run') :=
  congruence.stepWith hosts runs
    (congruence.callExpression hosts (refl get) fun _ _ _ _ => refl _)
    fun name => congruence.loadPackage hosts name fun _ => refl _

theorem ofDepthWith (depth : Nat) :
    Host.Related (Approximates e) (.ofDepthWith run depth) (.ofDepthWith run' depth) := by
  induction depth with
  | zero => constructor <;> intros <;> exact refl _
  | succ depth ih => exact stepWith runs ih

end Approximates

theorem Approximates.ofDepthWith_of_le (run : Value → Value → Value → Exec Value)
    {depth depth' : Nat} (hle : depth ≤ depth') :
    Host.Related (Approximates .tooDeep) (.ofDepthWith run depth) (.ofDepthWith run depth') := by
  induction depth generalizing depth' with
  | zero => constructor <;> intros <;> exact fun _ => .inl rfl
  | succ depth ih =>
      obtain ⟨depth', rfl⟩ := Nat.exists_eq_add_one_of_ne_zero (Nat.ne_zero_of_lt hle)
      exact stepWith (fun _ _ _ => refl _) (ih (Nat.le_of_succ_le_succ hle))

namespace Host

variable {α : Type} {action : Host → Exec α}

/-- A depth that is enough for an action gives what every greater one gives. -/
theorem Composes.outcome_of_le (hcomposes : Composes action)
    (run : Value → Value → Value → Exec Value) {m : Machine} {depth depth' : Nat}
    (hle : depth ≤ depth')
    (hdeep : ((action (ofDepthWith run depth)).outcome m).1 ≠ .error .tooDeep) :
    (action (ofDepthWith run depth')).outcome m = (action (ofDepthWith run depth)).outcome m := by
  have hrelated := hcomposes Approximates.congruence (Approximates.ofDepthWith_of_le run hle)
  exact (hrelated m).resolve_left hdeep

/-- The action goes the same way whatever the running of a compiled model would do, at any depth: it
runs none. -/
def NeverRuns (action : Host → Exec α) (m : Machine) : Prop :=
  ∀ run depth, (action (ofDepthWith run depth)).outcome m = (action (ofDepth depth)).outcome m

/-- An action runs no compiled model if it ends without the error that such a run is made to be. -/
theorem Composes.neverRuns (hcomposes : Composes action) {m : Machine} (depth : Nat) {e : RunError}
    (he : e ≠ .tooDeep)
    (hdeep : ((action (ofDepthWith (fun _ _ _ => throw e) depth)).outcome m).1 ≠ .error .tooDeep)
    (hends : ((action (ofDepthWith (fun _ _ _ => throw e) depth)).outcome m).1 ≠ .error e) :
    NeverRuns action m := by
  have hends' (depth' : Nat) :
      ((action (ofDepthWith (fun _ _ _ => throw e) depth')).outcome m).1 ≠ .error e := by
    rcases Nat.le_total depth depth' with hle | hle
    · rw [hcomposes.outcome_of_le _ hle hdeep]
      exact hends
    · intro hend
      have hdeep' : ((action (ofDepthWith (fun _ _ _ => throw e) depth')).outcome m).1 ≠
          .error .tooDeep := by
        rw [hend]
        exact fun h => he (Except.error.inj h)
      rw [hcomposes.outcome_of_le _ hle hdeep'] at hends
      exact hends hend
  have hsame (run : Value → Value → Value → Exec Value) (depth' : Nat) :
      (action (ofDepthWith run depth')).outcome m =
        (action (ofDepthWith (fun _ _ _ => throw e) depth')).outcome m := by
    have hruns (compilation inputs outputs : Value) :
        Approximates e (throw e : Exec Value) (run compilation inputs outputs) :=
      fun _ => .inl rfl
    have hrelated := hcomposes Approximates.congruence (Approximates.ofDepthWith hruns depth')
    exact (hrelated m).resolve_left (hends' depth')
  intro run depth'
  rw [← ofDepthWith_run, hsame run, hsame Compilation.run]

end Host

end ModelGraph
