import ModelGraph.Proofs.OrderedMap
import ModelGraph.Proofs.Trace.Recording

/-!
# Operations on a machine

What can be asked of a machine from outside, under any host, and how a relation between actions passes
to it. Nothing that the machine does touches its table of packages, except for the loading of a
package. So a relation in which the actions that load nothing stand to themselves passes to all
operations as soon as it passes through the loading of packages, from the hosts of one depth to those
of the next.
-/

namespace ModelGraph

open Exec
open Script (Expr)

variable {α β : Type}

/-! ## Actions that load nothing -/

/-- The action leaves the table of packages alone. -/
def LoadsNothing (x : Exec α) : Prop := ∀ m : Machine, (x.outcome m).2.packages = m.packages

theorem Plain.loadsNothing {x : Exec α} (hx : Plain True x) : LoadsNothing x := hx.packages_eq

namespace LoadsNothing

theorem pure (a : α) : LoadsNothing (Pure.pure a : Exec α) := fun _ => rfl

theorem bind {x : Exec α} {f : α → Exec β} (hx : LoadsNothing x) (hf : ∀ a, LoadsNothing (f a)) :
    LoadsNothing (x >>= f) := by
  intro m
  have hfirst := hx m
  rw [outcome_bind]
  rcases hxm : x.outcome m with ⟨e | a, m'⟩ <;> rw [hxm] at hfirst
  · exact hfirst
  · exact (hf a m').trans hfirst

theorem mapM {f : β → Exec α} (hf : ∀ b, LoadsNothing (f b)) (items : List β) :
    LoadsNothing (items.mapM f) := by
  induction items with
  | nil => exact pure []
  | cons b rest ih =>
      rw [List.mapM_cons]
      exact (hf b).bind fun _ => ih.bind fun _ => pure _

theorem heap : LoadsNothing Exec.heap := Plain.heap.loadsNothing

theorem modifyHeap (change : Heap → Heap) : LoadsNothing (Exec.modifyHeap change) := fun _ => rfl

/-! ### Matching -/

theorem freshName : LoadsNothing Exec.freshName := by
  intro m
  rw [Machine.freshName_eq]
  rfl

theorem nameInput (v : Value) : LoadsNothing (Exec.nameInput v) := by
  refine heap.bind fun h => ?_
  dsimp only
  split
  case' h_1 => refine (pure _).bind fun object => heap.bind fun h => ?_
  case' h_2 =>
    refine (Plain.record "" "" none).loadsNothing.bind fun _ => (pure _).bind fun object =>
      heap.bind fun h => ?_
  all_goals
    split
    · exact pure _
    · exact freshName.bind fun _ => (modifyHeap _).bind fun _ => pure _

theorem bindArguments (parameters : List Operator.Parameter) (arguments : List PendingArgument)
    (start : Binding) : LoadsNothing (ModelGraph.bindArguments parameters arguments start) := by
  induction parameters generalizing arguments start with
  | nil => cases arguments <;> exact pure _
  | cons p parameters ih =>
      cases arguments with
      | nil => exact pure _
      | cons next rest =>
          unfold ModelGraph.bindArguments
          refine heap.bind fun h => (Plain.ofExcept _).loadsNothing.bind fun arguments => ?_
          split
          · exact pure _
          · split
            · exact pure _
            · split
              · exact (mapM nameInput _).bind fun _ => ih _ _
              · exact ih _ _
              · split
                · exact ih _ _
                · exact pure _

theorem nameOutput (call : String) (size? : Option Value) :
    LoadsNothing (Exec.nameOutput call size?) := by
  refine freshName.bind fun name => bind (fun _ => rfl) fun made => ?_
  cases size? with
  | some size => exact (Plain.setAttribute made "size" size).loadsNothing.bind fun _ => pure _
  | none => exact pure _

theorem makeOutputs (call : String) (b : Binding) (wantsInt : Bool)
    (parameters : List Operator.Parameter) :
    LoadsNothing (ModelGraph.makeOutputs call b wantsInt parameters) := by
  induction parameters with
  | nil => exact pure _
  | cons p rest ih =>
      rw [makeOutputs_cons]
      refine bind ?_ fun made? => ?_
      · unfold makeOutput
        split
        · exact (Machine.plain_outputSize? call b).loadsNothing.bind fun _ => (nameOutput _ _).bind fun _ =>
            pure _
        · exact (mapM (fun _ => nameOutput _ _) _).bind fun _ =>
            (Plain.list _).loadsNothing.bind fun _ => pure _
        · split
          · exact (nameOutput _ _).bind fun _ => pure _
          · exact pure _
        · exact pure _
      · cases made? with
        | none => exact pure _
        | some made => exact ih.bind fun _ => pure _

theorem matchSchema (call : String) (schema : Operator.Schema) (arguments : Arguments)
    (wantsInt : Bool) : LoadsNothing (ModelGraph.matchSchema call schema arguments wantsInt) := by
  refine (bindArguments _ _ _).bind fun bound? => ?_
  cases bound? with
  | none => exact pure _
  | some b =>
      refine (makeOutputs _ _ _ _).bind fun made? => ?_
      cases made? with
      | none => exact pure _
      | some made =>
          exact (modifyHeap _).bind fun _ => bind (fun _ => rfl) fun _ =>
            (Machine.plain_bundle _).loadsNothing.bind fun _ => pure _

theorem matchSchemas (call : String) (arguments : Arguments) (wantsInt : Bool)
    (schemas : List Operator.Schema) :
    LoadsNothing (ModelGraph.matchSchemas call arguments wantsInt schemas) := by
  induction schemas with
  | nil => exact pure _
  | cons schema rest ih =>
      refine (matchSchema _ _ _ _).bind fun matched => ?_
      cases matched with
      | some v => exact pure _
      | none => exact ih

theorem nameItems (v : Value) : LoadsNothing (Compilation.nameItems v) :=
  heap.bind fun _ => mapM nameInput _

theorem run (compilation inputs outputs : Value) :
    LoadsNothing (Compilation.run compilation inputs outputs) := by
  refine bind (fun _ => rfl) fun m => ?_
  split
  · exact pure _
  · refine (Plain.attribute? _ _).loadsNothing.bind fun model? => ?_
    cases model? with
    | none => exact (Plain.unsupported _).loadsNothing
    | some model =>
        exact (Plain.attribute? _ _).loadsNothing.bind fun _ => (nameInput _).bind fun _ =>
          (nameItems _).bind fun _ => (nameItems _).bind fun _ => (nameItems _).bind fun _ =>
            (modifyHeap _).bind fun _ => bind (fun _ => rfl) fun _ => pure _

/-! ### Placeholders of a trace -/

theorem placeholderTensor (name? : Option String) (origin : String) :
    LoadsNothing (Exec.placeholderTensor name? origin) := fun _ => rfl

theorem ofType (name type : String) {arguments : Exec (List Value)}
    (harguments : LoadsNothing arguments) : LoadsNothing (Trace.ofType name type arguments) := by
  unfold Trace.ofType
  split
  · exact placeholderTensor _ _
  · exact harguments.bind fun _ => (Plain.list _).loadsNothing
  · exact harguments.bind fun _ => (Plain.list _).loadsNothing
  · exact (Plain.dict _).loadsNothing
  · exact pure _
  · exact pure _
  · exact pure _
  · exact (Plain.unsupported _).loadsNothing

mutual

theorem placeholder (name : String) (type : Expr) : LoadsNothing (Trace.placeholder name type) := by
  unfold Trace.placeholder
  split
  · exact ofType name _ (placeholders name _)
  · exact ofType name _ (pure _)

theorem placeholders (name : String) (types : List Expr) :
    LoadsNothing (Trace.placeholders name types) := by
  unfold Trace.placeholders
  split
  · exact pure _
  · exact (placeholder name _).bind fun _ => (placeholders name _).bind fun _ => pure _

end

theorem parameters (declared : List Script.Parameter) :
    LoadsNothing (Trace.parameters declared) := by
  induction declared with
  | nil => exact pure _
  | cons p rest ih =>
      unfold Trace.parameters
      split
      · exact ih
      · split
        · exact (Plain.unsupported _).loadsNothing
        · exact (placeholder _ _).bind fun _ => ih.bind fun _ => pure _

end LoadsNothing

/-! ## Relations that look at packages only -/

/-- A relation that sequencing and the keeping of errors as results keep, and in which the actions that
load nothing stand to themselves. -/
structure PackageCongruence (R : ∀ ⦃α : Type⦄, Exec α → Exec α → Prop) : Prop where
  loadsNothing : ∀ {α : Type} {x : Exec α}, LoadsNothing x → R x x
  bind : ∀ {α β : Type} {x y : Exec α} {f g : α → Exec β},
    R x y → (∀ a, R (f a) (g a)) → R (x >>= f) (y >>= g)
  attempt : ∀ {α : Type} {x y : Exec α}, R x y →
    R (tryCatch (.ok <$> x) fun e => pure (.error e) : Exec (Except RunError α))
      (tryCatch (.ok <$> y) fun e => pure (.error e))

/-! ## Operations -/

/-- Runs the `forward` method of a module under a host. -/
def Trace.runForwardWith (host : Host) (module forward : Value) (definition : Script.Function) :
    Exec (List String × Value) := do
  let made ← parameters definition.parameters
  let h ← heap
  let inputs := (made.filter fun p => h.isTensor p.2).map (·.1)
  let result ← host.call forward (some module) { positional := made.map (·.2) }
  return (inputs, result)

/-- Traces the `forward` method of a module under a host. -/
def Exec.traceForwardWith (host : Host) (module : Value) (catalog : Operator.Catalog) :
    Exec Trace := do
  let h ← heap
  match h.attribute? module "forward" with
  | none => unsupported .forwardMissing
  | some forward =>
    match h.function? forward with
    | some { kind := .script definition _, .. } =>
      let ((inputs, result), calls) ←
        Trace.recording catalog (Trace.runForwardWith host module forward definition)
      return { inputs, outputs := Trace.resultNames (← heap) result, calls }
    | _ => unsupported .forwardNotScript

/-- What is asked of a machine from outside. -/
inductive Operation where
  | package (name : String)
  | typeOf (name : String)
  | invoke (name : String) (arguments : List Value)
  | call (callee : Value) (arguments : List Value)
  | attachFunctions (module : Value) (source file : String)
  | traceForward (module : Value) (catalog : Operator.Catalog)

namespace Operation

def run : Operation → Exec Unit
  | package name => do let _ ← Exec.package name
  | typeOf name => do let _ ← Exec.typeOf name
  | invoke name arguments => do let _ ← Exec.invoke name arguments
  | call callee arguments => do let _ ← Exec.call callee arguments
  | attachFunctions module source file => do let _ ← Exec.attachFunctions module source file
  | traceForward module catalog => do let _ ← Exec.traceForward module catalog

/-- The operation under a host. -/
def runWith (host : Host) : Operation → Exec Unit
  | package name => do let _ ← host.package name
  | typeOf name => do let _ ← host.typeOf name
  | invoke name arguments => do let _ ← host.invoke name arguments
  | call callee arguments => do let _ ← host.call callee none { positional := arguments }
  | attachFunctions module source file => do let _ ← Exec.attachFunctions module source file
  | traceForward module catalog => do let _ ← Exec.traceForwardWith host module catalog

theorem runWith_standard (o : Operation) : o.runWith .standard = o.run := by
  cases o <;> rfl

end Operation

/-- The machine after some operations, one after another. An error ends an operation, not the run. -/
def Machine.after (m : Machine) (operations : List Operation) : Machine :=
  operations.foldl (fun m o => (o.run.outcome m).2) m

/-! ## Relations of hosts pass to operations -/

namespace PackageCongruence

variable {R : ∀ ⦃α : Type⦄, Exec α → Exec α → Prop} (c : PackageCongruence R)
include c

theorem congruence : Congruence R where
  plain hx := c.loadsNothing hx.loadsNothing
  bind := c.bind

theorem recording {catalog : Operator.Catalog} {x y : Exec α} (hxy : R x y) :
    R (Trace.recording catalog x) (Trace.recording catalog y) := by
  refine c.bind (c.loadsNothing fun _ => rfl) fun _ => c.bind (c.attempt hxy) fun result => ?_
  refine c.bind (c.loadsNothing fun _ => rfl) fun m => ?_
  exact c.bind (c.loadsNothing fun _ => rfl) fun _ => c.congruence.after (.ofExcept _) fun _ =>
    c.congruence.pure _

theorem attachFunctions (module : Value) (source file : String) :
    R (Exec.attachFunctions module source file) (Exec.attachFunctions module source file) := by
  refine c.congruence.after (.parseFile file source) fun statements => ?_
  refine c.congruence.after .heap fun h => ?_
  refine c.bind (c.congruence.forIn (fun d _ => ?_) _ _) fun _ => c.congruence.pure _
  exact c.congruence.after (.alloc (o := .function _) trivial) fun made =>
    c.congruence.after (.setAttribute module d.name made) fun _ => c.congruence.pure _

variable {host host' : Host} (hosts : Host.Related R host host')
include hosts

/-- The step to the next depth, but for the loading of packages. -/
theorem step : Host.Related R { host.step with package := host.package }
    { host'.step with package := host'.package } := by
  have hcalls (target : Expr) (unevaluated : List (Option String × Expr)) (scope : Scope) :=
    c.congruence.callExpression hosts (c.loadsNothing fun _ => rfl)
      (fun _ _ _ _ => c.loadsNothing (LoadsNothing.matchSchemas _ _ _ _)) target unevaluated scope
  refine ⟨fun e scope => c.congruence.evaluateStep hosts hcalls e scope,
    fun statements scope => c.congruence.blockStep hosts scope statements, hosts.package, ?_⟩
  intro callee receiver arguments
  have hdispatch := c.congruence.dispatchWith hosts
    (fun compilation inputs outputs => c.loadsNothing (LoadsNothing.run compilation inputs outputs))
    callee receiver arguments
  rwa [Host.dispatchWith_run, Host.dispatchWith_run] at hdispatch

theorem traceForward (module : Value) (catalog : Operator.Catalog) :
    R (Exec.traceForwardWith host module catalog) (Exec.traceForwardWith host' module catalog) := by
  have hforward (forward : Value) (definition : Script.Function) :
      R (Trace.runForwardWith host module forward definition)
        (Trace.runForwardWith host' module forward definition) := by
    refine c.bind (c.loadsNothing (LoadsNothing.parameters _)) fun made => ?_
    refine c.congruence.after .heap fun h => ?_
    exact c.bind (hosts.call forward _ _) fun _ => c.congruence.pure _
  refine c.congruence.after .heap fun h => ?_
  cases hmethod : h.attribute? module "forward" with
  | none => exact c.congruence.plain (.unsupported _)
  | some forward =>
      dsimp only
      split
      · exact c.bind (c.recording (hforward _ _)) fun recorded =>
          c.congruence.after .heap fun _ => c.congruence.pure _
      · exact c.congruence.plain (.unsupported _)

theorem operation (o : Operation) : R (o.runWith host) (o.runWith host') := by
  have c' := c.congruence
  cases o with
  | package name => exact c.bind (hosts.package name) fun _ => c'.pure _
  | typeOf name => exact c.bind (c'.typeOf hosts name) fun _ => c'.pure _
  | invoke name arguments => exact c.bind (c'.invoke hosts name arguments) fun _ => c'.pure _
  | call callee arguments => exact c.bind (hosts.call callee none _) fun _ => c'.pure _
  | attachFunctions module source file =>
      exact c.bind (c.attachFunctions module source file) fun _ => c'.pure _
  | traceForward module catalog =>
      exact c.bind (c.traceForward hosts module catalog) fun _ => c'.pure _

end PackageCongruence

end ModelGraph
