import ModelGraph.Proofs.Machine.Congruence
import ModelGraph.Proofs.Trace.Matching
import ModelGraph.Script.Grammar
import ModelGraph.Trace.Forward

/-!
# What a whole trace records

Naming values and recording calls is all that a script adds under a trace, at every depth of nesting.
A trace of `forward` begins with placeholders that bear the names of its parameters.
-/

namespace ModelGraph

open Exec
open Script (Expr)

/-- Where the action gives a result under a trace, it has named values and recorded calls. -/
def Recording (given : String → Prop) ⦃α : Type⦄ (x _ : Exec α) : Prop :=
  ∀ ⦃m m' : Machine⦄ ⦃a : α⦄, m.tracer?.isSome → x.outcome m = (.ok a, m') →
    Machine.Records given m m'

namespace Recording

variable {given : String → Prop}

theorem congruence : Congruence (Recording given) where
  plain hx _ _ _ _ h := .names (hx.names h)
  bind hx hf _ _ _ htraced h := by
    obtain ⟨a, m₁, hfirst, h⟩ := outcome_bind_eq_ok h
    have hrecords := hx htraced hfirst
    exact hrecords.trans (hf a (hrecords.traced.trans htraced) h)

theorem ofDepth (depth : Nat) :
    Host.Related (Recording given) (.ofDepth depth) (.ofDepth depth) := by
  induction depth with
  | zero => constructor <;> intros <;> rintro _ _ _ _ ⟨⟩
  | succ depth ih =>
      rw [Host.ofDepth_succ, ← Host.stepWith_run]
      refine congruence.stepWith ih (fun _ _ _ _ _ _ htraced h => Machine.run_ok htraced h) ?_ ?_
      · refine congruence.callExpression ih ?_ fun _ _ _ _ _ _ _ htraced h =>
          Machine.matchSchemas_ok htraced h
        rintro m _ _ _ ⟨⟩
        exact .names (.refl m)
      · intro name
        apply congruence.loadPackage ih name
        rintro id m _ _ _ ⟨⟩
        exact .names (.of_grows rfl (.refl m.heap))

end Recording

/-! ## Placeholders -/

namespace Trace

/-- Where the action gives a result, it has only given names of the given ones. -/
def Introduces {α : Type} (given : String → Prop) (x : Exec α) : Prop :=
  ∀ ⦃m m' : Machine⦄ ⦃a : α⦄, x.outcome m = (.ok a, m') → m.Names given m'

theorem Introduces.of_plain {α : Type} {given : String → Prop} {x : Exec α} (hx : Plain True x) :
    Introduces given x :=
  fun _ _ _ h => hx.names h

theorem Introduces.bind {α β : Type} {given : String → Prop} {x : Exec α} {f : α → Exec β}
    (hx : Introduces given x) (hf : ∀ a, Introduces given (f a)) : Introduces given (x >>= f) := by
  intro m m' b h
  obtain ⟨a, m₁, hfirst, h⟩ := outcome_bind_eq_ok h
  exact (hx hfirst).trans (hf a h)

variable {given : String → Prop} {name : String}

theorem introduces_placeholderTensor (hname : given name) (origin : String) :
    Introduces given (placeholderTensor (some name) origin) := by
  rintro m _ _ ⟨⟩
  refine Machine.names_push (.inl rfl) rfl ?_
  rintro _ ⟨⟩
  exact .inl hname

theorem introduces_ofType (hname : given name) (type : String) {arguments : Exec (List Value)}
    (harguments : Introduces given arguments) : Introduces given (ofType name type arguments) := by
  unfold ofType
  split
  · exact introduces_placeholderTensor hname _
  · exact harguments.bind fun _ => .of_plain (.list _)
  · exact harguments.bind fun _ => .of_plain (.list _)
  · exact .of_plain (.dict _)
  · exact .of_plain (.pure _)
  · exact .of_plain (.pure _)
  · exact .of_plain (.pure _)
  · exact .of_plain (.unsupported _)

mutual

theorem introduces_placeholder (hname : given name) (type : Expr) :
    Introduces given (placeholder name type) := by
  unfold placeholder
  split
  · exact introduces_ofType hname _ (introduces_placeholders hname _)
  · exact introduces_ofType hname _ (.of_plain (.pure _))

theorem introduces_placeholders (hname : given name) (types : List Expr) :
    Introduces given (placeholders name types) := by
  unfold placeholders
  split
  · exact .of_plain (.pure _)
  · exact (introduces_placeholder hname _).bind fun _ =>
      (introduces_placeholders hname _).bind fun _ => .of_plain (.pure _)

end

theorem introduces_parameters (parameters : List Script.Parameter)
    (hgiven : ∀ p ∈ parameters, given p.name) : Introduces given (Trace.parameters parameters) := by
  induction parameters with
  | nil => exact .of_plain (.pure _)
  | cons p rest ih =>
      have hrest := ih fun q hq => hgiven q (List.mem_cons_of_mem p hq)
      unfold Trace.parameters
      split
      · exact hrest
      · split
        · exact .of_plain (.unsupported _)
        · exact (introduces_placeholder (hgiven p List.mem_cons_self) _).bind fun _ =>
            hrest.bind fun _ => .of_plain (.pure _)

end Trace

/-! ## Whole traces -/

/-- Some parameter of the definition has the name. -/
def Script.Function.HasParameter (definition : Script.Function) (name : String) : Prop :=
  ∃ p ∈ definition.parameters, p.name = name

/-- A run of `forward` makes the placeholders, and then names values and records calls. -/
theorem Trace.runForward_ok {module forward : Value} {definition : Script.Function}
    {m m' : Machine} {result : List String × Value} (htraced : m.tracer?.isSome)
    (h : (Trace.runForward module forward definition).outcome m = (.ok result, m')) :
    ∃ made m₁, (Trace.parameters definition.parameters).outcome m = (.ok made, m₁) ∧
      ∀ given, Machine.Records given m₁ m' := by
  obtain ⟨made, m₁, hmade, h⟩ := outcome_bind_eq_ok h
  have hnames : m.Names (fun _ => True) m₁ :=
    introduces_parameters definition.parameters (fun _ _ => trivial) hmade
  rw [outcome_bind_ok (outcome_heap m₁)] at h
  obtain ⟨v, m₂, hcall, h⟩ := outcome_bind_eq_ok h
  cases h
  refine ⟨made, m₁, hmade, fun given => ?_⟩
  exact (Recording.ofDepth Host.maxDepth).call forward (some module) { positional := made.map (·.2) }
    (hnames.traced.trans htraced) hcall

/-- What an action comes to when its error is kept as a result. -/
theorem outcome_attempt {α : Type} (action : Exec α) (m : Machine) :
    (tryCatch (.ok <$> action) fun e => pure (.error e) : Exec (Except RunError α)).outcome m =
      (.ok (action.outcome m).1, (action.outcome m).2) := by
  have htry : (tryCatch (.ok <$> action) fun e => pure (.error e) :
      Exec (Except RunError α)).outcome m =
      (match (action >>= fun a => pure (.ok a) : Exec (Except RunError α)).outcome m with
        | (result, m') => ExceptT.tryCatch (m := StateM Machine) (.mk (pure result))
            (fun e => .mk (pure (.ok (.error e)))) m') := rfl
  rw [htry, outcome_bind]
  rcases action.outcome m with ⟨e | a, m'⟩ <;> rfl

/-- A recording ends with the machine that the action leaves, without the trace. -/
theorem Trace.recording_ok {α : Type} {catalog : Operator.Catalog} {action : Exec α}
    {m m' : Machine} {a : α} {calls : List TracedCall}
    (h : (Trace.recording catalog action).outcome m = (.ok (a, calls), m')) :
    ∃ m₁, action.outcome (m.withTracer (some { catalog })) = (.ok a, m₁) ∧ calls = m₁.calls ∧
      m' = m₁.withTracer none := by
  unfold Trace.recording at h
  rw [outcome_bind_ok (outcome_modify _ m), outcome_bind_ok (outcome_attempt action _),
    outcome_bind_ok (outcome_get _), outcome_bind_ok (outcome_modify _ _)] at h
  obtain ⟨b, m₁, hresult, h⟩ := outcome_bind_eq_ok h
  rw [outcome_ofExcept] at hresult
  cases h
  obtain ⟨hok, rfl⟩ := Prod.mk.inj hresult
  exact ⟨_, Prod.ext hok rfl, rfl, rfl⟩

/-- The `forward` method of a module, if a script defines it. -/
def Heap.forward? (h : Heap) (module : Value) : Option Script.Function :=
  ((h.attribute? module "forward").bind h.function?).bind fun f =>
    match f.kind with
    | .script definition _ => some definition
    | .native _ => none

/-- A trace that is returned has the calls that were recorded since the placeholders were made, and
the heap is the one that they left. -/
theorem traceForward_run {module : Value} {catalog : Operator.Catalog} {m m' : Machine}
    {trace : Trace} (h : (traceForward module catalog).outcome m = (.ok trace, m')) :
    ∃ definition made m₀ m₁, m.heap.forward? module = some definition ∧
      (Trace.parameters definition.parameters).outcome (m.withTracer (some { catalog })) =
        (.ok made, m₀) ∧
      (∀ given, Machine.Records given m₀ m₁) ∧ m₁.calls = trace.calls ∧ m₁.heap = m'.heap := by
  unfold traceForward at h
  rw [outcome_bind_ok (outcome_heap m)] at h
  split at h
  · cases h
  · next forward hforward =>
    split at h
    · next moduleName name definition globals method hfunction =>
      obtain ⟨⟨⟨inputs, result⟩, calls⟩, m₂, hrecording, h⟩ := outcome_bind_eq_ok h
      obtain ⟨m₁, hrun, rfl, rfl⟩ := Trace.recording_ok hrecording
      obtain ⟨made, m₀, hmade, hrecords⟩ := Trace.runForward_ok rfl hrun
      cases h
      refine ⟨definition, made, m₀, m₁, ?_, hmade, hrecords, rfl, rfl⟩
      rw [Heap.forward?, hforward, Option.bind_some, hfunction, Option.bind_some]
    · cases h

/-- The names that a trace gives beside numbers are those of parameters. -/
theorem traceForward_ok {module : Value} {catalog : Operator.Catalog} {m m' : Machine}
    {trace : Trace} (h : (traceForward module catalog).outcome m = (.ok trace, m')) :
    ∃ definition m₁, m.heap.forward? module = some definition ∧
      Machine.Records definition.HasParameter (m.withTracer (some { catalog })) m₁ ∧
      m₁.calls = trace.calls ∧ m₁.heap = m'.heap := by
  obtain ⟨definition, made, m₀, m₁, hforward, hmade, hrecords, hcalls, hheap⟩ := traceForward_run h
  refine ⟨definition, m₁, hforward, .trans (.names ?_) (hrecords _), hcalls, hheap⟩
  exact Trace.introduces_parameters definition.parameters (fun p hp => ⟨p, hp, rfl⟩) hmade

/-! ## A module that doubles its input and adds its weight -/

namespace Doubling

def source : String :=
  "def forward(self, x: Tensor):\n  return torch.add(torch.add(x, x), self.weight)\n"

def body : List Script.Statement := (Script.parse source).toOption.getD []

/-- The function that a script with one definition defines. -/
def definitionIn : List Script.Statement → Script.Function
  | [.defineFunction name parameters returns body] => { name, parameters, returns, body }
  | _ => default

def forward : Script.Function := definitionIn body

def machine : Machine where
  heap := ⟨#[
    .namespace {},
    .instance { module := "__torch__", name := "Net",
                fields := ⟨[("forward", .ref 2), ("weight", .ref 3)]⟩ },
    .function { module := "__torch__.Net", name := "forward",
                kind := .script forward rootScope, method := true },
    .instance { module := "torch", name := "FloatTensor",
                tag := { name? := some "CONSTANTS.c0" } }]⟩

def catalog : Operator.Catalog := .ofList [
  { name := "torch.add", inputs := [.typed "self" "Tensor", .typed "other" "Tensor"],
    outputs := [.typed "result" "Tensor"] }]

theorem nameOf?_machine {id : Nat} {name : String} (h : machine.heap.nameOf? id = some name) :
    id = 3 ∧ name = "CONSTANTS.c0" := by
  match id, h with
  | 3, h =>
    cases h
    exact ⟨rfl, rfl⟩

theorem exists_trace : ∃ trace m', (traceForward (.ref 1) catalog).outcome machine =
    (.ok trace, m') := by
  have hok : ((traceForward (.ref 1) catalog).outcome machine).1.toOption.isSome := by
    decide +kernel
  rcases h : (traceForward (.ref 1) catalog).outcome machine with ⟨e | trace, m'⟩
  · rw [h] at hok
    cases hok
  · exact ⟨trace, m', rfl⟩

end Doubling

end ModelGraph

/-!
## Counts of uses

The count of an instance is that of the uses which the recorded calls make of it, beside those that
were counted before the trace. Outputs and failed attempts at matching count nothing.
-/

namespace ModelGraph

open Exec

/-- How often the calls take the object as an input. -/
def uses (calls : List TracedCall) (id : Nat) : Nat :=
  (calls.flatMap (·.consumed)).countP (·.object = id)

theorem uses_append_singleton (calls : List TracedCall) (call : TracedCall) (id : Nat) :
    uses (calls ++ [call]) id = uses calls id + call.consumed.countP (·.object = id) := by
  simp [uses]

theorem uses_eq_zero {calls : List TracedCall} {id : Nat}
    (h : ∀ call ∈ calls, ∀ v ∈ call.consumed, v.object < id) : uses calls id = 0 := by
  refine List.countP_eq_zero.mpr fun v hv => ?_
  obtain ⟨call, hcall, hv⟩ := List.mem_flatMap.mp hv
  have hlt := h call hcall v hv
  simpa using Nat.ne_of_lt hlt

namespace Machine

/-- The uses counted since the start are those of the recorded calls. -/
structure Counted (start m : Machine) : Prop where
  size_le : start.heap.size ≤ m.heap.size
  count_eq : ∀ {id}, (m.heap.tag? id).isSome →
    m.heap.countOf id = start.heap.countOf id + uses m.calls id

variable {given : String → Prop} {start m m' : Machine}

theorem Names.counted (h : m.Names given m') (hknown : m.Known) (hm : Counted start m) :
    Counted start m' where
  size_le := Nat.le_trans hm.size_le h.size_le
  count_eq {id} hid := by
    rw [h.count_eq, h.calls_eq]
    rcases Nat.lt_or_ge id m.heap.size with hold | hnew
    · exact hm.count_eq ((h.tag_isSome hold).symm.trans hid)
    · -- A new instance has not been used, and was not there before.
      have hunused : uses m.calls id = 0 := uses_eq_zero fun call hcall v hv =>
        Nat.lt_of_lt_of_le (hknown call hcall v (call.mem_values_of_consumed hv)).object_lt hnew
      have hcount {h : Heap} (hle : h.size ≤ id) : h.countOf id = 0 := by
        rw [Heap.countOf, Heap.tag?_eq_none_of_le hle]
        rfl
      rw [hunused, hcount hnew, hcount (Nat.le_trans hm.size_le hnew)]

theorem Counted.record (hm : Counted start m) (htraced : m.tracer?.isSome) (call : TracedCall) :
    Counted start (m.record call) where
  size_le := by simpa using hm.size_le
  count_eq {id} hid := by
    rw [isSome_tag?_record] at hid
    rw [countOf_record hid, hm.count_eq hid, calls_record htraced, uses_append_singleton,
      Nat.add_assoc]

theorem Records.counted (h : Records given m m') (htraced : m.tracer?.isSome) (hknown : m.Known)
    (hm : Counted start m) : Counted start m' := by
  induction h with
  | names h => exact h.counted hknown hm
  | call h => exact (h.counted hknown hm).record (h.traced.trans htraced) _
  | trans first _ ih ih' =>
      exact ih' (first.traced.trans htraced) (first.known htraced hknown) (ih htraced hknown hm)

theorem counted_start (m : Machine) (catalog : Operator.Catalog) :
    Counted m (m.withTracer (some { catalog })) where
  size_le := Nat.le_refl _
  count_eq _ := rfl

end Machine

/-- After a trace, the count of each instance is greater than before by the number of its occurrences
among the inputs of the calls; for a new instance that number is the count. -/
theorem count_traceForward {module : Value} {catalog : Operator.Catalog} {m m' : Machine}
    {trace : Trace} (h : (traceForward module catalog).outcome m = (.ok trace, m')) {id : Nat}
    {tag : Tag} (htag : m'.heap.tag? id = some tag) :
    tag.count = ((m.heap.tag? id).map (·.count)).getD 0 +
      (trace.calls.flatMap (·.consumed)).countP (·.object = id) := by
  obtain ⟨definition, m₁, -, hrecords, hcalls, hheap⟩ := traceForward_ok h
  have hcounted := hrecords.counted rfl (m.known_start catalog) (m.counted_start catalog)
  have hsome : (m₁.heap.tag? id).isSome := by
    rw [hheap, htag]
    rfl
  have hcount := hcounted.count_eq hsome
  rw [hcalls, hheap, Heap.countOf, htag] at hcount
  exact hcount

theorem count_doubling : ∃ trace m' tag,
    (traceForward (.ref 1) Doubling.catalog).outcome Doubling.machine = (.ok trace, m') ∧
    m'.heap.tag? 4 = some tag ∧
    tag.count = ((Doubling.machine.heap.tag? 4).map (·.count)).getD 0 +
      (trace.calls.flatMap (·.consumed)).countP (·.object = 4) := by
  obtain ⟨trace, m', h⟩ := Doubling.exists_trace
  have hsome : (m'.heap.tag? 4).isSome := by
    have hsome : (((traceForward (.ref 1) Doubling.catalog).outcome
        Doubling.machine).2.heap.tag? 4).isSome := by decide +kernel
    rwa [h] at hsome
  obtain ⟨tag, htag⟩ := Option.isSome_iff_exists.mp hsome
  exact ⟨trace, m', tag, h, htag, count_traceForward h htag⟩

end ModelGraph
