import ModelGraph.Proofs.Graph.Elision
import ModelGraph.Proofs.Trace.Attempts
import ModelGraph.Proofs.Trace.Binding

/-!
# The names of input slots

The graph names the slots of a call after the inputs of its schema, one after another. These are the
parameters that took the values if the schema is regular; an optional input that takes nothing before
one that does, or an attribute that takes a tensor, leaves slots with the names of others.
-/

namespace ModelGraph

open Exec

variable {m m' : Machine}

theorem names_nameSlots {first parameters : List Operator.Parameter} (h : first <+: parameters)
    {slots : List (List Argument)} (hlength : slots.length = first.length) :
    (ModuleTree.nameSlots parameters slots).map (·.name) = first.map (·.name) := by
  apply List.ext_getElem
  · simp [ModuleTree.nameSlots, hlength]
  · intro i hi hi'
    rw [List.length_map] at hi'
    have hparameter : parameters[i]? = some first[i] := by
      obtain ⟨rest, rfl⟩ := h
      rw [List.getElem?_append_left hi', List.getElem?_eq_getElem hi']
    simp [ModuleTree.nameSlots, hparameter]

theorem arguments_nameSlots (parameters : List Operator.Parameter) (slots : List (List Argument)) :
    (ModuleTree.nameSlots parameters slots).map (·.arguments) = slots := by
  apply List.ext_getElem
  · simp [ModuleTree.nameSlots]
  · intro i hi hi'
    simp [ModuleTree.nameSlots]

/-- The slots of a call whose values were taken by the first inputs of its schema. -/
theorem slots_callNode (t : ModuleTree) (s : Snapshot) {call : TracedCall}
    {taken : List (Operator.Parameter × List TracedValue)}
    (htaken : call.inputs = taken.map (·.2)) (hfirst : taken.map (·.1) <+: call.schema.inputs) :
    (t.callNode s call).1.inputs.map (fun slot => (slot.name, slot.arguments.map (·.name))) =
      taken.map fun e => (e.1.name, e.2.map (·.name)) := by
  have hslots : (t.callNode s call).1.inputs =
      ModuleTree.nameSlots call.schema.inputs (t.claim s call).1 := rfl
  have hvalues : (t.claim s call).1.map (·.map (·.name)) = taken.map fun e => e.2.map (·.name) := by
    rw [t.names_claim, htaken, List.map_map]
    rfl
  have hlength : (t.claim s call).1.length = (taken.map (·.1)).length := by
    simpa using congrArg List.length hvalues
  have hnames := names_nameSlots hfirst hlength
  have harguments := arguments_nameSlots call.schema.inputs (t.claim s call).1
  rw [hslots, ← List.zip_map', ← List.zip_map', hnames, List.map_map]
  congr 1
  calc (ModuleTree.nameSlots call.schema.inputs (t.claim s call).1).map
        (fun slot => slot.arguments.map (·.name))
      = (t.claim s call).1.map (·.map (·.name)) := by
        conv_rhs => rw [← harguments, List.map_map]
        rfl
    _ = taken.map fun e => e.2.map (·.name) := hvalues

/-- A call that matches a schema is recorded with the inputs that were bound. -/
theorem matchSchema_some {call : String} {schema : Operator.Schema} {arguments : Arguments}
    {wantsInt : Bool} {v : Value} (htraced : m.tracer?.isSome)
    (h : (matchSchema call schema arguments wantsInt).outcome m = (.ok (some v), m')) :
    ∃ b m₁ traced, (bindArguments schema.parameters arguments.pending {}).outcome m =
        (.ok (some b), m₁) ∧
      m'.calls = m.calls ++ [traced] ∧ traced.schema = schema ∧ traced.inputs = b.inputs := by
  obtain ⟨b, m₁, made, hbound, hcalls, -⟩ := exists_call_of_outcome htraced h
  exact ⟨b, m₁, _, hbound, hcalls, rfl, rfl⟩

/-- Each input slot of a recorded call has the name of the parameter that took its values, if the
schema is regular and at most one argument is packed. -/
theorem slots_matchSchema {call : String} {schema : Operator.Schema} {arguments : Arguments}
    {wantsInt : Bool} {v : Value} (hregular : schema.Regular) (htraced : m.tracer?.isSome)
    (hlone : m.heap.LonePacked arguments.pending)
    (h : (matchSchema call schema arguments wantsInt).outcome m = (.ok (some v), m')) :
    ∃ b taken m₁ traced, m'.calls = m.calls ++ [traced] ∧
      (bindNoting schema.parameters arguments.pending {}).outcome m =
        (.ok (some (b, taken)), m₁) ∧
      ∀ (t : ModuleTree) (s : Snapshot),
        (t.callNode s traced).1.inputs.map (fun slot => (slot.name, slot.arguments.map (·.name))) =
          taken.map fun e => (e.1.name, e.2.map (·.name)) := by
  obtain ⟨b, m₁, traced, hbound, hcalls, hschema, hinputs⟩ := matchSchema_some htraced h
  rw [← bindNoting_forget] at hbound
  obtain ⟨bound?, m₂, hnoted, hforget⟩ := outcome_bind_eq_ok hbound
  obtain ⟨hsome, rfl⟩ := Prod.mk.inj hforget
  obtain ⟨⟨b', taken⟩, rfl, rfl⟩ := Option.map_eq_some_iff.mp (Except.ok.inj hsome)
  refine ⟨b', taken, m₂, traced, hcalls, hnoted, ?_⟩
  intro t s
  apply slots_callNode
  · rw [hinputs, inputs_bindNoting hnoted, List.nil_append]
  · rw [hschema]
    exact taken_prefix_inputs hregular hnoted hlone

namespace Linear

def schema : Operator.Schema where
  name := "torch.linear"
  inputs := [.typed "input" "Tensor", .typed "weight" "Tensor",
    (Operator.Parameter.typed "bias" "Tensor").asOptional]
  outputs := [.typed "result" "Tensor"]

def machine : Machine where
  heap := ⟨#[.namespace {}, .instance { module := "torch", name := "Tensor" },
    .instance { module := "torch", name := "Tensor" }]⟩
  tracer? := some { catalog := .ofList [schema] }

def call : Arguments := { positional := [.ref 1, .ref 2] }

theorem exists_match : ∃ v m', (matchSchema "torch.linear" schema call false).outcome machine =
    (.ok (some v), m') := by
  have hok : ((matchSchema "torch.linear" schema call false).outcome machine).1.toOption.join.isSome := by
    decide +kernel
  rcases h : (matchSchema "torch.linear" schema call false).outcome machine with ⟨_ | _ | v, m'⟩
  · rw [h] at hok
    cases hok
  · rw [h] at hok
    cases hok
  · exact ⟨v, m', rfl⟩

end Linear

theorem slots_matchSchema_linear : ∃ v m',
    (matchSchema "torch.linear" Linear.schema Linear.call false).outcome Linear.machine =
      (.ok (some v), m') ∧
    ∃ b taken m₁ traced, m'.calls = Linear.machine.calls ++ [traced] ∧
      (bindNoting Linear.schema.parameters Linear.call.pending {}).outcome Linear.machine =
        (.ok (some (b, taken)), m₁) ∧
      ∀ (t : ModuleTree) (s : Snapshot),
        (t.callNode s traced).1.inputs.map (fun slot => (slot.name, slot.arguments.map (·.name))) =
          taken.map fun e => (e.1.name, e.2.map (·.name)) := by
  obtain ⟨v, m', h⟩ := Linear.exists_match
  refine ⟨v, m', h, slots_matchSchema (by decide +kernel) rfl (.of_none ?_) h⟩
  decide +kernel

end ModelGraph
