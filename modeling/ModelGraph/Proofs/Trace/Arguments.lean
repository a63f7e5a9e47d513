import Mathlib.Data.Set.Operations
import Mathlib.Order.Fin.Basic
import ModelGraph.Proofs.Trace.Allotment

/-!
# What becomes of arguments

A call that fits a schema is recorded with the arguments where they were allotted. Those without keywords
lie along a strictly increasing map to the parameters. Keywords count for parameters without tensors only,
and a required parameter is bound only if its turn comes before the end of the arguments.
-/

namespace ModelGraph

open Exec
open Operator (Parameter)

variable {m m' : Machine}

/-! ## Positional arguments

A call whose arguments have no keywords fits a schema along a strictly increasing map from its arguments
to the parameters: each parameter of the image takes its argument, and those that the map passes over are
optional. The call is recorded along the map. -/

/-- The parameter takes a value without a keyword. -/
def Operator.Parameter.Takes (p : Parameter) (h : Heap) (v : Value) : Prop :=
  match p.kind with
  | .tensor => h.isTensorOrNone v
  | .tensorList => ∃ items, h.items? v = some items ∧ ∀ item ∈ items, h.isTensorOrNone item
  | kind => h.fits v kind ∨ v.isNone

theorem takes_iff {h : Heap} {p : Parameter} {v : Value} :
    p.Takes h v ↔ p.fit h (none, v) ≠ .misfit := by
  unfold Parameter.Takes Parameter.fit
  cases p.kind with
  | tensor => simp
  | tensorList =>
      cases h.items? v with
      | none => simp
      | some items => simp
  | _ => simp [or_iff_not_imp_left]

/-- Where positional arguments go. -/
structure Placement (h : Heap) (parameters : List Parameter) (values : List Value) where
  place : Fin values.length → Fin parameters.length
  strictMono : StrictMono place
  takes : ∀ i, (parameters.get (place i)).Takes h (values.get i)
  /-- What is passed over before the last place is optional. -/
  optional : ∀ i q, q < place i → q ∉ Set.range place → (parameters.get q).optional

namespace Placement

variable {h : Heap} {parameters : List Parameter} {values : List Value} {p : Parameter} {v : Value}

def empty (h : Heap) (parameters : List Parameter) : Placement h parameters [] where
  place i := i.elim0
  strictMono i := i.elim0
  takes i := i.elim0
  optional i := i.elim0

/-- The first parameter takes the first value. -/
def took (P : Placement h parameters values) (hv : p.Takes h v) :
    Placement h (p :: parameters) (v :: values) where
  place := Fin.cases 0 fun i => (P.place i).succ
  strictMono := by
    intro i j hij
    cases j using Fin.cases with
    | zero => exact (Fin.not_lt_zero i hij).elim
    | succ j =>
        cases i using Fin.cases with
        | zero => exact Fin.succ_pos _
        | succ i => exact Fin.succ_lt_succ_iff.mpr (P.strictMono (Fin.succ_lt_succ_iff.mp hij))
  takes := Fin.cases hv P.takes
  optional := by
    intro i q hq hrange
    cases q using Fin.cases with
    | zero => exact (hrange ⟨0, rfl⟩).elim
    | succ q =>
        cases i using Fin.cases with
        | zero => exact (Fin.not_lt_zero _ hq).elim
        | succ i =>
            apply P.optional i q (Fin.succ_lt_succ_iff.mp hq)
            rintro ⟨j, rfl⟩
            exact hrange ⟨j.succ, rfl⟩

/-- The first parameter is passed over. -/
def left (P : Placement h parameters values) (hoptional : p.optional) :
    Placement h (p :: parameters) values where
  place i := (P.place i).succ
  strictMono := Fin.strictMono_succ.comp P.strictMono
  takes := P.takes
  optional := by
    intro i q hq hrange
    cases q using Fin.cases with
    | zero => exact hoptional
    | succ q =>
        apply P.optional i q (Fin.succ_lt_succ_iff.mp hq)
        rintro ⟨j, rfl⟩
        exact hrange ⟨j, rfl⟩

/-- The arguments in their order, with their parameters. -/
def arguments (P : Placement h parameters values) : List (Parameter × PendingArgument) :=
  List.ofFn fun i => (parameters.get (P.place i), none, values.get i)

theorem arguments_took (P : Placement h parameters values) (hv : p.Takes h v) :
    (P.took hv).arguments = (p, none, v) :: P.arguments :=
  List.ofFn_succ

end Placement

theorem Heap.unpackFront_positional {h : Heap} {values : List Value} {unpacked : List PendingArgument}
    (hspreads : ∀ v ∈ values, h.spreads v = false)
    (hunpack : unpackFront h (values.map (none, ·)) = .ok unpacked) :
    unpacked = values.map (none, ·) := by
  apply unpackFront_eq_self hunpack
  simpa using hspreads

/-- Arguments without keywords that fit are placed. -/
theorem Allots.exists_placement {h : Heap} {parameters : List Parameter} {values : List Value}
    {a : Allotment} (hspreads : ∀ v ∈ values, h.spreads v = false)
    (hallots : Allots h parameters (values.map (none, ·)) a) :
    a.byName = [] ∧ ∃ P : Placement h parameters values, a.taken = P.arguments := by
  generalize harguments : values.map ((none, ·) : Value → PendingArgument) = arguments at hallots
  induction hallots generalizing values with subst harguments
  | finished hunpack =>
      obtain rfl := List.map_eq_nil_iff.mp (Heap.unpackFront_positional hspreads hunpack).symm
      exact ⟨rfl, .empty h _, rfl⟩
  | byName hunpack hkeywords =>
      -- None of the arguments has a keyword, so none can be left for the names.
      cases Heap.unpackFront_positional hspreads hunpack
      cases values with
      | nil => exact ⟨rfl, .empty h _, rfl⟩
      | cons v rest => cases hkeywords _ List.mem_cons_self
  | took hunpack hfit _ ih =>
      cases values with
      | nil => cases hunpack
      | cons v rest =>
          cases Heap.unpackFront_positional hspreads hunpack
          obtain ⟨hnone, P, htaken⟩ := ih (List.forall_mem_cons.mp hspreads).2 rfl
          refine ⟨hnone, P.took (takes_iff.mpr hfit), ?_⟩
          rw [Allotment.taken_turn_some, htaken, Placement.arguments_took]
  | left hunpack _ hoptional _ ih =>
      obtain ⟨hnone, P, htaken⟩ := ih hspreads (Heap.unpackFront_positional hspreads hunpack).symm
      exact ⟨hnone, P.left hoptional, htaken⟩

/-- A call without keywords either fits a schema, and is recorded once along a placement of its arguments
with one slot for each output, or does not fit, and is not recorded. -/
theorem positional_matchSchema {call : String} {schema : Operator.Schema} {values : List Value}
    {wantsInt : Bool} {result : Except RunError (Option Value)} (htraced : m.tracer?.isSome)
    (hspreads : ∀ v ∈ values, m.heap.spreads v = false)
    (h : (matchSchema call schema { positional := values } wantsInt).outcome m = (result, m')) :
    ((∃ v, result = .ok (some v)) ∧
      ∃ (P : Placement m.heap schema.parameters values) (traced : TracedCall),
        m'.calls = m.calls ++ [traced] ∧ traced.name = call ∧ traced.schema = schema ∧
        List.Forall₂ (Parameter.Fills m.heap m'.heap) (P.arguments.filter (·.1.kind.isTensor))
          traced.inputs ∧
        traced.attributes =
          (P.arguments.filter (!·.1.kind.isTensor)).map (fun e => (e.1.name, e.2.2)) ∧
        traced.outputs.length = schema.outputs.length) ∨
    (∀ v, result ≠ .ok (some v)) ∧ m'.calls = m.calls := by
  by_cases hfits : ∃ v, result = .ok (some v)
  · left
    obtain ⟨v, rfl⟩ := hfits
    obtain ⟨a, traced, hallots, hcalls, hname, hschema, hrecorded, hlength⟩ :=
      exists_recorded htraced h
    have hpending : ({ positional := values } : Arguments).pending = values.map (none, ·) :=
      List.append_nil _
    rw [hpending] at hallots
    obtain ⟨hnone, P, htaken⟩ := hallots.exists_placement hspreads
    refine ⟨⟨v, rfl⟩, P, traced, hcalls, hname, hschema, ?_, ?_, hlength⟩
    · rw [← htaken]
      exact hrecorded.inputs
    · rw [← htaken, hrecorded.attributes, Allotment.attributes, Allotment.found, hnone]
      exact List.append_nil _
  · right
    refine ⟨fun v hv => hfits ⟨v, hv⟩, ?_⟩
    cases attempted_of_outcome htraced h with
    | recorded => exact (hfits ⟨_, rfl⟩).elim
    | failed _ hmarks => exact hmarks.calls_eq

/-! A call that passes over an optional parameter. -/

namespace Skipping

def schema : Operator.Schema where
  name := "torch.join"
  inputs := [.typed "self" "Tensor", (Operator.Parameter.typed "mask" "Tensor").asOptional,
    .typed "others" "Tensor[]"]
  attributes := [(Operator.Parameter.typed "dim" "int64").asOptional, .typed "mode" "string"]
  outputs := [.typed "result" "Tensor"]

def machine : Machine where
  heap := ⟨#[.namespace {}, .instance { module := "torch", name := "Tensor" },
    .instance { module := "torch", name := "Tensor" }, .list [.ref 2, .none]]⟩
  tracer? := some { catalog := .ofList [schema] }

/-- The mask and the dimension are left out. -/
def values : List Value := [.ref 1, .ref 3, .str "same"]

def attempt : Exec (Option Value) := matchSchema "torch.join" schema { positional := values } false

theorem exists_match : ∃ v m', attempt.outcome machine = (.ok (some v), m') ∧
    (m'.calls.flatMap (·.inputs)).map (·.map (·.object)) = [[1], [2, 4]] ∧
    m'.calls.map (·.attributes) = [[("mode", .str "same")]] := by
  have hsome : (attempt.outcome machine).1.toOption.join.isSome := by decide +kernel
  obtain ⟨v, h⟩ := outcome_eq_of_isSome hsome
  exact ⟨v, _, h, by decide +kernel, by decide +kernel⟩

end Skipping

theorem positional_matchSchema_skipping : ∃ v m',
    Skipping.attempt.outcome Skipping.machine = (.ok (some v), m') ∧
    (m'.calls.flatMap (·.inputs)).map (·.map (·.object)) = [[1], [2, 4]] ∧
    m'.calls.map (·.attributes) = [[("mode", .str "same")]] ∧
    ∃ (P : Placement Skipping.machine.heap Skipping.schema.parameters Skipping.values)
      (traced : TracedCall),
      m'.calls = Skipping.machine.calls ++ [traced] ∧ traced.name = "torch.join" ∧
      traced.schema = Skipping.schema ∧
      List.Forall₂ (Parameter.Fills Skipping.machine.heap m'.heap)
        (P.arguments.filter (·.1.kind.isTensor)) traced.inputs ∧
      traced.attributes =
        (P.arguments.filter (!·.1.kind.isTensor)).map (fun e => (e.1.name, e.2.2)) ∧
      traced.outputs.length = Skipping.schema.outputs.length := by
  obtain ⟨v, m', h, hslots, hattributes⟩ := Skipping.exists_match
  obtain ⟨-, hplaced⟩ := (positional_matchSchema rfl (by decide) h).resolve_right
    fun hfailed => hfailed.1 v rfl
  exact ⟨v, m', h, hslots, hattributes, hplaced⟩

/-! ## Arguments with keywords

An argument with a keyword is recorded under that name if its parameter takes no tensors. A parameter of
tensors takes it when its turn comes, whatever the keyword; and one that looks for its name at last is
dropped if the parameter of that name is optional and does not fit it. -/

/-- What becomes of the arguments with keywords when a call fits a schema: each is recorded as the attribute
of its name, or is in the slot of a parameter of tensors, or is dropped. -/
theorem keywords_matchSchema {call : String} {schema : Operator.Schema} {arguments : Arguments}
    {wantsInt : Bool} {v : Value} (htraced : m.tracer?.isSome)
    (h : (matchSchema call schema arguments wantsInt).outcome m = (.ok (some v), m')) :
    ∃ a traced, Allots m.heap schema.parameters arguments.pending a ∧
      m'.calls = m.calls ++ [traced] ∧ a.Recorded m.heap m'.heap traced ∧
      ∀ name value, (name, value) ∈ arguments.named → m.heap.spreads value = false →
        ((name, value) ∈ traced.attributes ∧
          ∃ p ∈ schema.parameters, p.name = name ∧ p.kind.isTensor = false) ∨
        (∃ p ∈ schema.parameters, p.kind.isTensor = true ∧
          ∃ slot, ((p, some name, value), slot) ∈ a.consumed.zip traced.inputs ∧
            Parameter.Fills m.heap m'.heap (p, some name, value) slot) ∨
        ∃ p ∈ a.untried, p.name = name ∧ p.optional ∧ m.heap.fits value p.kind = false := by
  obtain ⟨a, traced, hallots, hcalls, -, -, hrecorded, -⟩ := exists_recorded htraced h
  refine ⟨a, traced, hallots, hcalls, hrecorded, fun name value hmem hspreads => ?_⟩
  have hpending : (some name, value) ∈ arguments.pending :=
    List.mem_append_right _ (List.mem_map.mpr ⟨(name, value), hmem, rfl⟩)
  rcases hallots.mem_taken_or_byName hpending hspreads with ⟨p, htaken⟩ | hbyName
  · have hp : p ∈ schema.parameters := by
      rw [← hallots.parameters_eq]
      exact Allotment.mem_parameters_of_taken htaken
    cases hkind : p.kind.isTensor with
    | false =>
        left
        obtain ⟨-, hname⟩ := attribute_of_fit (hallots.attribute_of_taken htaken hkind)
        obtain rfl := hname name rfl
        exact ⟨hrecorded.mem_attributes_of_taken htaken hkind, p, hp, rfl, hkind⟩
    | true =>
        right; left
        exact ⟨p, hp, hkind, hrecorded.exists_slot (List.mem_filter.mpr ⟨htaken, hkind⟩)⟩
  · obtain ⟨p, hfind, hkind, hfits⟩ := hallots.answered hbyName
    have hp := List.mem_of_find?_eq_some hfind
    have hname : p.name = name := by
      simpa [Parameter.answers] using List.find?_some hfind
    cases hvalue : m.heap.fits value p.kind with
    | false =>
        right; right
        exact ⟨p, hp, hname, hfits.resolve_left (by simp [hvalue]), hvalue⟩
    | true =>
        left
        subst hname
        refine ⟨hrecorded.mem_attributes_of_found hbyName hfind hvalue, p, ?_, rfl, hkind⟩
        rw [← hallots.parameters_eq]
        exact List.mem_append_right _ hp

/-! A call that names its operands in another order. -/

namespace Swapped

def schema : Operator.Schema where
  name := "torch.linear"
  inputs := [.typed "input" "Tensor", .typed "weight" "Tensor",
    (Operator.Parameter.typed "bias" "Tensor").asOptional]
  outputs := [.typed "result" "Tensor"]

def machine : Machine where
  heap := ⟨#[.namespace {}, .instance { module := "torch", name := "Tensor" },
    .instance { module := "torch", name := "Tensor" },
    .instance { module := "torch", name := "Tensor" }]⟩
  tracer? := some { catalog := .ofList [schema] }

def call : Arguments where
  positional := [.ref 1]
  named := [("bias", .ref 3), ("weight", .ref 2)]

def attempt : Exec (Option Value) := matchSchema "torch.linear" schema call false

/-- The second slot, which is that of the weight, has the bias. -/
theorem exists_match : ∃ v m', attempt.outcome machine = (.ok (some v), m') ∧
    (m'.calls.flatMap (·.inputs)).map (·.map (·.object)) = [[1], [3], [2]] := by
  have hsome : (attempt.outcome machine).1.toOption.join.isSome := by decide +kernel
  obtain ⟨v, h⟩ := outcome_eq_of_isSome hsome
  exact ⟨v, _, h, by decide +kernel⟩

end Swapped

theorem keywords_matchSchema_swapped : ∃ v m',
    Swapped.attempt.outcome Swapped.machine = (.ok (some v), m') ∧
    (m'.calls.flatMap (·.inputs)).map (·.map (·.object)) = [[1], [3], [2]] ∧
    ∃ a traced, Allots Swapped.machine.heap Swapped.schema.parameters Swapped.call.pending a ∧
      m'.calls = Swapped.machine.calls ++ [traced] ∧
      a.Recorded Swapped.machine.heap m'.heap traced ∧
      ∀ name value, (name, value) ∈ Swapped.call.named →
        Swapped.machine.heap.spreads value = false →
        ((name, value) ∈ traced.attributes ∧
          ∃ p ∈ Swapped.schema.parameters, p.name = name ∧ p.kind.isTensor = false) ∨
        (∃ p ∈ Swapped.schema.parameters, p.kind.isTensor = true ∧
          ∃ slot, ((p, some name, value), slot) ∈ a.consumed.zip traced.inputs ∧
            Parameter.Fills Swapped.machine.heap m'.heap (p, some name, value) slot) ∨
        ∃ p ∈ a.untried, p.name = name ∧ p.optional ∧
          Swapped.machine.heap.fits value p.kind = false := by
  obtain ⟨v, m', h, hslots⟩ := Swapped.exists_match
  exact ⟨v, m', h, hslots, keywords_matchSchema rfl h⟩

/-! ## Required parameters

A required parameter takes the argument of its turn, or else the call does not fit. But the turns end with
the arguments, and nothing looks at the parameters that are left then: a call fits that has no argument for
a required one. -/

/-- The recorded call has the argument for this parameter, in a slot or as the attribute of its name. -/
inductive Allotment.Supplies (a : Allotment) (start final : Heap) (traced : TracedCall)
    (p : Parameter) (next : PendingArgument) : Prop
  | slot {values} (hkind : p.kind.isTensor = true)
      (hslot : ((p, next), values) ∈ a.consumed.zip traced.inputs)
      (hfills : Parameter.Fills start final (p, next) values)
  | byName (hkind : p.kind.isTensor = false) (hattribute : (p.name, next.2) ∈ traced.attributes)
      (hfits : start.fits next.2 p.kind ∨ next.2.isNone)

namespace Allots

variable {start final : Heap} {parameters : List Parameter} {arguments : List PendingArgument}
  {a : Allotment} {traced : TracedCall} {p : Parameter} {next : PendingArgument}

theorem supplies_of_taken (hallots : Allots start parameters arguments a)
    (hrecorded : a.Recorded start final traced) (htaken : (p, next) ∈ a.taken) :
    a.Supplies start final traced p next := by
  cases hkind : p.kind.isTensor with
  | true =>
      have hconsumed : (p, next) ∈ a.consumed := List.mem_filter.mpr ⟨htaken, hkind⟩
      obtain ⟨values, hslot, hfills⟩ := hrecorded.exists_slot hconsumed
      exact .slot hkind hslot hfills
  | false =>
      obtain ⟨hfits, -⟩ := attribute_of_fit (hallots.attribute_of_taken htaken hkind)
      exact .byName hkind (hrecorded.mem_attributes_of_taken htaken hkind) hfits

/-- A required parameter that is found by name is bound, since it cannot leave the argument out. -/
theorem supplies_of_found (hallots : Allots start parameters arguments a)
    (hrecorded : a.Recorded start final traced) (hnext : next ∈ a.byName)
    (hfind : a.untried.find? (·.answers next) = some p) (hrequired : p.optional = false) :
    a.Supplies start final traced p next := by
  obtain ⟨q, hq, hkind, hfits⟩ := hallots.answered hnext
  cases hfind.symm.trans hq
  have hfits := hfits.resolve_right (by simp [hrequired])
  exact .byName hkind (hrecorded.mem_attributes_of_found hnext hfind hfits) (.inl hfits)

/-- A parameter that had its turn took an argument or is optional. -/
theorem exists_taken (hallots : Allots start parameters arguments a)
    (htried : p ∈ a.tried.map (·.1)) (hrequired : p.optional = false) :
    ∃ next, (p, next) ∈ a.taken := by
  obtain ⟨⟨p, taken?⟩, hmem, rfl⟩ := List.mem_map.mp htried
  cases taken? with
  | none =>
      have hoptional := hallots.optional_of_left hmem
      rw [hrequired] at hoptional
      cases hoptional
  | some next => exact ⟨next, List.mem_filterMap.mpr ⟨_, hmem, rfl⟩⟩

end Allots

/-- When a call fits a schema, each required parameter is bound to an argument that fits it, unless its turn
does not come: then every argument went to another parameter before. -/
theorem required_matchSchema {call : String} {schema : Operator.Schema} {arguments : Arguments}
    {wantsInt : Bool} {v : Value} (htraced : m.tracer?.isSome)
    (h : (matchSchema call schema arguments wantsInt).outcome m = (.ok (some v), m')) :
    ∃ a traced, Allots m.heap schema.parameters arguments.pending a ∧
      m'.calls = m.calls ++ [traced] ∧ traced.schema = schema ∧
      ∀ p ∈ schema.parameters, p.optional = false →
        (∃ next, ((p, next) ∈ a.taken ∨ next ∈ a.byName) ∧
          a.Supplies m.heap m'.heap traced p next) ∨
        p ∈ a.untried ∧ ∀ next ∈ arguments.pending, m.heap.spreads next.2 = false →
          ∃ q, q ≠ p ∧ ((q, next) ∈ a.taken ∨
            next ∈ a.byName ∧ a.untried.find? (·.answers next) = some q) := by
  obtain ⟨a, traced, hallots, hcalls, -, hschema, hrecorded, -⟩ := exists_recorded htraced h
  refine ⟨a, traced, hallots, hcalls, hschema, fun p hp hrequired => ?_⟩
  by_cases htaken : ∃ next, (p, next) ∈ a.taken
  · obtain ⟨next, htaken⟩ := htaken
    exact .inl ⟨next, .inl htaken, hallots.supplies_of_taken hrecorded htaken⟩
  · by_cases hfound : ∃ next ∈ a.byName, a.untried.find? (·.answers next) = some p
    · obtain ⟨next, hnext, hfind⟩ := hfound
      exact .inl ⟨next, .inr hnext, hallots.supplies_of_found hrecorded hnext hfind hrequired⟩
    · -- Nothing was bound to the parameter, so its turn did not come and nothing is lost on it.
      right
      constructor
      · rw [← hallots.parameters_eq] at hp
        refine (List.mem_append.mp hp).resolve_left fun htried => ?_
        exact htaken (hallots.exists_taken htried hrequired)
      · intro next hnext hspreads
        rcases hallots.mem_taken_or_byName hnext hspreads with ⟨q, hq⟩ | hbyName
        · refine ⟨q, ?_, .inl hq⟩
          rintro rfl
          exact htaken ⟨next, hq⟩
        · obtain ⟨q, hq, -⟩ := hallots.answered hbyName
          refine ⟨q, ?_, .inr ⟨hbyName, hq⟩⟩
          rintro rfl
          exact hfound ⟨next, hbyName, hq⟩

/-! A call without the factor that its overload requires. -/

namespace Factorless

def schema : Operator.Schema where
  name := "torch.scale:by"
  inputs := [.typed "self" "Tensor"]
  attributes := [.typed "factor" "Scalar"]
  outputs := [.typed "result" "Tensor"]

def machine : Machine where
  heap := ⟨#[.namespace {}, .instance { module := "torch", name := "Tensor" }]⟩
  tracer? := some { catalog := .ofList [schema] }

def call : Arguments := { positional := [.ref 1] }

def attempt : Exec (Option Value) := matchSchema "torch.scale" schema call false

theorem exists_match : ∃ v m', attempt.outcome machine = (.ok (some v), m') ∧
    m'.calls.map (·.attributes) = [[]] := by
  have hsome : (attempt.outcome machine).1.toOption.join.isSome := by decide +kernel
  obtain ⟨v, h⟩ := outcome_eq_of_isSome hsome
  exact ⟨v, _, h, by decide +kernel⟩

end Factorless

theorem required_matchSchema_factorless : ∃ v m',
    Factorless.attempt.outcome Factorless.machine = (.ok (some v), m') ∧
    m'.calls.map (·.attributes) = [[]] ∧
    ∃ a traced, Allots Factorless.machine.heap Factorless.schema.parameters
        Factorless.call.pending a ∧
      m'.calls = Factorless.machine.calls ++ [traced] ∧ traced.schema = Factorless.schema ∧
      ∀ p ∈ Factorless.schema.parameters, p.optional = false →
        (∃ next, ((p, next) ∈ a.taken ∨ next ∈ a.byName) ∧
          a.Supplies Factorless.machine.heap m'.heap traced p next) ∨
        p ∈ a.untried ∧ ∀ next ∈ Factorless.call.pending,
          Factorless.machine.heap.spreads next.2 = false →
          ∃ q, q ≠ p ∧ ((q, next) ∈ a.taken ∨
            next ∈ a.byName ∧ a.untried.find? (·.answers next) = some q) := by
  obtain ⟨v, m', h, hattributes⟩ := Factorless.exists_match
  exact ⟨v, m', h, hattributes, required_matchSchema rfl h⟩

end ModelGraph
