import ModelGraph.Proofs.Trace.SingleAssignment

/-!
# Names and objects

An instance keeps its name through a trace. Where the names on the heap tell instances apart, are no
numbers, and are not those of the parameters, and where no parameter stands for two tensors, the names
in the trace tell its instances apart as well.
-/

namespace ModelGraph

open Exec
open Script (Expr)

namespace Machine

/-- The names on the heap are available ones, and no two instances bear the same. -/
structure Identified (start : String → Prop) (m : Machine) : Prop where
  names : ∀ {id name}, m.heap.nameOf? id = some name → Available start m.minted name
  distinct : ∀ {id id' name}, m.heap.nameOf? id = some name → m.heap.nameOf? id' = some name →
    id = id'

variable {start start' : String → Prop} {m m' : Machine}

theorem Identified.mono (hm : Identified start m) (hstart : ∀ name, start name → start' name) :
    Identified start' m where
  names hname := (hm.names hname).imp_left (hstart _)
  distinct := hm.distinct

/-- Numbers that count on name no instance like another. -/
theorem Names.identified (h : m.Names (fun _ => False) m') (hstart : ∀ k : Nat, ¬start (toString k))
    (hm : Identified start m) : Identified start m' := by
  have hnumber {id : Nat} {name : String} (hnone : m.heap.nameOf? id = none)
      (hname : m'.heap.nameOf? id = some name) :
      ∃ k, m.minted < k ∧ k ≤ m'.minted ∧ name = toString k :=
    (h.name_new hnone hname).resolve_left not_false
  -- A name from before is no number given since.
  have hclash {id id' : Nat} {old name : String} (hold : m.heap.nameOf? id = some old)
      (hname : m'.heap.nameOf? id = some name) (hnone : m.heap.nameOf? id' = none)
      (hname' : m'.heap.nameOf? id' = some name) : False := by
    obtain rfl := Option.some.inj ((h.name_kept hold).symm.trans hname)
    obtain ⟨k, hk, -, rfl⟩ := hnumber hnone hname'
    rcases hm.names hold with hgiven | ⟨l, hl, heq⟩
    · exact hstart k hgiven
    · rw [toString_inj.mp heq] at hk
      exact Nat.not_le_of_lt hk hl
  constructor
  · intro id name hname
    rcases hold : m.heap.nameOf? id with _ | old
    · obtain ⟨k, -, hk, rfl⟩ := hnumber hold hname
      exact .inr ⟨k, hk, rfl⟩
    · obtain rfl := Option.some.inj ((h.name_kept hold).symm.trans hname)
      exact (hm.names hold).mono h.minted_le
  · intro id id' name hname hname'
    rcases hold : m.heap.nameOf? id with _ | old <;> rcases hold' : m.heap.nameOf? id' with _ | old'
    · exact h.number_injective hold hold' hname hname' not_false
    · exact (hclash hold' hname' hold hname).elim
    · exact (hclash hold hname hold' hname').elim
    · obtain rfl := Option.some.inj ((h.name_kept hold).symm.trans hname)
      obtain rfl := Option.some.inj ((h.name_kept hold').symm.trans hname')
      exact hm.distinct hold hold'

theorem Identified.record (hm : Identified start m) (call : TracedCall) :
    Identified start (m.record call) := by
  constructor
  · intro id name hname
    rw [nameOf?_record] at hname
    rw [minted_record]
    exact hm.names hname
  · intro id id' name hname hname'
    rw [nameOf?_record] at hname hname'
    exact hm.distinct hname hname'

/-- A new instance with a new name is like no other. -/
theorem Identified.push (hm : Identified start m) {i : Instance} {name : String}
    (hname : i.tag.name? = some name) (hfresh : ¬Available start m.minted name) :
    Identified (fun other => start other ∨ other = name)
      (m.withHeap (m.heap.push (.instance i))) := by
  have hnames (id : Nat) : (m.heap.push (.instance i)).nameOf? id =
      if id = m.heap.size then some name else m.heap.nameOf? id := by
    rw [Heap.nameOf?_push, ← hname]
    rfl
  constructor
  · intro id other hother
    rw [heap_withHeap, hnames] at hother
    split_ifs at hother
    · exact .inl (.inr (Option.some.inj hother).symm)
    · exact (hm.names hother).imp_left .inl
  · intro id id' other hother hother'
    rw [heap_withHeap, hnames] at hother hother'
    split_ifs at hother hother' with hid hid' hid'
    · rw [hid, hid']
    · obtain rfl := Option.some.inj hother
      exact (hfresh (hm.names hother')).elim
    · obtain rfl := Option.some.inj hother'
      exact (hfresh (hm.names hother)).elim
    · exact hm.distinct hother hother'

theorem Records.identified (h : Records (fun _ => False) m m')
    (hstart : ∀ k : Nat, ¬start (toString k)) (hm : Identified start m) : Identified start m' := by
  induction h with
  | names h => exact h.identified hstart hm
  | call h => exact (h.identified hstart hm).record _
  | trans _ _ ih ih' => exact ih' (ih hm)

/-- A known instance bears its name on the heap. -/
theorem Knows.nameOf?_eq {v : TracedValue} (hv : m.Knows v)
    (hobject : (m.heap.tag? v.object).isSome) : m.heap.nameOf? v.object = some v.name := by
  rcases hv.named with hname | ⟨hnone, -⟩
  · exact hname
  · rw [hnone] at hobject
    contradiction

/-- Where names tell instances apart, so do those of known values. -/
theorem Identified.name_eq_iff (hm : Identified start m) {v w : TracedValue} (hv : m.Knows v)
    (hw : m.Knows w) (hobject : (m.heap.tag? v.object).isSome)
    (hobject' : (m.heap.tag? w.object).isSome) : v.name = w.name ↔ v.object = w.object := by
  have hname := hv.nameOf?_eq hobject
  have hname' := hw.nameOf?_eq hobject'
  constructor
  · intro heq
    rw [heq] at hname
    exact hm.distinct hname hname'
  · intro heq
    rw [heq, hname'] at hname
    exact (Option.some.inj hname).symm

end Machine

/-! ## Placeholders -/

namespace Trace

/-- How many tensors a placeholder of the named type holds, given those for its arguments. -/
def tensorsOfType (type : String) (arguments : Nat) : Nat :=
  match (Script.dotParts type).getLastD "" with
  | "Tensor" => 1
  | "Tuple" | "List" => arguments
  | _ => 0

mutual

/-- How many tensors a placeholder of the declared type holds. -/
def tensors : Expr → Nat
  | .subscript target index => tensorsOfType (target.dottedName?.getD "") (tensorsOfAll index)
  | e => tensorsOfType (e.dottedName?.getD "") 0

def tensorsOfAll : List Expr → Nat
  | [] => 0
  | e :: rest => tensors e + tensorsOfAll rest

end

/-- Where the action gives a result, it has given the name to so many instances, if to one at most. -/
def Places {α : Type} (name : String) (count : Nat) (x : Exec α) : Prop :=
  ∀ ⦃start : String → Prop⦄ ⦃m m' : Machine⦄ ⦃a : α⦄, (∀ k : Nat, ¬start (toString k)) →
    x.outcome m = (.ok a, m') → m.Identified start →
    (count = 0 → m'.Identified start) ∧
    (count ≤ 1 → ¬start name → m'.Identified fun other => start other ∨ other = name)

namespace Places

variable {α β : Type} {name : String}

theorem of_plain {x : Exec α} (hx : Plain True x) : Places name 0 x := by
  intro start m m' a hstart h hm
  have hm' : m'.Identified start := (hx.names h).identified hstart hm
  exact ⟨fun _ => hm', fun _ _ => hm'.mono fun _ => .inl⟩

theorem bind (hname : ∀ k : Nat, name ≠ toString k) {x : Exec α} {f : α → Exec β}
    {count count' : Nat} (hx : Places name count x) (hf : ∀ a, Places name count' (f a)) :
    Places name (count + count') (x >>= f) := by
  intro start m m' b hstart h hm
  obtain ⟨a, m₁, hfirst, h⟩ := outcome_bind_eq_ok h
  obtain ⟨hnone, hone⟩ := hx hstart hfirst hm
  constructor
  · intro hcount
    obtain ⟨hfirst, hsecond⟩ := Nat.add_eq_zero_iff.mp hcount
    exact (hf a hstart h (hnone hfirst)).1 hsecond
  · intro hcount hfresh
    rcases Nat.eq_zero_or_pos count with hzero | hpos
    · exact (hf a hstart h (hnone hzero)).2 (by omega) hfresh
    · have hstart' (k : Nat) : ¬(start (toString k) ∨ toString k = name) := by
        rintro (hk | hk)
        · exact hstart k hk
        · exact hname k hk.symm
      exact (hf a hstart' h (hone (by omega) hfresh)).1 (by omega)

end Places

variable {name : String}

theorem places_placeholderTensor (hname : ∀ k : Nat, name ≠ toString k) (origin : String) :
    Places name 1 (placeholderTensor (some name) origin) := by
  rintro start m _ _ hstart ⟨⟩ hm
  refine ⟨fun hcount => absurd hcount Nat.one_ne_zero, fun _ hfresh => hm.push rfl ?_⟩
  rintro (hgiven | ⟨k, -, heq⟩)
  · exact hfresh hgiven
  · exact hname k heq

theorem places_ofType (hname : ∀ k : Nat, name ≠ toString k) (type : String)
    {arguments : Exec (List Value)} {count : Nat} (harguments : Places name count arguments) :
    Places name (tensorsOfType type count) (ofType name type arguments) := by
  have hlist : Places name count (do list (← arguments)) :=
    harguments.bind hname fun _ => .of_plain (.list _)
  unfold ofType
  split
  case h_8 => rintro _ _ _ _ _ ⟨⟩
  all_goals rw [tensorsOfType, ‹(Script.dotParts type).getLastD "" = _›]
  · exact places_placeholderTensor hname _
  · exact hlist
  · exact hlist
  · exact .of_plain (.dict _)
  · exact .of_plain (.pure _)
  · exact .of_plain (.pure _)
  · exact .of_plain (.pure _)

mutual

theorem places_placeholder (hname : ∀ k : Nat, name ≠ toString k) (type : Expr) :
    Places name (tensors type) (placeholder name type) := by
  unfold placeholder
  cases type with
  | subscript target index => exact places_ofType hname _ (places_placeholders hname index)
  | _ => exact places_ofType hname _ (.of_plain (.pure _))

theorem places_placeholders (hname : ∀ k : Nat, name ≠ toString k) (types : List Expr) :
    Places name (tensorsOfAll types) (placeholders name types) := by
  unfold placeholders tensorsOfAll
  split
  · exact .of_plain (.pure _)
  · exact (places_placeholder hname _).bind hname fun _ =>
      (places_placeholders hname _).bind hname fun _ => .of_plain (.pure _)

end

/-- The names on the heap tell instances apart, and go together with those of the parameters: no name
is a number, no parameter has another's name or one on the heap, and none stands for two tensors. -/
structure NamesApart (h : Heap) (parameters : List Script.Parameter) : Prop where
  distinct : ∀ {id id' name}, h.nameOf? id = some name → h.nameOf? id' = some name → id = id'
  no_number : ∀ {id name}, h.nameOf? id = some name → ∀ k : Nat, name ≠ toString k
  parameters_nodup : (parameters.map (·.name)).Nodup
  parameter_no_number : ∀ p ∈ parameters, ∀ k : Nat, p.name ≠ toString k
  parameter_new : ∀ p ∈ parameters, ∀ id, h.nameOf? id ≠ some p.name
  tensors_le : ∀ p ∈ parameters, ∀ type, p.declaredType = some type → tensors type ≤ 1

theorem identified_parameters {parameters : List Script.Parameter} {start : String → Prop}
    {m m' : Machine} {made : List (String × Value)} (hstart : ∀ k : Nat, ¬start (toString k))
    (hnodup : (parameters.map (·.name)).Nodup)
    (hnumbers : ∀ p ∈ parameters, ∀ k : Nat, p.name ≠ toString k)
    (hnew : ∀ p ∈ parameters, ¬start p.name)
    (htensors : ∀ p ∈ parameters, ∀ type, p.declaredType = some type → tensors type ≤ 1)
    (h : (Trace.parameters parameters).outcome m = (.ok made, m')) (hm : m.Identified start) :
    m'.Identified fun name => start name ∨ ∃ p ∈ parameters, p.name = name := by
  induction parameters generalizing start m made with
  | nil =>
      cases h
      exact hm.mono fun _ => .inl
  | cons p rest ih =>
      rw [List.map_cons, List.nodup_cons] at hnodup
      rw [List.forall_mem_cons] at hnumbers hnew htensors
      -- The others have names of their own.
      have hrest {m₁ : Machine} {others : List (String × Value)}
          (h : (Trace.parameters rest).outcome m₁ = (.ok others, m'))
          (hm₁ : m₁.Identified fun name => start name ∨ name = p.name) :
          m'.Identified fun name => start name ∨ ∃ q ∈ p :: rest, q.name = name := by
        refine (ih ?_ hnodup.2 hnumbers.2 ?_ htensors.2 h hm₁).mono ?_
        · rintro k (hk | hk)
          · exact hstart k hk
          · exact hnumbers.1 k hk.symm
        · rintro q hq (hname | hname)
          · exact hnew.2 q hq hname
          · exact hnodup.1 (List.mem_map.mpr ⟨q, hq, hname⟩)
        · rintro name ((hname | rfl) | ⟨q, hq, rfl⟩)
          · exact .inl hname
          · exact .inr ⟨p, List.mem_cons_self, rfl⟩
          · exact .inr ⟨q, List.mem_cons_of_mem p hq, rfl⟩
      unfold Trace.parameters at h
      split at h
      · exact hrest h (hm.mono fun _ => .inl)
      · split at h
        · cases h
        · next type htype =>
          obtain ⟨v, m₁, hplaceholder, h⟩ := outcome_bind_eq_ok h
          obtain ⟨others, m₂, hothers, h⟩ := outcome_bind_eq_ok h
          cases h
          have hm₁ := (places_placeholder hnumbers.1 type hstart hplaceholder hm).2
            (htensors.1 type htype) hnew.1
          exact hrest hothers hm₁

end Trace

/-- Where names tell instances apart before a trace, they do in it: two values of its calls have one
name if and only if they are one instance. -/
theorem name_eq_iff_object_eq {module : Value} {catalog : Operator.Catalog} {m m' : Machine}
    {trace : Trace} {definition : Script.Function}
    (hforward : m.heap.forward? module = some definition)
    (hapart : Trace.NamesApart m.heap definition.parameters)
    (h : (traceForward module catalog).outcome m = (.ok trace, m')) :
    ∀ v ∈ trace.calls.flatMap (·.values), ∀ w ∈ trace.calls.flatMap (·.values),
      (m'.heap.tag? v.object).isSome → (m'.heap.tag? w.object).isSome →
        (v.name = w.name ↔ v.object = w.object) := by
  obtain ⟨_, made, m₀, m₁, hfound, hmade, hrecords, hcalls, hheap⟩ := traceForward_run h
  obtain rfl := Option.some.inj (hforward.symm.trans hfound)
  let start : String → Prop := fun name => ∃ id, m.heap.nameOf? id = some name
  have hstart (k : Nat) : ¬start (toString k) := fun ⟨id, hid⟩ => hapart.no_number hid k rfl
  have hbefore : (m.withTracer (some { catalog })).Identified start :=
    ⟨fun hname => .inl ⟨_, hname⟩, hapart.distinct⟩
  have hplaced := Trace.identified_parameters hstart hapart.parameters_nodup
    hapart.parameter_no_number (fun p hp ⟨id, hid⟩ => hapart.parameter_new p hp id hid)
    hapart.tensors_le hmade hbefore
  have hidentified := (hrecords fun _ => False).identified ?_ hplaced
  · rw [← hcalls, ← hheap]
    have hnames : (m.withTracer (some { catalog })).Names (fun _ => True) m₀ :=
      Trace.introduces_parameters definition.parameters (fun _ _ => trivial) hmade
    have hknown : m₁.Known := (hrecords fun _ => False).known hnames.traced
      ((m.known_start catalog).of_names hnames)
    intro v hv w hw hobject hobject'
    obtain ⟨call, hcall, hv⟩ := List.mem_flatMap.mp hv
    obtain ⟨call', hcall', hw⟩ := List.mem_flatMap.mp hw
    exact hidentified.name_eq_iff (hknown call hcall v hv) (hknown call' hcall' w hw) hobject hobject'
  · rintro k (hk | ⟨p, hp, hk⟩)
    · exact hstart k hk
    · exact hapart.parameter_no_number p hp k hk

theorem name_eq_iff_object_eq_doubling : ∃ trace m',
    Doubling.machine.heap.forward? (.ref 1) = some Doubling.forward ∧
    Trace.NamesApart Doubling.machine.heap Doubling.forward.parameters ∧
    (traceForward (.ref 1) Doubling.catalog).outcome Doubling.machine = (.ok trace, m') ∧
    ∀ v ∈ trace.calls.flatMap (·.values), ∀ w ∈ trace.calls.flatMap (·.values),
      (m'.heap.tag? v.object).isSome → (m'.heap.tag? w.object).isSome →
        (v.name = w.name ↔ v.object = w.object) := by
  obtain ⟨trace, m', h⟩ := Doubling.exists_trace
  have hforward : Doubling.machine.heap.forward? (.ref 1) = some Doubling.forward := rfl
  have hparameters : Doubling.forward.parameters.map (·.name) = ["self", "x"] := by decide +kernel
  have hno (p : Script.Parameter) (hp : p ∈ Doubling.forward.parameters) :
      Script.IsNoNumber p.name ∧ p.name ≠ "CONSTANTS.c0" := by
    have hmem : p.name ∈ Doubling.forward.parameters.map (·.name) := List.mem_map_of_mem hp
    rw [hparameters, List.mem_pair] at hmem
    rcases hmem with hname | hname <;> rw [hname] <;> refine ⟨?_, by decide⟩
    · rintro c rest ⟨⟩
      decide
    · rintro c rest ⟨⟩
      decide
  have hapart : Trace.NamesApart Doubling.machine.heap Doubling.forward.parameters := by
    refine ⟨fun hname hname' => ?_, fun hname k heq => ?_, ?_, fun p hp k heq => ?_,
      fun p hp id hid => ?_, ?_⟩
    · exact (Doubling.nameOf?_machine hname).1.trans (Doubling.nameOf?_machine hname').1.symm
    · exact constantName_ne_toString 0 k ((Doubling.nameOf?_machine hname).2.symm.trans heq)
    · rw [hparameters]
      decide
    · refine not_isNoNumber_toString k ?_
      rw [← heq]
      exact (hno p hp).1
    · exact (hno p hp).2 (Doubling.nameOf?_machine hid).2
    · decide +kernel
  exact ⟨trace, m', hforward, hapart, h, name_eq_iff_object_eq hforward hapart h⟩

-- A second trace counts from one again: the weight keeps its number, and an output is given the same.
example :
    let nameless := Doubling.machine.withHeap
      (Doubling.machine.heap.modifyTag 3 fun t => { t with name? := none })
    let trace := traceForward (.ref 1) Doubling.catalog
    ((trace >>= fun _ => trace).outcome nameless).1.toOption.map (fun t => t.calls.map fun call =>
      (call.consumed.map (·.name), call.produced.map (·.name))) =
      some [(["x", "x"], ["1"]), (["1", "2"], ["2"])] := by decide +kernel

end ModelGraph
