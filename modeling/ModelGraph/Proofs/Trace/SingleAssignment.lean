import ModelGraph.Proofs.Script.Descent
import ModelGraph.Proofs.Script.Scanning
import ModelGraph.Proofs.Trace.Recording

/-!
# Single assignment

The numbers of the outputs grow along a trace, and every input bears a name from before the trace, a
parameter's name or a number given before. So each value is made at most once, and before its uses.
-/

namespace ModelGraph

open Exec

/-- The name of a constant of a model. -/
def constantName (i : Nat) : String := "CONSTANTS.c" ++ toString i

theorem not_isNoNumber_toString (k : Nat) : ¬Script.IsNoNumber (toString k) := by
  obtain ⟨c, others, hdigits, hc⟩ := Script.Scan.toDigits_eq_cons k
  intro hno
  rw [← toList_toString] at hdigits
  exact hno c others hdigits (le_of_isDigit hc)

theorem constantName_ne_toString (i k : Nat) : constantName i ≠ toString k := by
  intro heq
  refine not_isNoNumber_toString k ?_
  rw [← heq]
  intro c rest hcons
  have htext : (constantName i).toList = 'C' :: ("ONSTANTS.c".toList ++ (toString i).toList) := by
    simp [constantName]
  rw [htext] at hcons
  cases hcons
  decide

/-- Names that a value can have once numbers have been given up to the bound. -/
def Available (start : String → Prop) (bound : Nat) (name : String) : Prop :=
  start name ∨ ∃ k, k ≤ bound ∧ name = toString k

theorem Available.mono {start : String → Prop} {low high : Nat} {name : String}
    (h : Available start low name) (hle : low ≤ high) : Available start high name :=
  h.imp_right fun ⟨k, hk, hname⟩ => ⟨k, Nat.le_trans hk hle, hname⟩

namespace Numbered

variable {low high : Nat} {names : List String}

theorem exists_of_mem (h : Numbered low high names) {name : String} (hname : name ∈ names) :
    ∃ k, low < k ∧ k ≤ high ∧ name = toString k := by
  obtain ⟨ks, rfl, -, hbound⟩ := h
  obtain ⟨k, hk, rfl⟩ := List.mem_map.mp hname
  exact ⟨k, (hbound k hk).1, (hbound k hk).2, rfl⟩

theorem nodup (h : Numbered low high names) : names.Nodup := by
  obtain ⟨ks, rfl, hks, -⟩ := h
  exact List.pairwise_map.mpr (hks.imp fun hlt heq => Nat.ne_of_lt hlt (toString_inj.mp heq))

/-- A name from before the numbers were given is none of them. -/
theorem ne_of_available (h : Numbered low high names) {start : String → Prop}
    (hstart : ∀ k : Nat, ¬start (toString k)) {earlier name : String}
    (hearlier : Available start low earlier) (hname : name ∈ names) : earlier ≠ name := by
  rintro rfl
  obtain ⟨k, hk, -, rfl⟩ := h.exists_of_mem hname
  rcases hearlier with hgiven | ⟨l, hl, heq⟩
  · exact hstart k hgiven
  · rw [toString_inj.mp heq] at hk
    exact Nat.not_le_of_lt hk hl

end Numbered

/-- No output of the later call is an input of the earlier one. -/
def TracedCall.Precedes (earlier later : TracedCall) : Prop :=
  ∀ v ∈ earlier.consumed, ∀ w ∈ later.produced, v.name ≠ w.name

namespace Machine

/-- The calls are in single-assignment form, with numbers up to the last one given; so are the names
on the heap. -/
structure Assigned (start : String → Prop) (m : Machine) : Prop where
  names : ∀ {id name}, m.heap.nameOf? id = some name → Available start m.minted name
  outputs : Numbered 0 m.minted ((m.calls.flatMap (·.produced)).map (·.name))
  precedes_self : ∀ call ∈ m.calls, call.Precedes call
  precedes : m.calls.Pairwise TracedCall.Precedes

variable {given start : String → Prop} {m m' : Machine}

theorem Names.assigned (h : m.Names given m') (hgiven : ∀ name, given name → start name)
    (hm : Assigned start m) : Assigned start m' where
  names {id name} hname := by
    rcases hold : m.heap.nameOf? id with _ | old
    · rcases h.name_new hold hname with hname | ⟨k, -, hk, rfl⟩
      · exact .inl (hgiven name hname)
      · exact .inr ⟨k, hk, rfl⟩
    · obtain rfl := Option.some.inj ((h.name_kept hold).symm.trans hname)
      exact (hm.names hold).mono h.minted_le
  outputs := by
    rw [h.calls_eq]
    have houtputs := hm.outputs.append (.nil m.minted m'.minted) (Nat.zero_le _) h.minted_le
    rwa [List.append_nil] at houtputs
  precedes_self := by
    rw [h.calls_eq]
    exact hm.precedes_self
  precedes := by
    rw [h.calls_eq]
    exact hm.precedes

theorem Assigned.available (hm : Assigned start m) {v : TracedValue} (hv : m.Knows v) :
    Available start m.minted v.name := by
  rcases hv.named with hname | ⟨-, k, hk, hname⟩
  · exact hm.names hname
  · exact .inr ⟨k, hk, hname⟩

theorem Records.assigned (h : Records given m m') (htraced : m.tracer?.isSome)
    (hgiven : ∀ name, given name → start name) (hstart : ∀ k : Nat, ¬start (toString k))
    (hknown : m.Known) (hm : Assigned start m) : Assigned start m' := by
  induction h with
  | names h => exact h.assigned hgiven hm
  | @call m m' call h inputs outputs numbers =>
      have hcalls : (m'.record call).calls = m.calls ++ [call] := by
        rw [calls_record (h.traced.trans htraced), h.calls_eq]
      -- What was known before the numbers of the outputs were given has another name.
      have hafter {v : TracedValue} (hv : m.Knows v) {w : TracedValue}
          (hw : w ∈ call.produced) : v.name ≠ w.name :=
        numbers.ne_of_available hstart (hm.available hv) (List.mem_map_of_mem hw)
      have hm' := h.assigned hgiven hm
      refine ⟨fun {id name} hname => ?_, ?_, fun other hother => ?_, ?_⟩
      · rw [nameOf?_record] at hname
        rw [minted_record]
        exact hm'.names hname
      · rw [hcalls, minted_record, List.flatMap_append, List.map_append, List.flatMap_singleton]
        exact hm.outputs.append numbers (Nat.zero_le _) h.minted_le
      · rw [hcalls, List.mem_append, List.mem_singleton] at hother
        rcases hother with hother | rfl
        · exact hm.precedes_self other hother
        · exact fun v hv w hw => hafter (inputs v hv) hw
      · rw [hcalls, List.pairwise_append]
        refine ⟨hm.precedes, List.pairwise_singleton _ _, fun other hother last hlast => ?_⟩
        rw [List.mem_singleton.mp hlast]
        exact fun v hv w hw => hafter (hknown other hother v (other.mem_values_of_consumed hv)) hw
  | trans first _ ih ih' =>
      exact ih' (first.traced.trans htraced) (first.known htraced hknown) (ih htraced hknown hm)

theorem assigned_start (hnames : ∀ {id name}, m.heap.nameOf? id = some name → start name)
    (catalog : Operator.Catalog) : Assigned start (m.withTracer (some { catalog })) where
  names hname := .inl (hnames hname)
  outputs := .nil 0 0
  precedes_self _ hcall := nomatch hcall
  precedes := .nil

end Machine

/-- A trace is in single-assignment form where names on the heap are those of constants and `forward`
comes from a script. The outputs of all calls that fit schemas have different names, no parameter's
and no constant's; and no output is an input of its own call or of an earlier one. -/
theorem singleAssignment_traceForward {module : Value} {catalog : Operator.Catalog}
    {m m' : Machine} {trace : Trace}
    (hnames : ∀ id name, m.heap.nameOf? id = some name → ∃ i, name = constantName i)
    {source : String} {body : List Script.Statement} (hparse : Script.parse source = .ok body)
    {definition : Script.Function} (hdefinition : definition ∈ Script.functionsOf body)
    (hforward : m.heap.forward? module = some definition)
    (h : (traceForward module catalog).outcome m = (.ok trace, m')) :
    ((trace.calls.flatMap (·.produced)).map (·.name)).Nodup ∧
    (∀ call ∈ trace.calls, ∀ w ∈ call.produced,
      ¬definition.HasParameter w.name ∧ ∀ i, w.name ≠ constantName i) ∧
    (∀ call ∈ trace.calls, call.Precedes call) ∧
    trace.calls.Pairwise TracedCall.Precedes := by
  obtain ⟨_, m₁, hfound, hrecords, hcalls, -⟩ := traceForward_ok h
  obtain rfl := Option.some.inj (hforward.symm.trans hfound)
  let start : String → Prop := fun name => definition.HasParameter name ∨ ∃ i, name = constantName i
  have hstart (k : Nat) : ¬start (toString k) := by
    rintro (⟨p, hp, hname⟩ | ⟨i, hname⟩)
    · have hno := Script.isNoNumber_of_parse hparse hdefinition hp
      rw [hname] at hno
      exact not_isNoNumber_toString k hno
    · exact constantName_ne_toString i k hname.symm
  have hassigned : Machine.Assigned start m₁ :=
    hrecords.assigned rfl (fun _ hname => .inl hname) hstart (m.known_start catalog)
      (Machine.assigned_start (fun hname => .inr (hnames _ _ hname)) catalog)
  rw [← hcalls]
  refine ⟨hassigned.outputs.nodup, fun call hcall w hw => ?_, hassigned.precedes_self,
    hassigned.precedes⟩
  have hmem : w.name ∈ (m₁.calls.flatMap (·.produced)).map (·.name) :=
    List.mem_map_of_mem (List.mem_flatMap.mpr ⟨call, hcall, hw⟩)
  obtain ⟨k, -, -, hk⟩ := hassigned.outputs.exists_of_mem hmem
  rw [hk]
  exact ⟨fun hparameter => hstart k (.inl hparameter), fun i heq => hstart k (.inr ⟨i, heq⟩)⟩

theorem Doubling.definitionIn_mem {body : List Script.Statement}
    (hname : (definitionIn body).name = "forward") :
    definitionIn body ∈ Script.functionsOf body := by
  unfold definitionIn at hname ⊢
  split at hname
  · exact List.mem_cons_self
  · contradiction

theorem singleAssignment_doubling : ∃ trace m',
    (∀ id name, Doubling.machine.heap.nameOf? id = some name → ∃ i, name = constantName i) ∧
    Script.parse Doubling.source = .ok Doubling.body ∧
    Doubling.forward ∈ Script.functionsOf Doubling.body ∧
    Doubling.machine.heap.forward? (.ref 1) = some Doubling.forward ∧
    (traceForward (.ref 1) Doubling.catalog).outcome Doubling.machine = (.ok trace, m') ∧
    ((trace.calls.flatMap (·.produced)).map (·.name)).Nodup ∧
    (∀ call ∈ trace.calls, ∀ w ∈ call.produced,
      ¬Doubling.forward.HasParameter w.name ∧ ∀ i, w.name ≠ constantName i) ∧
    (∀ call ∈ trace.calls, call.Precedes call) ∧
    trace.calls.Pairwise TracedCall.Precedes := by
  obtain ⟨trace, m', h⟩ := Doubling.exists_trace
  have hnames (id : Nat) (name : String)
      (hname : Doubling.machine.heap.nameOf? id = some name) : ∃ i, name = constantName i :=
    ⟨0, (Doubling.nameOf?_machine hname).2⟩
  have hparse : Script.parse Doubling.source = .ok Doubling.body := by
    have hok : (Script.parse Doubling.source).toOption.isSome := by decide +kernel
    unfold Doubling.body
    rcases hparse : Script.parse Doubling.source with e | body
    · rw [hparse] at hok
      cases hok
    · rfl
  have hdefinition : Doubling.forward ∈ Script.functionsOf Doubling.body := by
    have hname : (Doubling.definitionIn Doubling.body).name = "forward" := by decide +kernel
    exact Doubling.definitionIn_mem hname
  have hforward : Doubling.machine.heap.forward? (.ref 1) = some Doubling.forward := rfl
  exact ⟨trace, m', hnames, hparse, hdefinition, hforward, h,
    singleAssignment_traceForward hnames hparse hdefinition hforward h⟩

end ModelGraph
