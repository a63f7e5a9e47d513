import ModelGraph.Operator.Standard
import ModelGraph.Proofs.Trace.Unpacking

/-!
# Which parameter takes what

A matching notes the tensors that its parameters take, not the parameters. Here it notes both, and is
otherwise the same. A schema is regular if its tensors are inputs and an optional input leaves nothing
that a later one could take; then the parameters that take tensors are the first inputs.
-/

namespace ModelGraph

open Exec

/-- The matching of arguments, with what each parameter takes: the parameters that took tensors, in
order, with the values. -/
def bindNoting : List Operator.Parameter → List PendingArgument → Binding →
    Exec (Option (Binding × List (Operator.Parameter × List TracedValue)))
  | _, [], b => return some (b, [])
  | [], _ :: _, _ => return none
  | p :: parameters, arguments, b => do
    let h ← heap
    match ← ofExcept (unpackFront h arguments) with
    | [] => return some (b, [])
    | next :: rest =>
      if (next :: rest).all (·.1.isSome) && (p :: parameters).all (!·.kind.isTensor) then
        return (b.addNamed h (p :: parameters) (next :: rest)).map (·, [])
      else
        match p.fit h next with
        | .tensors values => do
          let named ← values.mapM nameInput
          let bound? ← bindNoting parameters rest (b.addInput named)
          return bound?.map fun (b, taken) => (b, (p, named) :: taken)
        | .attribute => bindNoting parameters rest (b.addAttribute p.name next.2)
        | .misfit =>
          if p.optional then bindNoting parameters (next :: rest) b else return none

/-- Noting changes nothing. -/
theorem bindNoting_forget (parameters : List Operator.Parameter) (arguments : List PendingArgument)
    (b : Binding) : (do return (← bindNoting parameters arguments b).map (·.1)) =
      bindArguments parameters arguments b := by
  induction parameters generalizing arguments b with
  | nil => cases arguments <;> rfl
  | cons p parameters ih =>
      cases arguments with
      | nil => rfl
      | cons next rest =>
          unfold bindNoting bindArguments
          simp only [bind_assoc]
          apply bind_congr
          intro h
          apply bind_congr
          intro arguments
          cases arguments with
          | nil => rfl
          | cons next rest =>
              dsimp only
              by_cases hnamed : ((next :: rest).all (·.1.isSome) &&
                  (p :: parameters).all (!·.kind.isTensor)) = true
              · rw [if_pos hnamed, if_pos hnamed, pure_bind, Option.map_map]
                exact congrArg pure Option.map_id'
              · rw [if_neg hnamed, if_neg hnamed]
                rcases p.fit h next with values | _ | _
                · simp only [bind_assoc, pure_bind, Option.map_map, ← ih]
                  rfl
                · exact ih _ _
                · by_cases hoptional : p.optional
                  · simp only [if_pos hoptional]
                    exact ih _ _
                  · simp only [if_neg hoptional]
                    rfl

/-- What one parameter can do in a matching that succeeds. -/
inductive Noted (p : Operator.Parameter) (parameters : List Operator.Parameter)
    (arguments : List PendingArgument) (start : Binding) (m : Machine) :
    Binding → List (Operator.Parameter × List TracedValue) → Machine → Prop
  /-- No argument is left, or only those with keywords, which no parameter takes as tensors. -/
  | finished {b : Binding} (hinputs : b.inputs = start.inputs) :
      Noted p parameters arguments start m b [] m
  | tensors {next rest values named taken b m₁ m'}
      (hunpack : unpackFront m.heap arguments = .ok (next :: rest))
      (hfit : p.fit m.heap next = .tensors values)
      (hnamed : (values.mapM nameInput).outcome m = (.ok named, m₁))
      (hrest : (bindNoting parameters rest (start.addInput named)).outcome m₁ =
        (.ok (some (b, taken)), m')) :
      Noted p parameters arguments start m b ((p, named) :: taken) m'
  | other {next rest taken b m'} (hunpack : unpackFront m.heap arguments = .ok (next :: rest))
      (hfit : p.fit m.heap next = .attribute)
      (hrest : (bindNoting parameters rest (start.addAttribute p.name next.2)).outcome m =
        (.ok (some (b, taken)), m')) :
      Noted p parameters arguments start m b taken m'
  | skipped {next rest taken b m'} (hunpack : unpackFront m.heap arguments = .ok (next :: rest))
      (hfit : p.fit m.heap next = .misfit) (hoptional : p.optional = true)
      (hrest : (bindNoting parameters (next :: rest) start).outcome m =
        (.ok (some (b, taken)), m')) :
      Noted p parameters arguments start m b taken m'

variable {p : Operator.Parameter} {parameters : List Operator.Parameter}
  {arguments : List PendingArgument} {start b : Binding}
  {taken : List (Operator.Parameter × List TracedValue)} {m m' : Machine}

theorem noted_of_outcome
    (h : (bindNoting (p :: parameters) arguments start).outcome m = (.ok (some (b, taken)), m')) :
    Noted p parameters arguments start m b taken m' := by
  cases arguments with
  | nil =>
      cases h
      exact .finished rfl
  | cons first others =>
      unfold bindNoting at h
      rw [outcome_bind_ok (outcome_heap m)] at h
      obtain ⟨unpacked, m₁, hunpacked, h⟩ := outcome_bind_eq_ok h
      rw [outcome_ofExcept] at hunpacked
      obtain ⟨hunpack, rfl⟩ := Prod.mk.inj hunpacked
      cases unpacked with
      | nil =>
          cases h
          exact .finished rfl
      | cons next rest =>
          dsimp only at h
          by_cases hkeywords : ((next :: rest).all (·.1.isSome) &&
              (p :: parameters).all (!·.kind.isTensor)) = true
          · rw [if_pos hkeywords] at h
            obtain ⟨hbound, rfl⟩ := Prod.mk.inj h
            obtain ⟨b', hadd, heq⟩ := Option.map_eq_some_iff.mp (Except.ok.inj hbound)
            cases heq
            exact .finished (Machine.inputs_of_addNamed hadd)
          · rw [if_neg hkeywords] at h
            rcases hfit : p.fit m.heap next with values | _ | _ <;> rw [hfit] at h
            · obtain ⟨named, m₁, hnamed, h⟩ := outcome_bind_eq_ok h
              obtain ⟨bound?, m₂, hrest, h⟩ := outcome_bind_eq_ok h
              obtain ⟨hbound, rfl⟩ := Prod.mk.inj h
              obtain ⟨⟨b', others⟩, rfl, heq⟩ := Option.map_eq_some_iff.mp (Except.ok.inj hbound)
              cases heq
              exact .tensors hunpack hfit hnamed hrest
            · exact .other hunpack hfit h
            · dsimp only at h
              by_cases hoptional : p.optional
              · rw [if_pos hoptional] at h
                exact .skipped hunpack hfit hoptional h
              · rw [if_neg hoptional] at h
                cases h

theorem bindNoting_nil_ok
    (h : (bindNoting [] arguments start).outcome m = (.ok (some (b, taken)), m')) :
    b = start ∧ taken = [] ∧ m' = m := by
  cases arguments with
  | nil =>
      cases h
      exact ⟨rfl, rfl, rfl⟩
  | cons => cases h

theorem inputs_bindNoting
    (h : (bindNoting parameters arguments start).outcome m = (.ok (some (b, taken)), m')) :
    b.inputs = start.inputs ++ taken.map (·.2) := by
  induction parameters generalizing arguments start taken m with
  | nil =>
      obtain ⟨rfl, rfl, rfl⟩ := bindNoting_nil_ok h
      simp
  | cons p parameters ih =>
      cases noted_of_outcome h with
      | finished hinputs => simpa using hinputs
      | tensors _ _ _ hrest => simpa [Binding.addInput] using ih hrest
      | other _ _ hrest => simpa [Binding.addAttribute] using ih hrest
      | skipped _ _ _ hrest => exact ih hrest

theorem isTensor_of_fit {h : Heap} {next : PendingArgument} {values : List Value}
    (hfit : p.fit h next = .tensors values) : p.kind.isTensor = true := by
  unfold Operator.Parameter.fit at hfit
  split at hfit
  · next hkind =>
    rw [hkind]
    rfl
  · next hkind =>
    rw [hkind]
    rfl
  · split_ifs at hfit

theorem not_isTensor_of_fit {h : Heap} {next : PendingArgument}
    (hfit : p.fit h next = .attribute) : p.kind.isTensor = false := by
  unfold Operator.Parameter.fit at hfit
  split at hfit
  · split_ifs at hfit
  · split at hfit
    · split_ifs at hfit
    · cases hfit
  · next hne hne' =>
    cases hkind : p.kind <;> first | rfl | contradiction

theorem taken_isTensor
    (h : (bindNoting parameters arguments start).outcome m = (.ok (some (b, taken)), m')) :
    ∀ e ∈ taken, e.1 ∈ parameters ∧ e.1.kind.isTensor = true := by
  induction parameters generalizing arguments start taken m with
  | nil =>
      obtain ⟨-, rfl, -⟩ := bindNoting_nil_ok h
      simp
  | cons p parameters ih =>
      have hlater {taken : List (Operator.Parameter × List TracedValue)}
          (hall : ∀ e ∈ taken, e.1 ∈ parameters ∧ e.1.kind.isTensor = true) :
          ∀ e ∈ taken, e.1 ∈ p :: parameters ∧ e.1.kind.isTensor = true :=
        fun e he => ⟨List.mem_cons_of_mem _ (hall e he).1, (hall e he).2⟩
      cases noted_of_outcome h with
      | finished => simp
      | tensors _ hfit _ hrest =>
          rintro e (_ | ⟨_, he⟩)
          · exact ⟨List.mem_cons_self, isTensor_of_fit hfit⟩
          · exact hlater (ih hrest) e he
      | other _ _ hrest => exact hlater (ih hrest)
      | skipped _ _ _ hrest => exact hlater (ih hrest)

/-! ## Schemas whose slots are in order -/

namespace Operator

/-- A parameter can come before another: no tensors are taken after one that takes none, and what an
optional one leaves, a later one leaves too. -/
def Parameter.Before (p q : Parameter) : Prop :=
  q.kind.isTensor → p.kind.isTensor ∧ (p.optional → q.kind = p.kind)

instance (p q : Parameter) : Decidable (p.Before q) :=
  inferInstanceAs (Decidable (_ → _))

/-- Tensors are inputs, and are taken in the order of the inputs. -/
structure Schema.Regular (schema : Schema) : Prop where
  inputs : schema.inputs.Pairwise Parameter.Before
  attributes : ∀ p ∈ schema.attributes, p.kind.isTensor = false

instance (schema : Schema) : Decidable schema.Regular :=
  decidable_of_iff (schema.inputs.Pairwise Parameter.Before ∧
    ∀ p ∈ schema.attributes, p.kind.isTensor = false) ⟨fun h => ⟨h.1, h.2⟩, fun h => ⟨h.1, h.2⟩⟩

/-- Of the standard schemas one has tensors among its attributes, the others are regular. -/
theorem regular_of_standard : ∀ schema ∈ moduleSchemas ++ functionSchemas,
    schema.name ≠ "torch.layer_norm" → schema.Regular := by
  decide +kernel

theorem Schema.Regular.pairwise {schema : Schema} (h : schema.Regular) :
    schema.parameters.Pairwise Parameter.Before := by
  have hbefore (p : Parameter) {q : Parameter} (hq : q ∈ schema.attributes) : p.Before q := by
    intro htensor
    rw [h.attributes q hq] at htensor
    cases htensor
  refine List.pairwise_append.mpr ⟨h.inputs, ?_, fun p _ q hq => hbefore p hq⟩
  exact List.pairwise_of_forall_mem_list fun p _ q hq => hbefore p hq

theorem not_isTensor_of_before {p : Parameter} {parameters : List Parameter}
    (hbefore : ∀ q ∈ parameters, p.Before q) (hp : p.kind.isTensor = false) :
    ∀ q ∈ parameters, q.kind.isTensor = false := by
  intro q hq
  by_contra htensor
  have hfirst := (hbefore q hq (by simpa using htensor)).1
  rw [hp] at hfirst
  cases hfirst

end Operator

theorem taken_eq_nil_of_none
    (h : (bindNoting parameters arguments start).outcome m = (.ok (some (b, taken)), m'))
    (hnone : ∀ p ∈ parameters, p.kind.isTensor = false) : taken = [] := by
  rw [List.eq_nil_iff_forall_not_mem]
  intro e he
  obtain ⟨hmem, htensor⟩ := taken_isTensor h e he
  rw [hnone e.1 hmem] at htensor
  cases htensor

theorem taken_eq_nil_of_misfit {next : PendingArgument} {rest : List PendingArgument}
    (h : (bindNoting parameters (next :: rest) start).outcome m = (.ok (some (b, taken)), m'))
    (hnext : m.heap.packed? next.2 = none) (hbefore : parameters.Pairwise Operator.Parameter.Before)
    (hmisfit : ∀ p ∈ parameters, p.kind.isTensor → p.fit m.heap next = .misfit) : taken = [] := by
  induction parameters generalizing start with
  | nil => exact (bindNoting_nil_ok h).2.1
  | cons p parameters ih =>
      obtain ⟨hp, hbefore⟩ := List.pairwise_cons.mp hbefore
      cases noted_of_outcome h with
      | finished => rfl
      | tensors hunpack hfit =>
          rw [Heap.unpackFront_of_none hnext] at hunpack
          cases hunpack
          rw [hmisfit p List.mem_cons_self (isTensor_of_fit hfit)] at hfit
          cases hfit
      | other _ hfit hrest =>
          apply taken_eq_nil_of_none hrest
          exact Operator.not_isTensor_of_before hp (not_isTensor_of_fit hfit)
      | skipped hunpack _ _ hrest =>
          rw [Heap.unpackFront_of_none hnext] at hunpack
          cases hunpack
          exact ih hrest hbefore fun q hq => hmisfit q (List.mem_cons_of_mem _ hq)

theorem fit_of_kind {q : Operator.Parameter} (hkind : q.kind = p.kind) (hp : p.kind.isTensor = true)
    (h : Heap) (next : PendingArgument) : q.fit h next = p.fit h next := by
  unfold Operator.Parameter.fit
  rw [hkind]
  cases hkind' : p.kind <;> rw [hkind'] at hp <;> first | rfl | cases hp

/-- The parameters that take tensors are the first ones. -/
theorem taken_prefix
    (h : (bindNoting parameters arguments start).outcome m = (.ok (some (b, taken)), m'))
    (hbefore : parameters.Pairwise Operator.Parameter.Before)
    (hlone : m.heap.LonePacked arguments) : taken.map (·.1) <+: parameters := by
  induction parameters generalizing arguments start taken m with
  | nil =>
      obtain ⟨-, rfl, -⟩ := bindNoting_nil_ok h
      exact List.nil_prefix
  | cons p parameters ih =>
      obtain ⟨hp, hbefore⟩ := List.pairwise_cons.mp hbefore
      cases noted_of_outcome h with
      | finished => exact List.nil_prefix
      | tensors hunpack _ hnamed hrest =>
          obtain ⟨hlone, -⟩ := Heap.unpackFront_ok hlone hunpack
          rw [List.map_cons, List.cons_prefix_cons]
          exact ⟨rfl, ih hrest hbefore ((keepsPacked_nameInputs hnamed).lonePacked hlone.tail)⟩
      | other _ hfit hrest =>
          have hnil : taken = [] := by
            apply taken_eq_nil_of_none hrest
            exact Operator.not_isTensor_of_before hp (not_isTensor_of_fit hfit)
          rw [hnil]
          exact List.nil_prefix
      | skipped hunpack hfit hoptional hrest =>
          have hnil : taken = [] := by
            apply taken_eq_nil_of_misfit hrest (Heap.unpackFront_ok hlone hunpack).2 hbefore
            intro q hq htensor
            obtain ⟨hfirst, hkind⟩ := hp q hq htensor
            rw [fit_of_kind (hkind hoptional) hfirst, hfit]
          rw [hnil]
          exact List.nil_prefix

theorem taken_prefix_inputs {schema : Operator.Schema} (hregular : schema.Regular)
    (h : (bindNoting schema.parameters arguments start).outcome m = (.ok (some (b, taken)), m'))
    (hlone : m.heap.LonePacked arguments) : taken.map (·.1) <+: schema.inputs := by
  have hprefix := taken_prefix h hregular.pairwise hlone
  obtain hinputs | ⟨later, hlater⟩ :=
    List.prefix_or_prefix_of_prefix hprefix (List.prefix_append schema.inputs schema.attributes)
  · exact hinputs
  · -- A parameter beyond the inputs would be an attribute that takes tensors.
    cases later with
    | nil => simp [← hlater]
    | cons p later =>
        have hmem : p ∈ taken.map (·.1) := hlater ▸ List.mem_append_right _ List.mem_cons_self
        obtain ⟨e, he, rfl⟩ := List.mem_map.mp hmem
        obtain ⟨-, htensor⟩ := taken_isTensor h e he
        have hattribute : e.1 ∈ schema.attributes := by
          rw [← hlater, Operator.Schema.parameters, List.prefix_append_right_inj] at hprefix
          exact hprefix.subset List.mem_cons_self
        rw [hregular.attributes _ hattribute] at htensor
        cases htensor

end ModelGraph
