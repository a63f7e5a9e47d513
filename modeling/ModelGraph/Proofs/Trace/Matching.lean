import ModelGraph.Proofs.Machine.Builtin
import ModelGraph.Proofs.Trace.Moves
import ModelGraph.Trace.Compilation

/-!
# The moves of matching

The matching of a call with schemas names values until one fits; then it records one call. So does
the run of a compiled model. Attempts that fail name values only.
-/

namespace ModelGraph

open Exec

variable {α β : Type}

theorem Exec.outcome_bind_eq_ok {x : Exec α} {f : α → Exec β} {m m'' : Machine} {b : β}
    (h : (x >>= f).outcome m = (.ok b, m'')) :
    ∃ a m', x.outcome m = (.ok a, m') ∧ (f a).outcome m' = (.ok b, m'') := by
  rw [outcome_bind] at h
  split at h
  · next a m' hx => exact ⟨a, m', hx, h⟩
  · cases h

/-- A plain action names nothing, whatever names may be given. -/
theorem Plain.names {x : Exec α} (hx : Plain True x) {given : String → Prop} {m m' : Machine}
    {result : Except RunError α} (h : x.outcome m = (result, m')) : m.Names given m' := by
  have htracer := hx.tracer?_eq m
  have hgrows := hx.grows m
  rw [h] at htracer hgrows
  exact .of_grows htracer hgrows

namespace Machine

variable {given : String → Prop} {m m' : Machine}

/-! ## Names of inputs -/

theorem freshName_eq (m : Machine) : freshName.outcome m =
    (.ok ((m.tracer?.map fun t => toString (t.minted + 1)).getD "0"), m.mint) := by
  obtain ⟨heap, packages, sources, diagnostics, tracer?⟩ := m
  cases tracer? <;> rfl

theorem outcome_freshName (htraced : m.tracer?.isSome) :
    freshName.outcome m = (.ok (toString (m.minted + 1)), m.mint) := by
  obtain ⟨t, ht⟩ := Option.isSome_iff_exists.mp htraced
  rw [freshName_eq]
  simp [ht, minted]

/-- Naming an object that exists. -/
theorem nameObject_ok {object : Nat} {named : TracedValue} (htraced : m.tracer?.isSome)
    (hobject : object < m.heap.size)
    (h : (do
      match ((← Exec.heap).tag? object).bind (·.name?) with
      | some name => return ⟨name, object⟩
      | none =>
        let name ← freshName
        modifyHeap (·.modifyTag object fun t => { t with name? := some name })
        return ⟨name, object⟩ : Exec TracedValue).outcome m = (.ok named, m')) :
    m.Names given m' ∧ m'.Knows named := by
  rw [outcome_bind_ok (outcome_heap m)] at h
  split at h
  · next name hname =>
    cases h
    exact ⟨.refl _, hobject, .inl hname⟩
  · next hnone =>
    rw [outcome_bind_ok (outcome_freshName htraced)] at h
    cases h
    refine ⟨names_modifyTag htraced hnone, by simpa using hobject, ?_⟩
    have htag := m.heap.tag?_modifyTag object object fun t =>
      { t with name? := some (toString (m.minted + 1)) }
    rw [if_pos rfl] at htag
    rcases hold : m.heap.tag? object with _ | t <;> rw [hold] at htag
    · exact .inr ⟨htag, m.minted + 1, Nat.le_of_eq (minted_mint htraced).symm, rfl⟩
    · exact .inl (congrArg (·.bind (·.name?)) htag)

theorem nameInput_ok {v : Value} {named : TracedValue} (htraced : m.tracer?.isSome)
    (h : (nameInput v).outcome m = (.ok named, m')) : m.Names given m' ∧ m'.Knows named := by
  unfold nameInput at h
  rw [outcome_bind_ok (outcome_heap m)] at h
  dsimp only at h
  split at h
  · next id o ho =>
    refine nameObject_ok htraced (Nat.lt_of_not_le fun hle => ?_) h
    have hnone : m.heap.get? id = none := Array.getElem?_eq_none hle
    cases hnone.symm.trans ho
  · -- A record is made for a value that is no object.
    obtain ⟨made, m₁, hmade, h⟩ := outcome_bind_eq_ok h
    have hmoves : m.Names given m₁ := (Plain.record "" "" none).names hmade
    cases hmade
    obtain ⟨hmoves', hknown⟩ := nameObject_ok (hmoves.traced.trans htraced)
      (by simp [Value.ref?]) h
    exact ⟨hmoves.trans hmoves', hknown⟩

theorem nameInputs_ok {values : List Value} {named : List TracedValue} (htraced : m.tracer?.isSome)
    (h : (values.mapM nameInput).outcome m = (.ok named, m')) :
    m.Names given m' ∧ ∀ v ∈ named, m'.Knows v := by
  induction values generalizing m named with
  | nil =>
      cases h
      exact ⟨.refl _, by simp⟩
  | cons value rest ih =>
      rw [List.mapM_cons] at h
      obtain ⟨first, m₁, hfirst, h⟩ := outcome_bind_eq_ok h
      obtain ⟨others, m₂, hothers, h⟩ := outcome_bind_eq_ok h
      cases h
      obtain ⟨hmoves, hknown⟩ := nameInput_ok htraced hfirst
      obtain ⟨hmoves', hknown'⟩ := ih (hmoves.traced.trans htraced) hothers
      refine ⟨hmoves.trans hmoves', fun v hv => ?_⟩
      rcases List.mem_cons.mp hv with rfl | hv
      · exact hknown.of_names hmoves'
      · exact hknown' v hv

/-! ## Arguments and outputs -/

theorem inputs_of_addNamed {h : Heap} {parameters : List Operator.Parameter}
    {arguments : List PendingArgument} {start b : Binding}
    (hadd : start.addNamed h parameters arguments = some b) : b.inputs = start.inputs := by
  induction arguments generalizing start with
  | nil =>
      cases hadd
      rfl
  | cons next rest ih =>
      unfold Binding.addNamed at hadd
      split at hadd
      · contradiction
      · split at hadd
        · have hinputs := ih hadd
          exact hinputs
        · split at hadd
          · exact ih hadd
          · contradiction

/-- Between the machines values are named, and the inputs of what is bound are known. -/
structure Binds (given : String → Prop) (m m' : Machine) (bound? : Option Binding) : Prop where
  names : m.Names given m'
  known : ∀ b, bound? = some b → ∀ v ∈ b.inputs.flatten, m'.Knows v

theorem Binds.misfit : Binds given m m none := ⟨.refl m, by simp⟩

theorem Binds.done {b : Binding} (hb : ∀ v ∈ b.inputs.flatten, m.Knows v) :
    Binds given m m (some b) := by
  refine ⟨.refl m, ?_⟩
  rintro _ ⟨⟩
  exact hb

/-- Values that are named after a binding join its inputs. -/
theorem knows_addInput {b : Binding} (hb : ∀ v ∈ b.inputs.flatten, m.Knows v)
    (hnames : m.Names given m') {named : List TracedValue} (hnamed : ∀ v ∈ named, m'.Knows v) :
    ∀ v ∈ (b.addInput named).inputs.flatten, m'.Knows v := by
  intro v hv
  simp only [Binding.addInput, List.flatten_append, List.mem_append, List.flatten_singleton] at hv
  rcases hv with hv | hv
  · exact (hb v hv).of_names hnames
  · exact hnamed v hv

/-- Arguments that fit have known inputs; failing ones name values all the same. -/
theorem bindArguments_ok {parameters : List Operator.Parameter} {arguments : List PendingArgument}
    {start : Binding} {bound? : Option Binding} (htraced : m.tracer?.isSome)
    (hstart : ∀ v ∈ start.inputs.flatten, m.Knows v)
    (h : (bindArguments parameters arguments start).outcome m = (.ok bound?, m')) :
    Binds given m m' bound? := by
  induction parameters generalizing m arguments start with
  | nil =>
      cases arguments <;> cases h
      · exact .done hstart
      · exact .misfit
  | cons p parameters ih =>
      cases arguments with
      | nil =>
          cases h
          exact .done hstart
      | cons next rest =>
          unfold bindArguments at h
          rw [outcome_bind_ok (outcome_heap m)] at h
          obtain ⟨arguments, m₁, harguments, h⟩ := outcome_bind_eq_ok h
          rw [outcome_ofExcept] at harguments
          obtain ⟨-, rfl⟩ := Prod.mk.inj harguments
          split at h
          · cases h
            exact .done hstart
          · split at h
            · cases h
              refine ⟨.refl _, fun b hb => ?_⟩
              rw [inputs_of_addNamed hb]
              exact hstart
            · split at h
              · -- A parameter takes tensors, which are named.
                obtain ⟨named, m₂, hnamed, h⟩ := outcome_bind_eq_ok h
                obtain ⟨hnames, hknown⟩ : m.Names given m₂ ∧ _ := nameInputs_ok htraced hnamed
                have hrest := ih (hnames.traced.trans htraced)
                  (knows_addInput hstart hnames hknown) h
                exact ⟨hnames.trans hrest.names, hrest.known⟩
              · refine ih htraced ?_ h
                exact hstart
              · split at h
                · exact ih htraced hstart h
                · cases h
                  exact .misfit

theorem plain_outputSize? (call : String) (b : Binding) : Plain True (outputSize? call b) := by
  unfold outputSize?
  split
  · exact .pure _
  · split
    · exact (Plain.list _).bind fun _ => .pure _
    · exact .pure _

/-- Between the machines these values were made, with the numbers given meanwhile. -/
structure Makes (given : String → Prop) (m m' : Machine) (values : List TracedValue) : Prop where
  names : m.Names given m'
  numbers : Numbered m.minted m'.minted (values.map (·.name))
  known : ∀ v ∈ values, m'.Knows v

theorem Makes.nil (h : m.Names given m') : Makes given m m' [] := ⟨h, .nil _ _, by simp⟩

theorem Makes.append {m'' : Machine} {values values' : List TracedValue}
    (first : Makes given m m' values) (second : Makes given m' m'' values') :
    Makes given m m'' (values ++ values') where
  names := first.names.trans second.names
  numbers := by
    rw [List.map_append]
    exact first.numbers.append second.numbers first.names.minted_le second.names.minted_le
  known v hv := by
    rcases List.mem_append.mp hv with hv | hv
    · exact (first.known v hv).of_names second.names
    · exact second.known v hv

theorem makes_placeholder (htraced : m.tracer?.isSome) (origin : String) :
    Makes given m (m.mint.withHeap (m.heap.push (.instance
        { module := "torch", name := "Tensor",
          tag := { name? := some (toString (m.minted + 1)), origin? := some origin } })))
      [⟨toString (m.minted + 1), m.heap.size⟩] where
  names := by
    refine names_push (.inr ⟨htraced, rfl⟩) rfl ?_
    rintro _ ⟨⟩
    exact .inr ⟨m.minted + 1, Nat.lt_succ_self _, Nat.le_of_eq (minted_mint htraced).symm, rfl⟩
  numbers := by
    rw [minted_withHeap, minted_mint htraced]
    exact .singleton m.minted
  known v hv := by
    obtain rfl := List.mem_singleton.mp hv
    refine ⟨by simp, .inl ?_⟩
    exact (Heap.nameOf?_push _ _ _).trans (if_pos rfl)

theorem nameOutput_ok {call : String} {size? : Option Value} {named : TracedValue}
    (htraced : m.tracer?.isSome) (h : (nameOutput call size?).outcome m = (.ok named, m')) :
    Makes given m m' [named] := by
  unfold nameOutput at h
  rw [outcome_bind_ok (outcome_freshName htraced)] at h
  obtain ⟨made, m₁, hmade, h⟩ := outcome_bind_eq_ok h
  have hplaceholder : Makes given m _ [⟨toString (m.minted + 1), m.heap.size⟩] :=
    makes_placeholder htraced ("invoke-output-" ++ call)
  cases hmade
  cases size? with
  | none =>
      cases h
      exact hplaceholder
  | some size =>
      obtain ⟨_, m₂, hset, h⟩ := outcome_bind_eq_ok h
      cases h
      exact hplaceholder.append (.nil ((Plain.setAttribute _ "size" size).names hset))

theorem nameOutputs_ok {call : String} {count : Nat} {named : List TracedValue}
    (htraced : m.tracer?.isSome)
    (h : ((List.replicate count ()).mapM fun _ => nameOutput call none).outcome m =
      (.ok named, m')) : Makes given m m' named := by
  induction count generalizing m named with
  | zero =>
      cases h
      exact .nil (.refl _)
  | succ count ih =>
      rw [List.replicate_succ, List.mapM_cons] at h
      obtain ⟨first, m₁, hfirst, h⟩ := outcome_bind_eq_ok h
      obtain ⟨others, m₂, hothers, h⟩ := outcome_bind_eq_ok h
      cases h
      have hmade : Makes given m m₁ [first] := nameOutput_ok htraced hfirst
      exact hmade.append (ih (hmade.names.traced.trans htraced) hothers)

end Machine

/-- The placeholders for one output of a schema. -/
def makeOutput (call : String) (b : Binding) (wantsInt : Bool) (p : Operator.Parameter) :
    Exec (Option (Value × List TracedValue)) :=
  match p.kind with
  | .tensor => do
    let made ← nameOutput call (← outputSize? call b)
    return some (.ref made.object, [made])
  | .tensorList => do
    let made ← (List.replicate (outputCount call b) ()).mapM fun _ => nameOutput call none
    return some (← list (made.map fun v => .ref v.object), made)
  | .int64 =>
    if wantsInt then do
      let made ← nameOutput call none
      return some (.ref made.object, [made])
    else return none
  | _ => return none

theorem makeOutputs_cons (call : String) (b : Binding) (wantsInt : Bool) (p : Operator.Parameter)
    (rest : List Operator.Parameter) :
    makeOutputs call b wantsInt (p :: rest) = (do
      match ← makeOutput call b wantsInt p with
      | none => return none
      | some made => return (← makeOutputs call b wantsInt rest).map (made :: ·)) := by
  rw [makeOutputs, makeOutput]
  cases p.kind with
  | int64 => cases wantsInt <;> simp
  | tensor => simp
  | tensorList => simp
  | _ => rfl

namespace Machine

variable {given : String → Prop} {m m' : Machine}

theorem makeOutput_ok {call : String} {b : Binding} {wantsInt : Bool} {p : Operator.Parameter}
    {made? : Option (Value × List TracedValue)} (htraced : m.tracer?.isSome)
    (h : (makeOutput call b wantsInt p).outcome m = (.ok made?, m')) :
    Makes given m m' ((made?.map (·.2)).getD []) := by
  unfold makeOutput at h
  split at h
  · obtain ⟨size?, m₁, hsize, h⟩ := outcome_bind_eq_ok h
    obtain ⟨named, m₂, hnamed, h⟩ := outcome_bind_eq_ok h
    cases h
    have hmoves : m.Names given m₁ := (plain_outputSize? call b).names hsize
    exact (Makes.nil hmoves).append (nameOutput_ok (hmoves.traced.trans htraced) hnamed)
  · obtain ⟨named, m₁, hnamed, h⟩ := outcome_bind_eq_ok h
    obtain ⟨made, m₂, hmade, h⟩ := outcome_bind_eq_ok h
    cases h
    have hmoves : m₁.Names given m' := (Plain.list (named.map fun v => .ref v.object)).names hmade
    have hnames := (nameOutputs_ok htraced hnamed).append (.nil hmoves)
    rwa [List.append_nil] at hnames
  · split at h
    · obtain ⟨named, m₁, hnamed, h⟩ := outcome_bind_eq_ok h
      cases h
      exact nameOutput_ok htraced hnamed
    · cases h
      exact .nil (.refl _)
  · cases h
    exact .nil (.refl _)

/-- The outputs that a schema asks for have the numbers given meanwhile. -/
theorem makeOutputs_ok {call : String} {b : Binding} {wantsInt : Bool}
    {parameters : List Operator.Parameter} {made? : Option (List (Value × List TracedValue))}
    (htraced : m.tracer?.isSome)
    (h : (makeOutputs call b wantsInt parameters).outcome m = (.ok made?, m')) :
    m.Names given m' ∧ ∀ made, made? = some made → Makes given m m' (made.map (·.2)).flatten := by
  induction parameters generalizing m made? with
  | nil =>
      cases h
      refine ⟨.refl _, ?_⟩
      rintro _ ⟨⟩
      exact .nil (.refl _)
  | cons p rest ih =>
      rw [makeOutputs_cons] at h
      obtain ⟨first?, m₁, hfirst, h⟩ := outcome_bind_eq_ok h
      have hmade : Makes given m m₁ _ := makeOutput_ok htraced hfirst
      cases first? with
      | none =>
          cases h
          exact ⟨hmade.names, by simp⟩
      | some first =>
          obtain ⟨others?, m₂, hothers, h⟩ := outcome_bind_eq_ok h
          cases h
          obtain ⟨hmoves, hothers⟩ := ih (hmade.names.traced.trans htraced) hothers
          refine ⟨hmade.names.trans hmoves, fun made hsome => ?_⟩
          obtain ⟨others, rfl, rfl⟩ := Option.map_eq_some_iff.mp hsome
          exact hmade.append (hothers others rfl)

/-! ## Calls -/

theorem plain_bundle (values : List Value) : Plain True (bundle values) := by
  unfold bundle
  split
  · exact .pure _
  · exact .pure _
  · exact .list _

/-- Matching a call with a schema names values, and records the call if it fits. -/
theorem matchSchema_ok {call : String} {schema : Operator.Schema} {arguments : Arguments}
    {wantsInt : Bool} {v? : Option Value} (htraced : m.tracer?.isSome)
    (h : (matchSchema call schema arguments wantsInt).outcome m = (.ok v?, m')) :
    Records given m m' := by
  unfold matchSchema at h
  obtain ⟨bound?, m₁, hbound, h⟩ := outcome_bind_eq_ok h
  obtain ⟨hmoves, hinputs⟩ : Binds given m m₁ bound? := bindArguments_ok htraced (by simp) hbound
  cases bound? with
  | none =>
      cases h
      exact .names hmoves
  | some b =>
      obtain ⟨made?, m₂, hmade, h⟩ := outcome_bind_eq_ok h
      obtain ⟨hmoves', houtputs⟩ : m₁.Names given m₂ ∧ _ :=
        makeOutputs_ok (hmoves.traced.trans htraced) hmade
      cases made? with
      | none =>
          cases h
          exact .names (hmoves.trans hmoves')
      | some made =>
          have hmakes := houtputs made rfl
          let traced : TracedCall :=
            { name := call, schema, inputs := b.inputs, attributes := b.attributes,
              outputs := made.map (·.2) }
          have hrecord : Records given m₁ (m₂.record traced) :=
            .call hmakes.names (hinputs b rfl) hmakes.known hmakes.numbers
          have hbundle : (do return some (← bundle (made.map (·.1))) : Exec (Option Value)).outcome
              (m₂.record traced) = (.ok v?, m') := h
          have hlast : (m₂.record traced).Names given m' :=
            ((plain_bundle (made.map (·.1))).bind fun v => .pure (some v)).names hbundle
          exact ((Records.names hmoves).trans hrecord).trans (.names hlast)

theorem matchSchemas_ok {call : String} {schemas : List Operator.Schema} {arguments : Arguments}
    {wantsInt : Bool} {v? : Option Value} (htraced : m.tracer?.isSome)
    (h : (matchSchemas call arguments wantsInt schemas).outcome m = (.ok v?, m')) :
    Records given m m' := by
  induction schemas generalizing m with
  | nil =>
      cases h
      exact .names (.refl _)
  | cons schema rest ih =>
      obtain ⟨matched?, m₁, hmatched, h⟩ := outcome_bind_eq_ok h
      have hrecords : Records given m m₁ := matchSchema_ok htraced hmatched
      cases matched? with
      | some v =>
          cases h
          exact hrecords
      | none => exact hrecords.trans (ih (hrecords.traced.trans htraced) h)

theorem nameItems_ok {v : Value} {named : List TracedValue} (htraced : m.tracer?.isSome)
    (h : (Compilation.nameItems v).outcome m = (.ok named, m')) :
    m.Names given m' ∧ ∀ v ∈ named, m'.Knows v := by
  unfold Compilation.nameItems at h
  rw [outcome_bind_ok (outcome_heap m)] at h
  exact nameInputs_ok htraced h

/-- The run of a compiled model is recorded as one call, and its outputs are known before. -/
theorem run_ok {compilation inputs outputs v : Value} (htraced : m.tracer?.isSome)
    (h : (Compilation.run compilation inputs outputs).outcome m = (.ok v, m')) :
    Records given m m' := by
  unfold Compilation.run at h
  rw [outcome_bind_ok (outcome_get m), if_neg (by simp [Option.isSome_iff_ne_none.mp htraced])] at h
  obtain ⟨model?, m₁, hmodel, h⟩ := outcome_bind_eq_ok h
  have hstart : m.Names given m₁ := (Plain.attribute? _ _).names hmodel
  cases model? with
  | none => cases h
  | some model =>
      obtain ⟨buffers?, m₂, hbuffers, h⟩ := outcome_bind_eq_ok h
      have hread : m.Names given m₂ := hstart.trans ((Plain.attribute? _ _).names hbuffers)
      obtain ⟨model, m₃, hmodel, h⟩ := outcome_bind_eq_ok h
      obtain ⟨hmoves₃, hmodel⟩ : m₂.Names given m₃ ∧ _ :=
        nameInput_ok (hread.traced.trans htraced) hmodel
      have htraced₃ := (hread.trans hmoves₃).traced.trans htraced
      obtain ⟨inputs, m₄, hinputs, h⟩ := outcome_bind_eq_ok h
      obtain ⟨hmoves₄, hinputs⟩ : m₃.Names given m₄ ∧ _ := nameItems_ok htraced₃ hinputs
      have htraced₄ := hmoves₄.traced.trans htraced₃
      obtain ⟨buffers, m₅, hbuffers, h⟩ := outcome_bind_eq_ok h
      obtain ⟨hmoves₅, hbuffers⟩ : m₄.Names given m₅ ∧ _ := nameItems_ok htraced₄ hbuffers
      have htraced₅ := hmoves₅.traced.trans htraced₄
      obtain ⟨outputs, m₆, houtputs, h⟩ := outcome_bind_eq_ok h
      obtain ⟨hmoves₆, houtputs⟩ : m₅.Names given m₆ ∧ _ := nameItems_ok htraced₅ houtputs
      cases h
      refine (Records.names (((hread.trans hmoves₃).trans hmoves₄).trans hmoves₅)).trans
        (.trans (.names hmoves₆) (.call (.refl m₆) ?_ ?_ (.nil _ _)))
      · intro v hv
        simp only [TracedCall.consumed, List.flatten_cons, List.flatten_nil, List.append_nil,
          List.singleton_append, List.mem_cons, List.mem_append] at hv
        rcases hv with rfl | hv | hv
        · exact hmodel.of_names ((hmoves₄.trans hmoves₅).trans hmoves₆)
        · exact (hinputs v hv).of_names (hmoves₅.trans hmoves₆)
        · exact (hbuffers v hv).of_names hmoves₆
      · intro v hv
        rw [List.flatten_singleton] at hv
        exact houtputs v hv

end Machine

end ModelGraph
