import ModelGraph.Proofs.Trace.Inputs

/-!
# Attempts at matching

A call is matched with one schema after another, and an attempt can fail at any argument and at its
outputs. What it has named by then stays named: tensors among the arguments that had no name keep the
numbers they got. Everything else is as before, and no call is recorded.
-/

namespace ModelGraph

open Exec
open Operator (Parameter)

variable {m m' : Machine}

/-! ## Unpacking -/

namespace Heap

def spreads (h : Heap) (v : Value) : Bool := (h.instance? v).any Instance.spreads

variable {h : Heap} {arguments unpacked : List PendingArgument}

/-- Unpacking replaces the front or nothing. -/
theorem unpackFront_cases {keyword : Option String} {front : Value} {rest : List PendingArgument}
    (hunpack : unpackFront h ((keyword, front) :: rest) = .ok unpacked) :
    unpacked = (keyword, front) :: rest ∨ h.spreads front ∧ rest ⊆ unpacked := by
  unfold unpackFront at hunpack
  dsimp only at hunpack
  rcases hinstance : h.instance? front with _ | i <;> rw [hinstance] at hunpack
  · cases hunpack
    exact .inl rfl
  · dsimp only at hunpack
    split_ifs at hunpack with hquantized hname hxnnpack hname'
    · right
      rw [← Except.ok.inj hunpack, spreads, hinstance]
      refine ⟨decide_eq_true (.inl ⟨hquantized, hname⟩), fun a ha => ?_⟩
      exact List.mem_cons_of_mem _ (List.mem_cons_of_mem _ ha)
    · right
      rw [← Except.ok.inj hunpack, spreads, hinstance]
      exact ⟨decide_eq_true (.inr ⟨hxnnpack, hname'⟩), List.subset_append_left _ _⟩
    · cases hunpack
      exact .inl rfl

/-- An argument that is not unpacked itself stays. -/
theorem mem_of_unpackFront {a : PendingArgument} (hunpack : unpackFront h arguments = .ok unpacked)
    (ha : a ∈ arguments) (hspreads : h.spreads a.2 = false) : a ∈ unpacked := by
  rcases arguments with _ | ⟨⟨keyword, front⟩, rest⟩
  · cases ha
  · rcases unpackFront_cases hunpack with rfl | ⟨hfront, hrest⟩
    · exact ha
    · rcases List.mem_cons.mp ha with rfl | ha
      · rw [hspreads] at hfront
        cases hfront
      · exact hrest ha

theorem unpackFront_eq_self (hunpack : unpackFront h arguments = .ok unpacked)
    (hspreads : ∀ a ∈ arguments, h.spreads a.2 = false) : unpacked = arguments := by
  rcases arguments with _ | ⟨⟨keyword, front⟩, rest⟩
  · cases hunpack
    rfl
  · rcases unpackFront_cases hunpack with rfl | ⟨hfront, -⟩
    · rfl
    · rw [hspreads _ List.mem_cons_self] at hfront
      cases hfront

end Heap

/-! ## Turns of parameters -/

theorem isTensorOrNone_of_fit {h : Heap} {p : Parameter} {next : PendingArgument}
    {values : List Value} (hfit : p.fit h next = .tensors values) :
    (values = [next.2] ∨ h.items? next.2 = some values) ∧ ∀ v ∈ values, h.isTensorOrNone v := by
  unfold Parameter.fit at hfit
  split at hfit
  · split_ifs at hfit with htensor
    cases hfit
    exact ⟨.inl rfl, by simpa using htensor⟩
  · split at hfit
    · next items hitems =>
      split_ifs at hfit with hall
      cases hfit
      exact ⟨.inr hitems, List.all_eq_true.mp hall⟩
    · cases hfit
  · split_ifs at hfit

theorem outcome_bindArguments (p : Parameter) (parameters : List Parameter)
    (arguments : List PendingArgument) (b : Binding) (m : Machine) :
    (bindArguments (p :: parameters) arguments b).outcome m =
      match unpackFront m.heap arguments with
      | .error e => (.error e, m)
      | .ok [] => (.ok (some b), m)
      | .ok (next :: rest) =>
        if (next :: rest).all (·.1.isSome) && (p :: parameters).all (!·.kind.isTensor) then
          (.ok (b.addNamed m.heap (p :: parameters) (next :: rest)), m)
        else
          match p.fit m.heap next with
          | .tensors values => (do
              let named ← values.mapM nameInput
              bindArguments parameters rest (b.addInput named)).outcome m
          | .attribute => (bindArguments parameters rest (b.addAttribute p.name next.2)).outcome m
          | .misfit =>
            if p.optional then (bindArguments parameters (next :: rest) b).outcome m
            else (.ok none, m) := by
  rcases arguments with _ | ⟨first, others⟩
  · rfl
  · rw [bindArguments, outcome_bind_ok (outcome_heap m), outcome_bind, outcome_ofExcept]
    · rcases unpackFront m.heap (first :: others) with e | _ | ⟨next, rest⟩
      · rfl
      · rfl
      · dsimp only
        by_cases hnamed : ((next :: rest).all (·.1.isSome) &&
            (p :: parameters).all (!·.kind.isTensor)) = true
        · rw [if_pos hnamed, if_pos hnamed]
          rfl
        · rw [if_neg hnamed, if_neg hnamed]
          rcases p.fit m.heap next with values | _ | _
          · rfl
          · rfl
          · dsimp only
            split_ifs <;> rfl
    · rintro ⟨⟩

/-- The values that can become inputs when arguments are matched: the arguments themselves, the items of
lists, and the same of what is packed at the front. -/
inductive Heap.Handed (h : Heap) : List PendingArgument → Value → Prop
  | front {keyword v rest} : Handed h ((keyword, v) :: rest) v
  | item {keyword list rest items v} (hitems : h.items? list = some items) (hv : v ∈ items) :
      Handed h ((keyword, list) :: rest) v
  | later {first rest v} (hv : Handed h rest v) : Handed h (first :: rest) v
  | unpacked {arguments unpacked v} (hunpack : unpackFront h arguments = .ok unpacked)
      (hv : Handed h unpacked v) : Handed h arguments v

theorem Heap.Handed.congr {h h' : Heap} (halike : h.Alike h') {arguments : List PendingArgument}
    {v : Value} (hv : h'.Handed arguments v) : h.Handed arguments v := by
  induction hv with
  | front => exact .front
  | item hitems hv =>
      rw [halike.items?_eq] at hitems
      exact .item hitems hv
  | later _ ih => exact .later ih
  | unpacked hunpack _ ih =>
      rw [halike.unpackFront_eq] at hunpack
      exact .unpacked hunpack ih

theorem Heap.handed_of_fit {h : Heap} {p : Parameter} {next : PendingArgument}
    {rest : List PendingArgument} {values : List Value} (hfit : p.fit h next = .tensors values)
    {v : Value} (hv : v ∈ values) : h.Handed (next :: rest) v := by
  rcases (isTensorOrNone_of_fit hfit).1 with rfl | hitems
  · obtain rfl := List.mem_singleton.mp hv
    exact .front
  · exact .item hitems hv

/-- The tensors among the values that can become inputs. -/
def Heap.Consumable (h : Heap) (arguments : List PendingArgument) (id : Nat) : Prop :=
  h.isTensor (.ref id) ∧ h.Handed arguments (.ref id)

theorem Heap.Consumable.congr {h h' : Heap} (halike : h.Alike h') {arguments : List PendingArgument}
    {id : Nat} (hid : h'.Consumable arguments id) : h.Consumable arguments id := by
  refine ⟨?_, hid.2.congr halike⟩
  rw [← halike.isTensor_eq]
  exact hid.1

theorem Heap.consumable_of_fit {h : Heap} {arguments rest : List PendingArgument}
    {p : Parameter} {next : PendingArgument} {values : List Value}
    (hunpack : unpackFront h arguments = .ok (next :: rest)) (hfit : p.fit h next = .tensors values)
    {id : Nat} (hid : .ref id ∈ values) : h.Consumable arguments id := by
  refine ⟨?_, .unpacked hunpack (handed_of_fit hfit hid)⟩
  obtain ⟨-, htensors⟩ := isTensorOrNone_of_fit hfit
  rcases eq_none_or_isTensor (htensors _ hid) with hnone | htensor
  · cases hnone
  · exact htensor

/-- Whatever comes of it, the matching of arguments does no more than name tensors among them. -/
theorem marks_bindArguments (htraced : m.tracer?.isSome) (parameters : List Parameter)
    (arguments : List PendingArgument) (b : Binding) :
    m.Marks (m.heap.Consumable arguments) ((bindArguments parameters arguments b).outcome m).2 := by
  induction parameters generalizing m arguments b with
  | nil => cases arguments <;> exact .refl m
  | cons p parameters ih =>
      rw [outcome_bindArguments]
      rcases hunpack : unpackFront m.heap arguments with e | _ | ⟨next, rest⟩
      · exact .refl m
      · exact .refl m
      · -- What is handed over later is handed over now.
        have hlater {id : Nat} {later : List PendingArgument} (hid : m.heap.Consumable later id)
            (hsub : m.heap.Handed later (.ref id) → m.heap.Handed (next :: rest) (.ref id)) :
            m.heap.Consumable arguments id :=
          ⟨hid.1, .unpacked hunpack (hsub hid.2)⟩
        dsimp only
        by_cases hnamed : ((next :: rest).all (·.1.isSome) &&
            (p :: parameters).all (!·.kind.isTensor)) = true
        · rw [if_pos hnamed]
          exact .refl m
        · rw [if_neg hnamed]
          rcases hfit : p.fit m.heap next with values | _ | _ <;> dsimp only
          · obtain ⟨named, m₁, hok, hnames⟩ := Machine.outcome_nameInputs htraced values
            have hmarks := hnames.marks htraced
            rw [outcome_bind_ok hok]
            apply (hmarks.mono _).trans ((ih (hmarks.traced.trans htraced) rest _).mono _)
            · intro id hid
              exact Heap.consumable_of_fit hunpack hfit hid
            · intro id hid
              exact hlater (hid.congr hnames.alike) .later
          · apply (ih htraced rest _).mono
            intro id hid
            exact hlater hid .later
          · split_ifs
            · apply (ih htraced (next :: rest) _).mono
              intro id hid
              exact hlater hid fun hv => hv
            · exact .refl m

/-! ## Outputs -/

/-- The placeholder for an output of a call. -/
def Instance.output (call name : String) : Instance where
  module := "torch"
  name := "Tensor"
  tag := { name? := some name, origin? := some ("invoke-output-" ++ call) }

theorem Instance.spreads_output (call name : String) : (output call name).spreads = false := by
  simp [output, spreads]

namespace Machine

/-- Between the machines objects are made, and nothing happens to those that were there. -/
abbrev Adds (m m' : Machine) : Prop := m.Marks (fun _ => False) m'

theorem outcome_nameOutput (htraced : m.tracer?.isSome) (call : String) (size? : Option Value) :
    ∃ named m', (nameOutput call size?).outcome m = (.ok named, m') ∧ m.Adds m' ∧
      m.heap.size ≤ named.object := by
  unfold nameOutput
  rw [outcome_bind_ok (outcome_freshName htraced)]
  have hmade : (placeholderTensor (some (toString (m.minted + 1))) ("invoke-output-" ++ call)).outcome
      m.mint = (.ok (.ref m.heap.size),
        m.mint.withHeap (m.heap.push (.instance (.output call (toString (m.minted + 1)))))) := rfl
  have hspreads := Instance.spreads_output call (toString (m.minted + 1))
  have hmarks : m.Adds
      (m.mint.withHeap (m.heap.push (.instance (.output call (toString (m.minted + 1)))))) :=
    (Marks.mint htraced).push hspreads
  rw [outcome_bind_ok hmade]
  cases size? with
  | none => exact ⟨_, _, rfl, hmarks, Nat.le_refl _⟩
  | some size =>
      refine ⟨_, _, rfl, ?_, Nat.le_refl _⟩
      -- The size is written to the new tensor.
      apply hmarks.withHeap (Nat.le_of_eq (Heap.size_modify _ _ _).symm)
      · intro id hid
        rw [Heap.get?_modify, if_neg (Nat.ne_of_gt hid)]
      · intro id o hid ho
        rw [Heap.get?_modify] at ho
        split_ifs at ho
        · right
          rw [heap_withHeap, Heap.get?_push_size] at ho
          cases ho
          exact hspreads
        · exact .inl ho

theorem outcome_nameOutputs (htraced : m.tracer?.isSome) (call : String) (count : Nat) :
    ∃ named m', ((List.replicate count ()).mapM fun _ => nameOutput call none).outcome m =
      (.ok named, m') ∧ m.Adds m' ∧ ∀ v ∈ named, m.heap.size ≤ v.object := by
  induction count generalizing m with
  | zero => exact ⟨_, _, rfl, .refl m, by simp⟩
  | succ count ih =>
      obtain ⟨first, m₁, hfirst, hmarks, hnew⟩ := outcome_nameOutput htraced call none
      obtain ⟨others, m', hothers, hlater, hnew'⟩ := ih (hmarks.traced.trans htraced)
      refine ⟨first :: others, m', ?_, hmarks.trans hlater, List.forall_mem_cons.mpr ⟨hnew, ?_⟩⟩
      · rw [List.replicate_succ, List.mapM_cons, outcome_bind_ok hfirst, outcome_bind_ok hothers]
        rfl
      · intro v hv
        exact Nat.le_trans hmarks.size_le (hnew' v hv)

theorem outcome_outputSize? (call : String) (b : Binding) (m : Machine) :
    ∃ size? m', (outputSize? call b).outcome m = (.ok size?, m') ∧ m.Adds m' := by
  unfold outputSize?
  split_ifs
  · exact ⟨_, _, rfl, .refl m⟩
  · split
    · next rank _ =>
      refine ⟨_, _, rfl, (Marks.refl m).push ?_⟩
      intro id hid
      cases (List.mem_replicate.mp hid).2
    · exact ⟨_, _, rfl, .refl m⟩

theorem outcome_makeOutput (htraced : m.tracer?.isSome) (call : String) (b : Binding)
    (wantsInt : Bool) (p : Parameter) :
    ∃ made? m', (makeOutput call b wantsInt p).outcome m = (.ok made?, m') ∧ m.Adds m' := by
  unfold makeOutput
  split
  · obtain ⟨size?, m₁, hsize, hmarks⟩ := outcome_outputSize? call b m
    obtain ⟨named, m', hnamed, hlater, -⟩ :=
      outcome_nameOutput (hmarks.traced.trans htraced) call size?
    refine ⟨some (.ref named.object, [named]), m', ?_, hmarks.trans hlater⟩
    rw [outcome_bind_ok hsize, outcome_bind_ok hnamed]
    rfl
  · obtain ⟨named, m₁, hnamed, hmarks, hnew⟩ :=
      outcome_nameOutputs htraced call (outputCount call b)
    have hlist : Object.KeepsBack m.heap.size (.list (named.map fun v => .ref v.object)) := by
      intro id hid
      obtain ⟨v, hv, heq⟩ := List.mem_map.mp hid
      cases heq
      exact hnew v hv
    refine ⟨some (.ref m₁.heap.size, named), _, ?_, hmarks.push hlist⟩
    rw [outcome_bind_ok hnamed]
    rfl
  · split_ifs
    · obtain ⟨named, m', hnamed, hmarks, -⟩ := outcome_nameOutput htraced call none
      refine ⟨some (.ref named.object, [named]), m', ?_, hmarks⟩
      rw [outcome_bind_ok hnamed]
      rfl
    · exact ⟨_, _, rfl, .refl m⟩
  · exact ⟨_, _, rfl, .refl m⟩

/-- Outputs are made, one for each parameter, or it turns out that one is not a tensor. -/
theorem outcome_makeOutputs (htraced : m.tracer?.isSome) (call : String) (b : Binding)
    (wantsInt : Bool) (parameters : List Parameter) :
    ∃ made? m', (makeOutputs call b wantsInt parameters).outcome m = (.ok made?, m') ∧
      m.Adds m' ∧ ∀ made, made? = some made → made.length = parameters.length := by
  induction parameters generalizing m with
  | nil =>
      refine ⟨_, _, rfl, .refl m, ?_⟩
      rintro _ ⟨⟩
      rfl
  | cons p rest ih =>
      obtain ⟨first?, m₁, hfirst, hmarks⟩ :=
        outcome_makeOutput htraced call b wantsInt p
      rw [makeOutputs_cons, outcome_bind_ok hfirst]
      cases first? with
      | none => exact ⟨_, _, rfl, hmarks, by simp⟩
      | some first =>
          obtain ⟨others?, m', hothers, hlater, hlength⟩ := ih (hmarks.traced.trans htraced)
          refine ⟨others?.map (first :: ·), m', ?_, hmarks.trans hlater, ?_⟩
          · dsimp only
            rw [outcome_bind_ok hothers]
            rfl
          · intro made hmade
            obtain ⟨others, hsome, rfl⟩ := Option.map_eq_some_iff.mp hmade
            rw [List.length_cons, hlength others hsome, List.length_cons]

end Machine

/-! ## One schema -/

/-- The call that a binding of arguments and the outputs made for it come to. -/
def Binding.toCall (b : Binding) (call : String) (schema : Operator.Schema)
    (made : List (Value × List TracedValue)) : TracedCall :=
  { name := call, schema, inputs := b.inputs, attributes := b.attributes, outputs := made.map (·.2) }

/-- What an attempt at matching comes to. -/
inductive Attempted (call : String) (schema : Operator.Schema) (arguments : Arguments) (m : Machine) :
    Except RunError (Option Value) → Machine → Prop
  | recorded {b m₁ made m₂ v m'}
      (hbound : (bindArguments schema.parameters arguments.pending {}).outcome m = (.ok (some b), m₁))
      (hmade : m₁.Adds m₂) (hlength : made.length = schema.outputs.length)
      (hlast : (bundle (made.map (·.1))).outcome (m₂.record (b.toCall call schema made)) =
        (.ok v, m')) :
      Attempted call schema arguments m (.ok (some v)) m'
  | failed {result m'} (hresult : ∀ v, result ≠ .ok (some v))
      (hmarks : m.Marks (m.heap.Consumable arguments.pending) m') :
      Attempted call schema arguments m result m'

theorem exists_outcome_bundle (values : List Value) (m : Machine) :
    ∃ v m', (bundle values).outcome m = (.ok v, m') := by
  unfold bundle
  split
  · exact ⟨_, _, rfl⟩
  · exact ⟨_, _, rfl⟩
  · exact ⟨_, _, rfl⟩

theorem attempted_of_outcome {call : String} {schema : Operator.Schema} {arguments : Arguments}
    {wantsInt : Bool} {result : Except RunError (Option Value)} (htraced : m.tracer?.isSome)
    (h : (matchSchema call schema arguments wantsInt).outcome m = (result, m')) :
    Attempted call schema arguments m result m' := by
  have hmarks := marks_bindArguments htraced schema.parameters arguments.pending {}
  unfold matchSchema at h
  rcases hbound : (bindArguments schema.parameters arguments.pending {}).outcome m with
    ⟨e | _ | b, m₁⟩ <;> rw [hbound] at hmarks
  · rw [outcome_bind_error hbound] at h
    cases h
    exact .failed (by simp) hmarks
  · rw [outcome_bind_ok hbound] at h
    cases h
    exact .failed (by simp) hmarks
  · rw [outcome_bind_ok hbound] at h
    obtain ⟨made?, m₂, hmade, hlater, hlength⟩ := Machine.outcome_makeOutputs
      (hmarks.traced.trans htraced) call b
      (wantsInt && schema.outputs.length == 1) schema.outputs
    dsimp only at h
    rw [outcome_bind_ok hmade] at h
    cases made? with
    | none =>
        cases h
        exact .failed (by simp) (hmarks.trans (hlater.mono fun _ hnone => hnone.elim))
    | some made =>
        obtain ⟨v, m₃, hbundle⟩ := exists_outcome_bundle (made.map (·.1))
          (m₂.record (b.toCall call schema made))
        have hlast : (do return some (← bundle (made.map (·.1))) : Exec (Option Value)).outcome
            (m₂.record (b.toCall call schema made)) = (result, m') := h
        rw [outcome_bind_ok hbundle] at hlast
        cases hlast
        exact .recorded hbound hlater (hlength made rfl) hbundle

theorem nameOf?_of_bundle {values : List Value} {v : Value}
    (h : (bundle values).outcome m = (.ok v, m')) {id : Nat} {name : String}
    (hname : m.heap.nameOf? id = some name) : m'.heap.nameOf? id = some name := by
  have hnames : m.Names (fun _ => False) m' := (Machine.plain_bundle values).names h
  exact hnames.name_kept hname

/-- A call that fits a schema is recorded once, as it was bound and with one slot for each output. Names
that were given by then stay. -/
theorem exists_call_of_outcome {call : String} {schema : Operator.Schema} {arguments : Arguments}
    {wantsInt : Bool} {v : Value} (htraced : m.tracer?.isSome)
    (h : (matchSchema call schema arguments wantsInt).outcome m = (.ok (some v), m')) :
    ∃ b m₁ made, (bindArguments schema.parameters arguments.pending {}).outcome m =
        (.ok (some b), m₁) ∧
      m'.calls = m.calls ++ [b.toCall call schema made] ∧ made.length = schema.outputs.length ∧
      ∀ {id name}, m₁.heap.nameOf? id = some name → m'.heap.nameOf? id = some name := by
  cases attempted_of_outcome htraced h with
  | failed hresult => exact (hresult v rfl).elim
  | @recorded b m₁ made m₂ _ _ hbound hmade hlength hlast =>
      have hmarks := marks_bindArguments htraced schema.parameters arguments.pending {}
      rw [hbound] at hmarks
      have htraced₂ := hmade.traced.trans (hmarks.traced.trans htraced)
      refine ⟨b, m₁, made, hbound, ?_, hlength, ?_⟩
      · have hnames := (Machine.plain_bundle (made.map (·.1))).tracer?_eq
          (m₂.record (b.toCall call schema made))
        rw [hlast] at hnames
        rw [Machine.calls, hnames, ← Machine.calls, Machine.calls_record htraced₂, hmade.calls_eq,
          hmarks.calls_eq]
      · intro id name hname
        apply nameOf?_of_bundle hlast
        rw [Machine.nameOf?_record]
        exact hmade.nameOf?_eq_some hname

theorem outcome_eq_of_isSome {attempt : Exec (Option Value)}
    (h : (attempt.outcome m).1.toOption.join.isSome) :
    ∃ v, attempt.outcome m = (.ok (some v), (attempt.outcome m).2) := by
  rcases hresult : attempt.outcome m with ⟨_ | _ | v, m'⟩ <;> rw [hresult] at h
  · cases h
  · cases h
  · exact ⟨v, rfl⟩

/-! ## One schema after another -/

namespace Machine.Marks

variable {among : Nat → Prop} {arguments unpacked : List PendingArgument}

/-- An old instance is the same but for its tag. -/
theorem instance?_eq (hmarks : m.Marks among m') {id : Nat} (hid : id < m.heap.size) :
    m'.heap.instance? (.ref id) = m.heap.instance? (.ref id) ∨
      ∃ i tag, m.heap.instance? (.ref id) = some i ∧
        m'.heap.instance? (.ref id) = some { i with tag } := by
  obtain ⟨o, ho⟩ := Heap.exists_of_lt_size hid
  unfold Heap.instance? Heap.object?
  simp only [Value.ref?, Option.bind_some]
  rcases hmarks.object ho with hsame | ⟨i, k, rfl, -, -, -, -, hset⟩
  · rw [hsame, ho]
    exact .inl rfl
  · rw [hset, ho]
    exact .inr ⟨i, _, rfl, rfl⟩

theorem isTensor_eq (hmarks : m.Marks among m') {id : Nat} (hid : id < m.heap.size) :
    m'.heap.isTensor (.ref id) = m.heap.isTensor (.ref id) := by
  unfold Heap.isTensor
  rcases hmarks.instance?_eq hid with heq | ⟨i, tag, hold, hnew⟩
  · rw [heq]
  · rw [hold, hnew]
    rfl

/-- A list with an old object in it is old. -/
theorem items?_eq_some (hmarks : m.Marks among m') {list : Value} {items : List Value} {id : Nat}
    (hitems : m'.heap.items? list = some items) (hmem : .ref id ∈ items) (hid : id < m.heap.size) :
    m.heap.items? list = some items := by
  unfold Heap.items? at hitems
  split at hitems
  · next items' ho =>
    cases hitems
    cases list with
    | ref l =>
        rcases Nat.lt_or_ge l m.heap.size with hold | hnew
        · obtain ⟨o, hl⟩ := Heap.exists_of_lt_size hold
          have hobject : m'.heap.get? l = some (.list items) := ho
          rcases hmarks.object hl with hsame | ⟨_, _, _, _, _, _, _, hset⟩
          · cases hsame.symm.trans hobject
            unfold Heap.items? Heap.object?
            simp only [Value.ref?, Option.bind_some, hl]
          · cases hset.symm.trans hobject
        · have hkeeps : Object.KeepsBack m.heap.size (.list items) := hmarks.new hnew ho
          exact (Nat.not_le_of_lt hid (hkeeps id hmem)).elim
    | _ => cases ho
  · cases hitems

/-- What is packed in an old record was packed in it before, and new ones are not packed. -/
theorem unpackFront_eq_ok (hmarks : m.Marks among m')
    (hunpack : unpackFront m'.heap arguments = .ok unpacked) :
    unpackFront m.heap arguments = .ok unpacked ∨ unpacked = arguments := by
  rcases arguments with _ | ⟨⟨keyword, front⟩, rest⟩
  · exact .inl hunpack
  · rcases Heap.unpackFront_cases hunpack with rfl | ⟨hspreads, -⟩
    · exact .inr rfl
    · left
      obtain ⟨i, hi, hpacked⟩ := (Option.any_eq_true _ _).mp hspreads
      cases front with
      | ref id =>
          rcases Nat.lt_or_ge id m.heap.size with hold | hnew
          · rcases hmarks.instance?_eq hold with heq | ⟨i', tag, hsome, hset⟩
            · rw [← hunpack]
              simp only [unpackFront, heq]
            · rw [← hunpack, Heap.unpackFront_eq_of_instance hsome hset]
          · unfold Heap.instance? at hi
            split at hi
            · next content ho =>
              cases hi
              have hkeeps : i.spreads = false := hmarks.new hnew ho
              rw [hkeeps] at hpacked
              cases hpacked
            · cases hi
      | _ => cases hi

/-- Only what was handed over before is handed over after attempts that failed. -/
theorem handed (hmarks : m.Marks among m') {v : Value} (hv : m'.heap.Handed arguments v) :
    ∀ id, v = .ref id → id < m.heap.size → m.heap.Handed arguments v := by
  induction hv with
  | front => exact fun _ _ _ => .front
  | item hitems hmem =>
      rintro id rfl hid
      exact .item (hmarks.items?_eq_some hitems hmem hid) hmem
  | later _ ih => exact fun id hv hid => .later (ih id hv hid)
  | unpacked hunpack _ ih =>
      intro id hv hid
      rcases hmarks.unpackFront_eq_ok hunpack with hsame | rfl
      · exact .unpacked hsame (ih id hv hid)
      · exact ih id hv hid

theorem consumable (hmarks : m.Marks among m') {id : Nat} (hid : id < m.heap.size)
    (h : m'.heap.Consumable arguments id) : m.heap.Consumable arguments id := by
  refine ⟨?_, hmarks.handed h.2 id rfl hid⟩
  rw [← hmarks.isTensor_eq hid]
  exact h.1

end Machine.Marks

theorem marks_of_no_match {call : String} {schemas : List Operator.Schema} {arguments : Arguments}
    {wantsInt : Bool} (htraced : m.tracer?.isSome)
    (h : (matchSchemas call arguments wantsInt schemas).outcome m = (.ok none, m')) :
    m.Marks (m.heap.Consumable arguments.pending) m' := by
  induction schemas generalizing m with
  | nil =>
      cases h
      exact .refl _
  | cons schema rest ih =>
      obtain ⟨matched?, m₁, hmatched, h⟩ := outcome_bind_eq_ok h
      cases attempted_of_outcome htraced hmatched with
      | recorded => cases h
      | failed hresult hmarks =>
          cases matched? with
          | some v => exact (hresult v rfl).elim
          | none =>
              apply hmarks.andThen (ih (hmarks.traced.trans htraced) h)
              intro id hid
              exact hmarks.consumable hid

/-- When no schema of the catalog fits a call, no call is recorded and no object changes, except that a
tensor among the arguments that had no name may have got a number for one. -/
theorem objects_after_no_match {call : String} {arguments : Arguments} {wantsInt : Bool}
    (h : (do matchSchemas call arguments wantsInt (← tracedSchemas call)).outcome m =
      (.ok none, m')) :
    m'.calls = m.calls ∧ ∀ id o, m.heap.get? id = some o → m'.heap.get? id = some o ∨
      ∃ i k, o = .instance i ∧ i.tag.name? = none ∧ m.heap.isTensor (.ref id) ∧
        m.heap.Handed arguments.pending (.ref id) ∧ m.minted < k ∧ k ≤ m'.minted ∧
        m'.heap.get? id = some (.instance (i.called (toString k))) := by
  obtain ⟨schemas, m₁, hschemas, h⟩ := outcome_bind_eq_ok h
  unfold tracedSchemas at hschemas
  rw [outcome_bind_ok (outcome_get m)] at hschemas
  rcases htracer : m.tracer? with _ | t <;> rw [htracer] at hschemas <;> cases hschemas
  · cases h
    exact ⟨rfl, fun id o ho => .inl ho⟩
  · have hmarks := marks_of_no_match (by rw [htracer]; rfl) h
    refine ⟨hmarks.calls_eq, fun id o ho => (hmarks.object ho).imp_right ?_⟩
    rintro ⟨i, k, hi, hname, ⟨htensor, hhanded⟩, hk⟩
    exact ⟨i, k, hi, hname, htensor, hhanded, hk⟩

/-! ## A call that leaves its mark -/

namespace Padding

def schema : Operator.Schema where
  name := "torch.pad_by"
  inputs := [.typed "self" "Tensor"]
  attributes := [.typed "width" "int64"]
  outputs := [.typed "result" "Tensor"]

/-- A tensor without a name. -/
def machine : Machine where
  heap := ⟨#[.namespace {}, .instance { module := "torch", name := "FloatTensor" }]⟩
  tracer? := some { catalog := .ofList [schema] }

/-- The width is not an integer, but the tensor before it is taken. -/
def call : Arguments := { positional := [.ref 1, .str "same"] }

def attempt : Exec (Option Value) := do
  matchSchemas "torch.pad_by" call false (← tracedSchemas "torch.pad_by")

theorem exists_no_match : ∃ m', attempt.outcome machine = (.ok none, m') ∧
    m'.heap.tag? 1 = some { name? := some "1" } := by
  have hnone : (attempt.outcome machine).1.toOption = some none := by decide +kernel
  have htag : (attempt.outcome machine).2.heap.tag? 1 = some { name? := some "1" } := by
    decide +kernel
  rcases h : attempt.outcome machine with ⟨e | matched?, m'⟩ <;> rw [h] at hnone htag
  · cases hnone
  · cases hnone
    exact ⟨m', rfl, htag⟩

end Padding

theorem objects_after_no_match_padding : ∃ m', Padding.attempt.outcome Padding.machine = (.ok none, m') ∧
    m'.heap.tag? 1 = some { name? := some "1" } ∧
    m'.calls = Padding.machine.calls ∧
    ∀ id o, Padding.machine.heap.get? id = some o → m'.heap.get? id = some o ∨
      ∃ i k, o = .instance i ∧ i.tag.name? = none ∧ Padding.machine.heap.isTensor (.ref id) ∧
        Padding.machine.heap.Handed Padding.call.pending (.ref id) ∧
        Padding.machine.minted < k ∧ k ≤ m'.minted ∧
        m'.heap.get? id = some (.instance (i.called (toString k))) := by
  obtain ⟨m', h, htag⟩ := Padding.exists_no_match
  exact ⟨m', h, htag, objects_after_no_match h⟩

end ModelGraph
