import ModelGraph.Proofs.Arena.Builtin
import ModelGraph.Proofs.Trace.Recording

/-!
# Tracing is tame

Naming a value changes a tag, and what stands for an output is a new tensor. Calls are recorded beside
the heap. So whatever is matched with a schema, and wherever the matching fails, the heap stays closed.
-/

namespace ModelGraph

open Exec Enclave
open Script (Expr)

variable {c : Enclave} {h h' : Heap}

namespace Enclave

/-- The objects of traced values are on the heap and outside. -/
def HasTraced (c : Enclave) (h : Heap) (values : List TracedValue) : Prop :=
  ∀ v ∈ values, c.Has h (.ref v.object)

/-- The arguments that wait are on the heap and outside. -/
def HasPending (c : Enclave) (h : Heap) (arguments : List PendingArgument) : Prop :=
  ∀ a ∈ arguments, c.Has h a.2

/-- What a call has bound so far is on the heap and outside. -/
structure HasBound (c : Enclave) (h : Heap) (b : Binding) : Prop where
  inputs : c.HasTraced h b.inputs.flatten
  attributes : ∀ e ∈ b.attributes, c.Has h e.2

theorem HasTraced.mono {values : List TracedValue} (hvalues : c.HasTraced h values)
    (hkeeps : h.KeepsKinds h') : c.HasTraced h' values := fun v hv => (hvalues v hv).mono hkeeps

theorem HasPending.mono {arguments : List PendingArgument} (ha : c.HasPending h arguments)
    (hkeeps : h.KeepsKinds h') : c.HasPending h' arguments := fun a hmem => (ha a hmem).mono hkeeps

namespace HasBound

variable {b : Binding}

theorem start : c.HasBound h {} where
  inputs _ hv := absurd hv List.not_mem_nil
  attributes _ he := absurd he List.not_mem_nil

theorem mono (hb : c.HasBound h b) (hkeeps : h.KeepsKinds h') : c.HasBound h' b where
  inputs := hb.inputs.mono hkeeps
  attributes e he := (hb.attributes e he).mono hkeeps

theorem addInput (hb : c.HasBound h b) {values : List TracedValue} (hvalues : c.HasTraced h values) :
    c.HasBound h (b.addInput values) where
  inputs v hv := by
    rw [Binding.addInput, List.flatten_append, List.flatten_singleton] at hv
    exact (List.mem_append.mp hv).elim (hb.inputs v) (hvalues v)
  attributes := hb.attributes

theorem addAttribute (hb : c.HasBound h b) (name : String) {v : Value} (hv : c.Has h v) :
    c.HasBound h (b.addAttribute name v) where
  inputs := hb.inputs
  attributes e he := by
    rcases List.mem_append.mp he with he | he
    · exact hb.attributes e he
    · rwa [List.mem_singleton.mp he]

theorem addNamed {seen : Heap} {parameters : List Operator.Parameter} {arguments : List PendingArgument}
    {start : Binding} (hstart : c.HasBound h start) (harguments : c.HasPending h arguments)
    (hadd : start.addNamed seen parameters arguments = some b) : c.HasBound h b := by
  induction arguments generalizing start with
  | nil =>
      cases hadd
      exact hstart
  | cons next rest ih =>
      obtain ⟨hnext, hrest⟩ := List.forall_mem_cons.mp harguments
      unfold Binding.addNamed at hadd
      split at hadd
      · contradiction
      · split_ifs at hadd
        · exact ih (hstart.addAttribute _ hnext) hrest hadd
        · exact ih hstart hrest hadd

end HasBound

theorem HasPending.unpackFront (hh : c.Closed h) {arguments unpacked : List PendingArgument}
    (harguments : c.HasPending h arguments) (hfront : ModelGraph.unpackFront h arguments = .ok unpacked) :
    c.HasPending h unpacked := by
  unfold ModelGraph.unpackFront at hfront
  split at hfront
  · cases hfront
    exact harguments
  · next keyword front rest =>
      obtain ⟨hv, hrest⟩ := List.forall_mem_cons.mp harguments
      split at hfront
      · cases hfront
        exact harguments
      · next i hi =>
          have hfields : ∀ v ∈ i.fields.values, c.Has h v := fun v hmem =>
            (hh.instance? hv.outside hi).parts v (List.mem_append_right _ hmem)
          have hpart (name : String) : c.Has h ((i.fields.get? name).getD .none) := by
            cases hfound : i.fields.get? name with
            | none => trivial
            | some v => exact hfields v (OrderedMap.mem_values_of_get? hfound)
          dsimp only at hfront
          split_ifs at hfront <;> cases hfront
          · exact List.forall_mem_cons.mpr ⟨hpart _, List.forall_mem_cons.mpr ⟨hpart _, hrest⟩⟩
          · intro a ha
            rcases List.mem_append.mp ha with ha | ha
            · exact hrest a ha
            · obtain ⟨e, he, rfl⟩ := List.mem_map.mp ha
              exact hfields _ (List.mem_map_of_mem (List.mem_of_mem_filter he))
          · exact harguments

theorem HasPending.arguments {arguments : Arguments} (hall : c.HasAll h arguments.values) :
    c.HasPending h arguments.pending := by
  intro a ha
  rcases List.mem_append.mp ha with ha | ha
  · obtain ⟨v, hv, rfl⟩ := List.mem_map.mp ha
    exact hall v (List.mem_append_left _ hv)
  · obtain ⟨n, hn, rfl⟩ := List.mem_map.mp ha
    exact hall _ (List.mem_append_right _ (List.mem_map_of_mem hn))

/-- What a parameter consumes is among the next argument and its items. -/
theorem Closed.fit_tensors (hh : c.Closed h) (hkeeps : h.KeepsKinds h') {p : Operator.Parameter}
    {next : PendingArgument} (hnext : c.Has h' next.2) {values : List Value}
    (hfit : p.fit h next = .tensors values) : c.HasAll h' values := by
  unfold Operator.Parameter.fit at hfit
  split at hfit
  · split_ifs at hfit
    cases hfit
    exact hasAll_cons hnext hasAll_nil
  · split at hfit
    · split_ifs at hfit
      cases hfit
      exact (hh.items? hnext.outside ‹_›).mono hkeeps
    · cases hfit
  · split_ifs at hfit

theorem Closed.countUses (hh : c.Closed h) {values : List TracedValue} (hvalues : c.HasTraced h values) :
    c.Evolves h
      (values.foldl (fun h v => h.modifyTag v.object fun t => { t with count := t.count + 1 }) h) := by
  induction values generalizing h with
  | nil => exact hh.evolves
  | cons v rest ih =>
      obtain ⟨hv, hrest⟩ := List.forall_mem_cons.mp hvalues
      have hfirst := hh.modifyTag hv.2 fun t => { t with count := t.count + 1 }
      exact hfirst.trans (ih hfirst.closed (HasTraced.mono hrest hfirst.keeps))

end Enclave

namespace Tame

/-! ## Names -/

theorem freshName : Tame c h Anything Exec.freshName := by
  rintro m hm rfl
  rw [Machine.freshName_eq]
  exact ⟨rfl, ⟨hm.closed, hm.packages⟩, .refl _, fun _ _ => trivial⟩

/-- The object of a traced value is on the heap and outside. -/
theorem nameInput {v : Value} (hv : c.Outside v) :
    Tame c h (fun h named => c.Has h (.ref named.object)) (Exec.nameInput v) := by
  have hobject {h : Heap} {id : Nat} (hid : c.Has h (.ref id)) :
      Tame c h (fun h id => c.Has h (.ref id)) (Pure.pure id : Exec Nat) := pure hid
  refine .afterHeap fun _ => ?_
  dsimp only
  split
  case' h_1 id _ hfound =>
    have hhas : c.Has h (.ref id) := ⟨Heap.has_of_object? hfound, hv⟩
    refine (hobject hhas).bind fun h₁ object _ hid => .afterHeap fun _ => ?_
  case' h_2 =>
    refine (alloc (o := .instance _) (.of_nil rfl rfl)).bind fun _ made _ hmade => ?_
    obtain ⟨id, rfl, hid⟩ := hmade
    refine (hobject hid.has).bind fun h₁ object _ hid => .afterHeap fun _ => ?_
  all_goals
    split
    · exact pure hid
    · refine freshName.bind fun _ _ hkeeps _ => ?_
      refine (modifyHeap fun hh => hh.modifyTag hid.2 _).bind fun _ _ hkeeps' _ => ?_
      exact pure (hid.mono (hkeeps.trans hkeeps'))

theorem nameInputs {values : List Value} (hvalues : c.HasAll h values) :
    Tame c h c.HasTraced (values.mapM Exec.nameInput) :=
  Alike.mapM (fun _ _ _ hkeeps hv => hv.mono hkeeps) values fun _ v _ hv => nameInput (hvalues v hv).outside

theorem placeholderTensor (name? : Option String) (origin : String) :
    Tame c h c.Has (Exec.placeholderTensor name? origin) :=
  made (.of_nil rfl rfl)

theorem nameOutput (call : String) {size? : Option Value} (hsize : c.HasIf h size?) :
    Tame c h (fun h made => c.Has h (.ref made.object)) (Exec.nameOutput call size?) := by
  refine freshName.bind fun h₁ name hkeeps _ => ?_
  have hmade : Tame c h₁ (c.HasKind .instance)
      (Exec.placeholderTensor (some name) ("invoke-output-" ++ call)) :=
    alloc (o := .instance _) (.of_nil rfl rfl)
  refine hmade.bind fun h₂ made hkeeps' hmade => ?_
  obtain ⟨id, rfl, hid⟩ := hmade
  cases size? with
  | none => exact pure hid.has
  | some size =>
      have hsize' : c.Has h₂ size := (hsize size rfl).mono (hkeeps.trans hkeeps')
      exact (setAttribute hid.has.outside "size" hsize').bind fun _ _ hkeeps'' _ =>
        pure (hid.has.mono hkeeps'')

theorem countUses {values : List TracedValue} (hvalues : c.HasTraced h values) :
    Tame c h Anything (Exec.countUses values) :=
  modifyHeap fun hh => hh.countUses hvalues

theorem recordCall (call : TracedCall) : Tame c h Anything (Exec.recordCall call) :=
  touch (fun _ => rfl) fun _ => rfl

/-! ## Matching -/

theorem bindArguments (parameters : List Operator.Parameter) {arguments : List PendingArgument}
    {start : Binding} (harguments : c.HasPending h arguments) (hstart : c.HasBound h start) :
    Tame c h (fun h bound? => ∀ b, bound? = some b → c.HasBound h b)
      (ModelGraph.bindArguments parameters arguments start) := by
  have hdone {h : Heap} {b : Binding} (hb : c.HasBound h b) : Tame c h
      (fun h bound? => ∀ b, bound? = some b → c.HasBound h b) (Pure.pure (some b) : Exec _) :=
    pure fun _ heq => Option.some.inj heq ▸ hb
  have hmisfit {h : Heap} : Tame c h
      (fun h bound? => ∀ b, bound? = some b → c.HasBound h b) (Pure.pure none : Exec (Option Binding)) :=
    pure fun _ heq => by cases heq
  induction parameters generalizing h arguments start with
  | nil =>
      cases arguments with
      | nil => exact hdone hstart
      | cons _ _ => exact hmisfit
  | cons p parameters ih =>
      cases arguments with
      | nil => exact hdone hstart
      | cons next rest =>
          unfold ModelGraph.bindArguments
          refine .afterHeap fun hh => ?_
          have hunpack : Tame c h c.HasPending
              (MonadExcept.ofExcept (unpackFront h (next :: rest)) : Exec (List PendingArgument)) :=
            ofExcept fun _ hfront => harguments.unpackFront hh hfront
          refine hunpack.bind fun h₁ unpacked hkeeps hunpacked => ?_
          have hstart₁ := hstart.mono hkeeps
          split
          · exact hdone hstart₁
          · obtain ⟨hnext, hrest⟩ := List.forall_mem_cons.mp hunpacked
            split
            · exact pure fun b hb => hstart₁.addNamed hunpacked hb
            · split
              · next hfit =>
                  refine (nameInputs (hh.fit_tensors hkeeps hnext hfit)).bind fun h₂ named hkeeps' hnamed => ?_
                  exact ih (HasPending.mono hrest hkeeps') ((hstart₁.mono hkeeps').addInput hnamed)
              · exact ih hrest (hstart₁.addAttribute _ hnext)
              · split
                · exact ih hunpacked hstart₁
                · exact hmisfit

theorem outputSize? (call : String) {b : Binding} (hb : c.HasBound h b) :
    Tame c h c.HasIf (ModelGraph.outputSize? call b) := by
  have hlist (rank : Nat) : c.HasAll h (List.replicate rank .unknown) := fun v hv => by
    rw [List.eq_of_mem_replicate hv]
    exact has_unknown
  unfold ModelGraph.outputSize?
  split
  · refine pure (hasIf_some ?_)
    cases hattributes : b.attributes with
    | nil => trivial
    | cons first rest =>
        refine hb.attributes first ?_
        rw [hattributes]
        exact List.mem_cons_self
  · split
    · exact (list (hlist _)).bind fun _ _ _ hv => pure (hasIf_some hv)
    · exact pure hasIf_none

theorem makeOutput (call : String) {b : Binding} (hb : c.HasBound h b) (wantsInt : Bool)
    (p : Operator.Parameter) : Tame c h (fun h made? => ∀ made, made? = some made → c.Has h made.1)
      (ModelGraph.makeOutput call b wantsInt p) := by
  have hsome {h : Heap} {v : Value} {made : List TracedValue} (hv : c.Has h v) :
      ∀ pair, some (v, made) = some pair → c.Has h pair.1 := by
    rintro _ ⟨⟩
    exact hv
  unfold ModelGraph.makeOutput
  split
  · refine (outputSize? call hb).bind fun h₁ size? hkeeps hsize => ?_
    exact (nameOutput call hsize).bind fun h₂ made hkeeps' hmade => pure (hsome hmade)
  · have hnames : Tame c h (fun h made => ∀ v ∈ made, c.Has h (.ref v.object))
        ((List.replicate (outputCount call b) ()).mapM fun _ => Exec.nameOutput call none) :=
      Alike.mapM (fun _ _ (v : TracedValue) hkeeps (hv : c.Has _ (.ref v.object)) => hv.mono hkeeps) _
        fun _ _ _ _ => nameOutput call hasIf_none
    refine hnames.bind fun h₁ made hkeeps hmade => ?_
    have hitems : c.HasAll h₁ (made.map fun v => .ref v.object) := fun v hv => by
      obtain ⟨m, hm, rfl⟩ := List.mem_map.mp hv
      exact hmade m hm
    exact (list hitems).bind fun h₂ v _ hv => pure (hsome hv)
  · split
    · exact (nameOutput call hasIf_none).bind fun _ _ _ hmade => pure (hsome hmade)
    · exact pure fun _ heq => by cases heq
  · exact pure fun _ heq => by cases heq

theorem makeOutputs (call : String) {b : Binding} (hb : c.HasBound h b) (wantsInt : Bool)
    (parameters : List Operator.Parameter) :
    Tame c h (fun h made? => ∀ made, made? = some made → c.HasAll h (made.map (·.1)))
      (ModelGraph.makeOutputs call b wantsInt parameters) := by
  induction parameters generalizing h with
  | nil => exact pure fun _ heq => by cases heq; exact hasAll_nil
  | cons p rest ih =>
      rw [makeOutputs_cons]
      refine (makeOutput call hb wantsInt p).bind fun h₁ made? hkeeps hmade => ?_
      cases made? with
      | none => exact pure fun _ heq => by cases heq
      | some made =>
          refine (ih (hb.mono hkeeps)).bind fun h₂ others? hkeeps' hothers => ?_
          refine pure fun all heq => ?_
          obtain ⟨others, rfl, rfl⟩ := Option.map_eq_some_iff.mp heq
          exact hasAll_cons ((hmade made rfl).mono hkeeps') (hothers others rfl)

theorem bundle {values : List Value} (hvalues : c.HasAll h values) :
    Tame c h c.Has (ModelGraph.bundle values) := by
  unfold ModelGraph.bundle
  split
  · exact pure trivial
  · exact pure (hvalues _ List.mem_cons_self)
  · exact list hvalues

theorem matchSchema (call : String) (schema : Operator.Schema) {arguments : Arguments}
    (hall : c.HasAll h arguments.values) (wantsInt : Bool) :
    Tame c h c.HasIf (ModelGraph.matchSchema call schema arguments wantsInt) := by
  refine (bindArguments _ (.arguments hall) .start).bind fun h₁ bound? hkeeps hbound => ?_
  cases bound? with
  | none => exact pure hasIf_none
  | some b =>
      refine (makeOutputs call (hbound b rfl) _ _).bind fun h₂ made? hkeeps' hmade => ?_
      cases made? with
      | none => exact pure hasIf_none
      | some made =>
          have hinputs := (hbound b rfl).inputs.mono hkeeps'
          refine (countUses hinputs).bind fun h₃ _ hkeeps₃ _ => (recordCall _).bind fun h₄ _ hkeeps₄ _ => ?_
          have hvalues : c.HasAll h₄ (made.map (·.1)) := (hmade made rfl).mono (hkeeps₃.trans hkeeps₄)
          exact (bundle hvalues).bind fun _ _ _ hv => pure (hasIf_some hv)

theorem matchSchemas (call : String) {arguments : Arguments} (hall : c.HasAll h arguments.values)
    (wantsInt : Bool) (schemas : List Operator.Schema) :
    Tame c h c.HasIf (ModelGraph.matchSchemas call arguments wantsInt schemas) := by
  induction schemas generalizing h with
  | nil => exact pure hasIf_none
  | cons schema rest ih =>
      refine (matchSchema call schema hall wantsInt).bind fun h₁ matched hkeeps hmatched => ?_
      cases matched with
      | some v => exact pure hmatched
      | none => exact ih (hall.mono hkeeps)

/-! ## Compiled models -/

theorem nameItems {v : Value} (hv : c.Outside v) : Tame c h c.HasTraced (Compilation.nameItems v) :=
  .afterHeap fun hh => nameInputs fun _ hmem => hh.getItems hv _ (List.mem_of_mem_filter hmem)

theorem run {compilation inputs outputs : Value} (hcompilation : c.Outside compilation)
    (hinputs : c.Outside inputs) (houtputs : c.Outside outputs) :
    Tame c h c.Has (Compilation.run compilation inputs outputs) := by
  refine .view (fun m => ⟨m, rfl⟩) fun m => ?_
  split
  · exact pure trivial
  · refine .afterAttribute hcompilation fun model? hmodel => ?_
    cases model? with
    | none => exact unsupported _
    | some model =>
        refine .afterAttribute hcompilation fun buffers hbuffers => ?_
        have hbuffers : c.Outside (buffers.getD .none) := (hbuffers.getD has_none).outside
        refine (nameInput (hmodel model rfl).outside).bind fun h₁ model _ hmodel => ?_
        refine (nameItems hinputs).bind fun h₂ inputs hkeeps₂ hinputs => ?_
        refine (nameItems hbuffers).bind fun h₃ buffers hkeeps₃ hbuffers => ?_
        refine (nameItems houtputs).bind fun h₄ outputs hkeeps₄ _ => ?_
        have hconsumed : c.HasTraced h₄ [[model], inputs, buffers].flatten := by
          intro v hv
          simp only [List.mem_flatten, List.mem_cons, List.not_mem_nil, or_false, exists_eq_or_imp,
            exists_eq_left] at hv
          obtain rfl | hv | hv := hv
          · exact hmodel.mono ((hkeeps₂.trans hkeeps₃).trans hkeeps₄)
          · exact (hinputs v hv).mono (hkeeps₃.trans hkeeps₄)
          · exact (hbuffers v hv).mono hkeeps₄
        exact (countUses hconsumed).bind fun _ _ _ _ => (recordCall _).bind fun _ _ _ _ => pure trivial

/-! ## Placeholders of a trace -/

theorem ofType (name type : String) {arguments : Exec (List Value)} (harguments : Tame c h c.HasAll arguments) :
    Tame c h c.Has (Trace.ofType name type arguments) := by
  unfold Trace.ofType
  split
  · exact placeholderTensor _ _
  · exact harguments.bind fun _ _ _ hitems => list hitems
  · exact harguments.bind fun _ _ _ hitems => list hitems
  · exact emptyDict
  · exact pure trivial
  · exact pure trivial
  · exact pure trivial
  · exact unsupported _

mutual

theorem typePlaceholder (h : Heap) (name : String) (type : Expr) :
    Tame c h c.Has (Trace.placeholder name type) := by
  unfold Trace.placeholder
  split
  · exact ofType name _ (typePlaceholders h name _)
  · exact ofType name _ (pure hasAll_nil)

theorem typePlaceholders (h : Heap) (name : String) (types : List Expr) :
    Tame c h c.HasAll (Trace.placeholders name types) := by
  unfold Trace.placeholders
  split
  · exact pure hasAll_nil
  · refine (typePlaceholder h name _).bind fun h₁ v _ hv => ?_
    exact (typePlaceholders h₁ name _).bind fun _ _ hkeeps hrest => pure (hasAll_cons (hv.mono hkeeps) hrest)

end

theorem parameters (declared : List Script.Parameter) :
    Tame c h (fun h made => c.HasAll h (made.map (·.2))) (Trace.parameters declared) := by
  induction declared generalizing h with
  | nil => exact pure hasAll_nil
  | cons p rest ih =>
      unfold Trace.parameters
      split
      · exact ih
      · split
        · exact unsupported _
        · refine (typePlaceholder h p.name _).bind fun h₁ v _ hv => ?_
          exact ih.bind fun _ _ hkeeps hrest => pure (hasAll_cons (hv.mono hkeeps) hrest)

end Tame

namespace Alike

variable {α : Type} {h : Heap} {post : Heap → α → Prop} {x y : Exec α}

/-- An error that is kept as a result. -/
theorem attempt (hxy : Alike c h post x y) :
    Alike c h (fun h result => ∀ a, result = .ok a → post h a)
      (tryCatch (.ok <$> x) fun e => pure (.error e) : Exec (Except RunError α))
      (tryCatch (.ok <$> y) fun e => pure (.error e)) := by
  intro m hm hh
  obtain ⟨heq, hwell, hkeeps, hresult⟩ := hxy hm hh
  rw [outcome_attempt, outcome_attempt, heq]
  exact ⟨rfl, hwell, hkeeps, fun _ hkept => Except.ok.inj hkept ▸ hresult⟩

/-- The trace that begins and ends with a recording is beside the heap. -/
theorem recording (catalog : Operator.Catalog) (hpost : ∀ h h' a, Heap.KeepsKinds h h' → post h a → post h' a)
    (hxy : ∀ h', h.KeepsKinds h' → Alike c h' post x y) :
    Alike c h (fun h recorded => post h recorded.1) (Trace.recording catalog x)
      (Trace.recording catalog y) := by
  have htrace {h : Heap} (tracer? : Option Tracer) :
      Tame c h Anything (modify fun m => { m with tracer? } : Exec Unit) :=
    .touch (fun _ => rfl) fun _ => rfl
  refine (htrace _).bind fun h₁ _ hkeeps _ => (hxy h₁ hkeeps).attempt.bind fun h₂ result _ hresult => ?_
  refine .view (fun m => ⟨m, rfl⟩) fun m => (htrace none).bind fun h₃ _ hkeeps₃ _ => ?_
  have hkept : Tame c h₃ post (ofExcept result : Exec α) :=
    .ofExcept fun a ha => hpost _ _ a hkeeps₃ (hresult a ha)
  exact hkept.bind fun _ _ _ ha => Tame.pure ha

end Alike

end ModelGraph
