import ModelGraph.Proofs.Arena.Tracing

/-!
# Scripts are tame

A script reaches objects through its scope, through its arguments, and through packages. Every scope that it
makes begins with a new object that can hold variables and goes on with one that was there before, so it stays
a chain to the root, and outside of an enclave. Hosts that are alike in such scopes give the next depth hosts
that are alike.
-/

namespace ModelGraph

open Exec Enclave
open Script (Expr Statement)

variable {c : Enclave} {h : Heap}

/-- What a block returns, if it returns, is on the heap and outside. -/
def Enclave.HasReturned (c : Enclave) (h : Heap) : Flow → Prop
  | .next => True
  | .return v => c.Has h v

/-- Both hosts are well behaved and do the same, in scopes that are chains to the root, and in calls of what is
outside with arguments that are. -/
structure AlikeHosts (c : Enclave) (host host' : Host) : Prop where
  evaluate : ∀ {h : Heap} (e : Expr) {scope : Scope}, c.Scoped h scope →
    Alike c h c.Has (host.evaluate e scope) (host'.evaluate e scope)
  block : ∀ {h : Heap} (statements : List Statement) {scope : Scope}, c.Scoped h scope →
    Alike c h c.HasReturned (host.block statements scope) (host'.block statements scope)
  package : ∀ {h : Heap} (name : String), Alike c h c.HasIf (host.package name) (host'.package name)
  call : ∀ {h : Heap} {callee : Value} {receiver : Option Value} {arguments : Arguments}, c.Outside callee →
    c.OutsideIf receiver → c.HasAll h arguments.values →
    Alike c h c.Has (host.call callee receiver arguments) (host'.call callee receiver arguments)

namespace Enclave

theorem hasAll_named {arguments : Arguments} (hall : c.HasAll h arguments.values) :
    ∀ n ∈ arguments.named, c.Has h n.2 := fun _ hn =>
  hall _ (List.mem_append_right _ (List.mem_map_of_mem hn))

theorem hasAll_positional {arguments : Arguments} (hall : c.HasAll h arguments.values) :
    c.HasAll h arguments.positional := fun v hv => hall v (List.mem_append_left _ hv)

/-- Positional arguments alone. -/
theorem hasAll_values {values : List Value} (hvalues : c.HasAll h values) :
    c.HasAll h (Arguments.values { positional := values }) :=
  hasAll_append hvalues hasAll_nil

theorem hasAll_withReceiver (method : Bool) {receiver : Option Value} (hreceiver : c.OutsideIf receiver)
    {arguments : Arguments} (hall : c.HasAll h arguments.values) :
    c.HasAll h (withReceiver h method receiver arguments).values := by
  unfold withReceiver
  split
  · next r =>
      split_ifs with hmethod
      · obtain ⟨i, hi⟩ := Option.isSome_iff_exists.mp (Bool.and_eq_true_iff.mp hmethod).2
        refine hasAll_cons ((hreceiver r rfl).has ?_) hall
        unfold Heap.instance? at hi
        split at hi <;> cases hi
        exact Heap.has_of_object? ‹_›
      · exact hall
  · exact hall

theorem has_of_lookup {named : List (String × Value)} {name : String} {v : Value}
    (hnamed : ∀ n ∈ named, c.Has h n.2) (hv : named.lookup name = some v) : c.Has h v := by
  obtain ⟨before, after, rfl, -⟩ := List.lookup_eq_some_iff.mp hv
  exact hnamed (name, v) (by simp)

theorem Closed.scoped_around (hh : c.Closed h) {owner : Nat} {around scope : Scope}
    (hscope : c.Scoped h scope) (howner : Host.ownerScope h scope = owner :: around) :
    c.Scoped h (if around.isEmpty then rootScope else around) := by
  split_ifs with hempty
  · exact hh.scoped_root
  · have hsuffix : owner :: around <:+ scope := howner ▸ List.dropWhile_suffix _
    refine hscope.of_suffix ((List.suffix_cons owner around).trans hsuffix) fun hnil => ?_
    rw [hnil] at hempty
    exact hempty rfl

end Enclave

namespace Tame

theorem attribute? {v : Value} (hv : c.Outside v) (name : String) :
    Tame c h c.HasIf (Exec.attribute? v name) := by
  rintro m hm rfl
  exact ⟨rfl, hm, .refl _, fun _ heq => Except.ok.inj heq ▸ hm.closed.attribute? hv name⟩

theorem unresolvedCall (name : String) : Tame c h c.Has (Host.unresolvedCall name) := by
  refine .view (fun m => ⟨m, rfl⟩) fun m => ?_
  split
  · exact placeholder name
  · exact Tame.unsupported _

theorem tracedSchemas (name : String) : Tame c h Anything (ModelGraph.tracedSchemas name) := by
  refine .view (fun m => ⟨m, rfl⟩) fun m => ?_
  split
  · exact done
  · exact done

theorem define (definition : Script.Function) {scope : Scope} (hscope : c.Scoped h scope) :
    Tame c h Anything (Host.define definition scope) := by
  have hbind (module : String) (method : Bool) {globals : Scope} (hglobals : c.Scoped h globals) :
      Tame c h Anything (do
        let made ← Exec.alloc
          (.function { module, name := definition.name, kind := .script definition globals, method })
        Exec.assign scope definition.name made) := by
    refine (made ⟨hasAll_nil, fun s hs => ?_⟩).bind fun h₁ made _ hmade => assign hscope.spares _ hmade
    cases hs
    exact hglobals
  refine .afterHeap fun hh => ?_
  dsimp only
  split
  · exact unsupported _
  · next howner =>
      split
      · exact hbind _ _ (hh.scoped_around hscope howner)
      · exact hbind _ _ hscope
      · exact unsupported _

end Tame

namespace AlikeHosts

variable {host host' : Host}

section

variable (hosts : AlikeHosts c host host')
include hosts

/-! ## Names and calls -/

theorem typeOf (name : String) : Alike c h c.HasIf (host.typeOf name) (host'.typeOf name) := by
  refine .afterGlobal fun found hfound => ?_
  dsimp only
  split
  · exact Tame.pure hfound
  · split
    · exact Tame.pure hasIf_none
    · refine (hosts.package _).bind fun h₁ globals _ hglobals => ?_
      cases globals with
      | some globals => exact Tame.attribute? (hglobals globals rfl).outside _
      | none => exact Tame.pure hasIf_none

theorem invoke (name : String) {arguments : List Value} (hall : c.HasAll h arguments) :
    Alike c h c.Has (host.invoke name arguments) (host'.invoke name arguments) := by
  refine (hosts.typeOf name).bind fun h₁ callee hkeeps hcallee => ?_
  cases callee with
  | some callee =>
      exact hosts.call (hcallee callee rfl).outside c.outsideIf_none (hasAll_values (hall.mono hkeeps))
  | none => exact Tame.placeholder name

theorem reconstruct {v : Value} (hv : c.Outside v) :
    Alike c h c.Has (Builtin.reconstruct host v) (Builtin.reconstruct host' v) := by
  refine .afterHeap fun _ => ?_
  split
  · exact Tame.construct hv hasAll_nil
  · exact hosts.invoke _ hasAll_nil
  · exact .afterDescribe fun _ => Tame.typeFault _

theorem primitive (p : Primitive) {arguments : List Value} (hall : c.HasAll h arguments) :
    Alike c h c.Has (host.primitive p arguments) (host'.primitive p arguments) := by
  have harg := has_argument hall
  cases hstarts : p.startsCalls with
  | false =>
      rw [host'.primitive_eq host hstarts]
      exact Tame.primitive host hstarts hall
  | true =>
      cases p with
      | reconstruct => exact hosts.reconstruct (harg 0).outside
      | rebuildParameter =>
          have hboth := hasAll_cons (harg 0) (hasAll_cons (harg 1) hasAll_nil)
          refine (hosts.invoke _ hboth).bind fun h₁ made hkeeps hmade => ?_
          exact (Tame.setAttribute hmade.outside _ ((harg _).mono hkeeps)).bind fun _ _ hkeeps' _ =>
            Tame.pure (hmade.mono hkeeps')
      | rebuildFromType =>
          exact .afterItems (harg 2).outside fun items hitems =>
            hosts.call (harg 0).outside c.outsideIf_none (hasAll_values hitems)
      | compilationRun => exact Tame.run (harg 0).outside (harg 1).outside (harg 2).outside
      | _ => contradiction

theorem bindParameters {globals scope : Scope} (hglobals : c.Scoped h globals) (hscope : c.Spares scope)
    {named : List (String × Value)} (hnamed : ∀ n ∈ named, c.Has h n.2) (parameters : List Script.Parameter)
    {positional : List Value} (hpositional : c.HasAll h positional) :
    Alike c h Anything (host.bindParameters globals scope named parameters positional)
      (host'.bindParameters globals scope named parameters positional) := by
  induction parameters generalizing h positional with
  | nil => exact Tame.done
  | cons p rest ih =>
      have hnext {h' : Heap} (hkeeps : h.KeepsKinds h') {positional : List Value}
          (hall : c.HasAll h' positional) :=
        ih (hglobals.mono hkeeps) (fun n hn => (hnamed n hn).mono hkeeps) hall
      cases positional with
      | cons v positional =>
          obtain ⟨hv, hrest⟩ := List.forall_mem_cons.mp hpositional
          exact (Tame.assign hscope p.name hv).bind fun _ _ hkeeps _ => hnext hkeeps (HasAll.mono hrest hkeeps)
      | nil =>
          have hbind {x y : Exec Value} (hxy : Alike c h c.Has x y) : Alike c h Anything
              (do
                let v ← x
                Exec.assign scope p.name v
                host.bindParameters globals scope named rest [])
              (do
                let v ← y
                Exec.assign scope p.name v
                host'.bindParameters globals scope named rest []) :=
            hxy.bind fun _ _ hkeeps hv => (Tame.assign hscope p.name hv).bind fun _ _ hkeeps' _ =>
              hnext (hkeeps.trans hkeeps') hasAll_nil
          unfold Host.bindParameters
          split
          · next hlookup => exact hbind (Tame.pure (has_of_lookup hnamed hlookup))
          · exact hbind (hosts.evaluate _ hglobals)
          · exact hbind (Tame.pure has_none)

theorem apply (definition : Script.Function) {globals : Scope} (hglobals : c.Scoped h globals)
    {arguments : Arguments} (hall : c.HasAll h arguments.values) :
    Alike c h c.Has (host.apply definition globals arguments) (host'.apply definition globals arguments) := by
  have hmade : Tame c h (c.HasKind .namespace) (Exec.alloc (.namespace {})) :=
    Tame.alloc (o := .namespace {}) (.of_nil rfl rfl)
  refine hmade.bind fun h₁ locals hkeeps hlocals => ?_
  obtain ⟨id, rfl, hid⟩ := hlocals
  have hglobals₁ := hglobals.mono hkeeps
  have hscope := hglobals₁.inNamespace hid
  refine (hosts.bindParameters hglobals₁ hscope.spares (fun n hn => (hasAll_named hall n hn).mono hkeeps) _
    ((hasAll_positional hall).mono hkeeps)).bind fun h₂ _ hkeeps' _ => ?_
  refine (hosts.block _ (hscope.mono hkeeps')).bind fun h₃ flow _ hflow => ?_
  cases flow with
  | next => exact Tame.pure trivial
  | «return» v => exact Tame.pure hflow

theorem dispatch {callee : Value} {receiver : Option Value} {arguments : Arguments} (hcallee : c.Outside callee)
    (hreceiver : c.OutsideIf receiver) (hall : c.HasAll h arguments.values) :
    Alike c h c.Has (host.dispatch callee receiver arguments) (host'.dispatch callee receiver arguments) := by
  refine .afterHeap fun hh => ?_
  split
  · exact Tame.construct hcallee hall
  · next f hf =>
      have hall' := hasAll_withReceiver f.method hreceiver hall
      dsimp only
      split
      · exact hosts.primitive _ hall'
      · next definition globals hkind =>
          refine hosts.apply definition ((hh.within_object? hcallee hf).scope globals ?_) hall'
          obtain ⟨module, name, kind, method⟩ := f
          cases hkind
          rfl
  · exact Tame.typeFault _

/-! ## Expressions -/

variable {scope : Scope}

theorem resolvePath (path : String) (hscope : c.Spares scope) :
    Alike c h c.Has (host.resolvePath path scope) (host'.resolvePath path scope) := by
  refine .afterHeap fun hh => ?_
  split
  · exact Tame.pure (hh.resolve? hscope _ _ ‹_›)
  · exact (hosts.package path).bind fun _ _ _ hfound => Tame.pure (hfound.getD trivial)

variable (hscope : c.Scoped h scope)
include hscope

theorem receiver (e : Expr) : Alike c h c.Has (host.receiver e scope) (host'.receiver e scope) := by
  unfold Host.receiver
  split
  · exact hosts.resolvePath _ hscope.spares
  · exact hosts.evaluate e hscope

theorem evaluateAll (es : List Expr) :
    Alike c h c.HasAll (es.mapM (host.evaluate · scope)) (es.mapM (host'.evaluate · scope)) :=
  .mapM (fun _ _ _ hkeeps hv => hv.mono hkeeps) es fun _ e hkeeps _ =>
    hosts.evaluate e (hscope.mono hkeeps)

theorem arguments (unevaluated : List (Option String × Expr)) :
    Alike c h (fun h a => c.HasAll h a.values) (host.arguments scope unevaluated)
      (host'.arguments scope unevaluated) := by
  induction unevaluated generalizing h with
  | nil => exact Tame.pure hasAll_nil
  | cons argument rest ih =>
      obtain ⟨keyword, e⟩ := argument
      refine (hosts.evaluate e hscope).bind fun h₁ v hkeeps hv => ?_
      refine (ih (hscope.mono hkeeps)).bind fun h₂ others hkeeps' hothers => ?_
      have hv₂ := hv.mono hkeeps'
      cases keyword with
      | none => exact Tame.pure (hasAll_cons hv₂ hothers)
      | some name =>
          have hnamed : c.HasAll h₂ (others.named.map (·.2)) := fun w hw =>
            hothers w (List.mem_append_right _ hw)
          have hpositional := hasAll_positional hothers
          exact Tame.pure (hasAll_append hpositional (hasAll_cons hv₂ hnamed))

theorem callTarget (target : Expr) {arguments : Arguments} (hall : c.HasAll h arguments.values) :
    Alike c h c.Has (host.callTarget target arguments scope) (host'.callTarget target arguments scope) := by
  unfold Host.callTarget
  split
  · refine (hosts.receiver hscope _).bind fun h₁ object hkeeps hobject => .afterHeap fun hh => ?_
    have hall₁ := hall.mono hkeeps
    split
    · refine Tame.record _ _ fun id hid => ?_
      cases object <;> cases hid
      exact hobject
    · split
      · have hcallee := hh.attribute? hobject.outside _ _ ‹_›
        exact hosts.call hcallee.outside (outsideIf_some hobject.outside) hall₁
      · refine (hosts.typeOf _).bind fun h₂ callee hkeeps' hcallee => ?_
        cases callee with
        | some callee => exact hosts.call (hcallee callee rfl).outside c.outsideIf_none (hall₁.mono hkeeps')
        | none => exact Tame.unresolvedCall _
      · exact Tame.unsupported _
  · refine (hosts.receiver hscope _).bind fun h₁ callee hkeeps hcallee => ?_
    split
    · exact Tame.unresolvedCall _
    · exact hosts.call hcallee.outside c.outsideIf_none (hall.mono hkeeps)
  · exact (hosts.evaluate target hscope).bind fun _ callee hkeeps hcallee =>
      hosts.call hcallee.outside c.outsideIf_none (hall.mono hkeeps)

theorem traceCall (target : Expr) (unevaluated : List (Option String × Expr)) :
    Alike c h c.HasIf (host.traceCall target unevaluated scope) (host'.traceCall target unevaluated scope) := by
  unfold Host.traceCall
  split
  · dsimp only
    split
    · split
      · refine (hosts.arguments hscope _).bind fun h₁ evaluated hkeeps hall => ?_
        refine (Tame.tracedSchemas _).bind fun h₂ schemas hkeeps₂ _ => ?_
        refine (Tame.matchSchemas _ (hall.mono hkeeps₂) _ _).bind fun h₃ matched hkeeps₃ hmatched => ?_
        have hscope₃ := hscope.mono ((hkeeps.trans hkeeps₂).trans hkeeps₃)
        cases matched with
        | some v => exact Tame.pure hmatched
        | none =>
            refine (hosts.callTarget hscope₃ _ (hall.mono (hkeeps₂.trans hkeeps₃))).bind
              fun h₄ v hkeeps₄ hv => ?_
            refine (hosts.callTarget (hscope₃.mono hkeeps₄) _
              (hasAll_values (hasAll_cons hv hasAll_nil))).bind fun _ _ _ hv => ?_
            exact Tame.pure (hasIf_some hv)
      · refine (Tame.tracedSchemas _).bind fun h₁ schemas hkeeps _ => ?_
        have hscope₁ := hscope.mono hkeeps
        split
        · exact Tame.pure hasIf_none
        · refine (hosts.arguments hscope₁ _).bind fun h₂ evaluated hkeeps₂ hall => ?_
          refine (Tame.matchSchemas _ hall _ _).bind fun h₃ matched hkeeps₃ hmatched => ?_
          cases matched with
          | some v => exact Tame.pure hmatched
          | none =>
              exact (hosts.callTarget (hscope₁.mono (hkeeps₂.trans hkeeps₃)) _
                (hall.mono hkeeps₃)).bind fun _ _ _ hv => Tame.pure (hasIf_some hv)
    · exact Tame.pure hasIf_none
  · exact Tame.pure hasIf_none

theorem callExpression (target : Expr) (unevaluated : List (Option String × Expr)) :
    Alike c h c.Has (host.callExpression target unevaluated scope)
      (host'.callExpression target unevaluated scope) := by
  have hcall {h : Heap} (hscope : c.Scoped h scope) :
      Alike c h c.Has (do host.callTarget target (← host.arguments scope unevaluated) scope)
        (do host'.callTarget target (← host'.arguments scope unevaluated) scope) :=
    (hosts.arguments hscope unevaluated).bind fun _ _ hkeeps hall =>
      hosts.callTarget (hscope.mono hkeeps) target hall
  refine .view (fun m => ⟨m, rfl⟩) fun m => ?_
  split
  case' isTrue => refine (hosts.traceCall hscope target unevaluated).bind fun h₁ traced hkeeps htraced => ?_
  case' isFalse =>
    refine (Tame.pure (hasIf_none (c := c))).bind fun h₁ traced hkeeps htraced => ?_
  all_goals
    cases traced with
    | some v => exact Tame.pure (htraced v rfl)
    | none => exact hcall (hscope.mono hkeeps)

theorem subscript (target : Expr) (index : List Expr) :
    Alike c h c.Has (host.subscript target index scope) (host'.subscript target index scope) := by
  unfold Host.subscript
  dsimp only
  split
  case' h_1 name => refine .afterHeap fun hh => (Tame.pure (hh.lookup? hscope.spares name)).bind ?_
  case' h_2 => refine (Tame.pure (hasIf_none (c := c))).bind ?_
  all_goals
    intro h₁ bound? hkeeps hbound
    have hscope₁ := hscope.mono hkeeps
    cases bound?
    case' some v => refine (Tame.pure (hbound v rfl)).bind ?_
    case' none => refine (hosts.evaluate _ hscope₁).bind ?_
    all_goals
      intro h₂ container hkeeps₂ hcontainer
      refine (hosts.evaluateAll (hscope₁.mono hkeeps₂) index).bind fun h₃ indices _ hindices => ?_
      refine .afterHeap fun hh => ?_
      split
      · refine Tame.made (.of_parts (fun v hv => ?_) rfl)
        exact hindices v ((List.mem_append.mp hv).resolve_right List.not_mem_nil)
      · exact Tame.pure ((hh.item? hcontainer.outside _).getD trivial)
      · exact Tame.unsupported _

theorem evaluateStep (e : Expr) :
    Alike c h c.Has (host.evaluateStep e scope) (host'.evaluateStep e scope) := by
  cases e with
  | id name => exact .afterHeap fun hh => Tame.pure (hh.identifier hscope.spares name)
  | str s => exact Tame.pure trivial
  | int i => exact Tame.pure trivial
  | float x => exact Tame.pure trivial
  | list items => exact (hosts.evaluateAll hscope items).bind fun _ _ _ hitems => Tame.list hitems
  | tuple items => exact (hosts.evaluateAll hscope items).bind fun _ _ _ hitems => Tame.list hitems
  | dict entries =>
      refine Tame.emptyDict.bind fun h₁ made hkeeps hmade => ?_
      have hscope₁ := hscope.mono hkeeps
      refine Alike.bind (Alike.forIn entries fun h₂ entry hkeeps₂ _ => ?_) fun _ _ hkeeps' _ =>
        Tame.pure (hmade.mono hkeeps')
      have hscope₂ := hscope₁.mono hkeeps₂
      refine (hosts.evaluate _ hscope₂).bind fun h₃ key hkeeps₃ hkey => ?_
      refine (hosts.evaluate _ (hscope₂.mono hkeeps₃)).bind fun h₄ value hkeeps₄ hvalue => ?_
      exact (Tame.setItem hmade.outside (hkey.mono hkeeps₄) hvalue).bind fun _ _ _ _ => Tame.done
  | attr target member =>
      unfold Host.evaluateStep
      dsimp only
      split
      · exact hosts.resolvePath _ hscope.spares
      · refine (hosts.evaluate target hscope).bind fun h₁ object _ hobject => ?_
        exact .afterAttribute hobject.outside fun _ hfound => Tame.pure (hfound.getD trivial)
  | subscript target index => exact hosts.subscript hscope target index
  | call target unevaluated => exact hosts.callExpression hscope target unevaluated

end

end AlikeHosts

end ModelGraph
