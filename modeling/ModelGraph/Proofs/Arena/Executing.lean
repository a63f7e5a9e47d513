import ModelGraph.Proofs.Arena.Evaluating
import ModelGraph.Proofs.Machine.Runs

/-!
# Every depth of nesting is tame

Statements and the loading of packages come down to evaluation. So hosts that are alike give hosts that
are alike at the next depth, and by induction the machine is well behaved at every depth. The second of
two such hosts may look at every scope before it uses it: it never finds one that is no chain to the root.
-/

namespace ModelGraph

open Exec Enclave
open Script (Expr Statement)

variable {c : Enclave} {h : Heap}

namespace Tame

theorem parseFile (file source : String) : Tame c h Anything (Host.parseFile file source) := by
  unfold Host.parseFile
  split
  · exact done
  · exact throw _

theorem packageNamespace (name : String) : Tame c h (c.IsA .namespace) (Host.packageNamespace name) := by
  refine .afterGlobal fun bound? hbound => .afterHeap fun _ => ?_
  split
  · next id n hfound => exact pure ⟨Heap.kind?_of_get? hfound, (hbound _ rfl).2⟩
  · have hmade : Tame c h (c.HasKind .namespace) (Exec.alloc (.namespace {})) :=
      alloc (o := .namespace {}) (.of_nil rfl rfl)
    refine hmade.bind fun h₁ made _ hmade => ?_
    refine (bindGlobal name hmade.has).bind fun h₂ _ hkeeps _ => ?_
    obtain ⟨id, rfl, hid⟩ := hmade
    exact pure (hid.mono hkeeps)

theorem asGlobals (name : String) {id : Nat} (hid : ¬ c.inside id) :
    Tame c h Anything (Exec.modifyHeap (·.modify id (Host.asGlobals name))) := by
  refine modifyHeap fun hh => hh.modify hid (fun o => by cases o <;> rfl) fun o ho => ?_
  cases o with
  | «namespace» n => exact .of_parts (ho.mapFields_insert "__name__" (has_str name)).parts rfl
  | _ => exact ho

theorem register (name : String) {id : Nat} (hid : c.IsA .namespace h id) :
    Tame c h Anything (Exec.register name id) := by
  rintro m hm rfl
  refine ⟨rfl, ⟨hm.closed, fun e he => ?_⟩, .refl _, fun _ _ => trivial⟩
  rcases OrderedMap.mem_insertEntry he with rfl | he
  · exact hid
  · exact hm.packages e he

end Tame

namespace AlikeHosts

variable {host host' : Host}

section

variable (hosts : AlikeHosts c host host') {scope : Scope}
include hosts

/-! ## Statements -/

theorem importedModule (name : String) (hscope : c.Spares scope) :
    Alike c h c.Has (host.importedModule name scope) (host'.importedModule name scope) := by
  refine .afterHeap fun hh => ?_
  split
  · exact Tame.pure (hh.resolve? hscope _ _ ‹_›)
  · refine (hosts.package name).bind fun h₁ globals _ hglobals => ?_
    cases globals with
    | some globals => exact Tame.pure (hglobals globals rfl)
    | none => exact Tame.throw _

theorem assignedContainer (hscope : c.Scoped h scope) (target : Expr) :
    Alike c h c.Has (host.assignedContainer target scope) (host'.assignedContainer target scope) := by
  unfold Host.assignedContainer
  split
  · refine .afterHeap fun hh => ?_
    split
    · exact Tame.pure (hh.lookup? hscope.spares _ _ ‹_›)
    · split
      · refine Tame.emptyDict.bind fun h₁ made _ hmade => ?_
        exact (Tame.assign hscope.spares _ hmade).bind fun _ _ hkeeps _ => Tame.pure (hmade.mono hkeeps)
      · exact Tame.typeFault _
  · exact hosts.evaluate target hscope

end

mutual

theorem assignTo (hosts : AlikeHosts c host host') {h : Heap} {scope : Scope} (hscope : c.Scoped h scope)
    (target : Expr) {v : Value} (hv : c.Has h v) :
    Alike c h Anything (host.assignTo scope target v) (host'.assignTo scope target v) := by
  unfold Host.assignTo
  split
  · exact Tame.assign hscope.spares _ hv
  · refine (hosts.assignedContainer hscope _).bind fun h₁ container hkeeps hcontainer => ?_
    refine (hosts.evaluate _ (hscope.mono hkeeps)).bind fun h₂ key hkeeps' hkey => ?_
    refine .afterHeap fun _ => ?_
    split
    · exact Tame.setItem hcontainer.outside hkey (hv.mono (hkeeps.trans hkeeps'))
    · exact Tame.typeFault _
  · refine (hosts.evaluate _ hscope).bind fun h₁ object hkeeps hobject => .afterHeap fun _ => ?_
    split
    · exact Tame.setAttribute hobject.outside _ (hv.mono hkeeps)
    · exact Tame.typeFault _
  · exact unpackTo hosts hscope _ hv.outside
  · exact unpackTo hosts hscope _ hv.outside
  · exact Tame.unsupported _

theorem unpackTo (hosts : AlikeHosts c host host') {h : Heap} {scope : Scope} (hscope : c.Scoped h scope)
    (targets : List Expr) {v : Value} (hv : c.Outside v) :
    Alike c h Anything (host.unpackTo scope targets v) (host'.unpackTo scope targets v) := by
  unfold Host.unpackTo
  refine .afterHeap fun hh => ?_
  split
  · next hitems =>
      split
      · exact assignAll hosts hscope targets (hh.items? hv hitems)
      · exact Tame.unsupported _
  · exact Tame.unsupported _

theorem assignAll (hosts : AlikeHosts c host host') {h : Heap} {scope : Scope} (hscope : c.Scoped h scope)
    (targets : List Expr) {values : List Value} (hvalues : c.HasAll h values) :
    Alike c h Anything (host.assignAll scope targets values) (host'.assignAll scope targets values) := by
  unfold Host.assignAll
  split
  · obtain ⟨hv, hrest⟩ := List.forall_mem_cons.mp hvalues
    refine (assignTo hosts hscope _ hv).bind fun h₁ _ hkeeps _ => ?_
    exact assignAll hosts (hscope.mono hkeeps) _ (HasAll.mono hrest hkeeps)
  · exact Tame.done

end

section

variable (hosts : AlikeHosts c host host') {scope : Scope}
include hosts

theorem importNames (hscope : c.Spares scope) (module : String) {package : Value} (hpackage : c.Outside package)
    (names : List Script.ImportName) :
    Alike c h Anything (host.importNames scope module package names)
      (host'.importNames scope module package names) := by
  induction names generalizing h with
  | nil => exact Tame.done
  | cons i rest ih =>
      have hbind {h : Heap} {x y : Exec Value} (hxy : Alike c h c.Has x y) : Alike c h Anything
          (do
            let v ← x
            Exec.assign scope i.binding v
            host.importNames scope module package rest)
          (do
            let v ← y
            Exec.assign scope i.binding v
            host'.importNames scope module package rest) :=
        hxy.bind fun _ _ _ hv => (Tame.assign hscope i.binding hv).bind fun _ _ _ _ => ih
      refine .afterAttribute hpackage fun found hfound => ?_
      dsimp only
      split
      · exact hbind (Tame.pure (hfound _ rfl))
      · refine (hosts.typeOf _).bind fun h₁ found _ hfound => ?_
        exact hbind (Tame.pure (hfound.getD has_none))

theorem importModules (hscope : c.Spares scope) (names : List Script.ImportName) :
    Alike c h Anything (host.importModules scope names) (host'.importModules scope names) := by
  induction names generalizing h with
  | nil => exact Tame.done
  | cons i rest ih =>
      unfold Host.importModules
      split
      · exact (hosts.importedModule _ hscope).bind fun _ _ _ hv =>
          (Tame.assign hscope _ hv).bind fun _ _ _ _ => ih
      · exact ih

variable (hscope : c.Scoped h scope)
include hscope

theorem loop (name : String) (body : List Statement) {items : List Value} (hitems : c.HasAll h items) :
    Alike c h c.HasReturned (host.loop scope name body items) (host'.loop scope name body items) := by
  induction items generalizing h with
  | nil => exact Tame.pure trivial
  | cons v rest ih =>
      obtain ⟨hv, hrest⟩ := List.forall_mem_cons.mp hitems
      refine (Tame.assign hscope.spares name hv).bind fun h₁ _ hkeeps _ => ?_
      refine (hosts.block body (hscope.mono hkeeps)).bind fun h₂ flow hkeeps' hflow => ?_
      cases flow with
      | «return» v => exact Tame.pure hflow
      | next =>
          have hboth := hkeeps.trans hkeeps'
          exact ih (hscope.mono hboth) (HasAll.mono hrest hboth)

theorem execute (s : Statement) :
    Alike c h c.HasReturned (host.execute s scope) (host'.execute s scope) := by
  have hnext {h : Heap} : Tame c h c.HasReturned (Pure.pure .next : Exec Flow) := Tame.pure trivial
  unfold Host.execute
  split
  · exact hnext
  · exact Tame.pure trivial
  · exact (hosts.evaluate _ hscope).bind fun _ _ _ hv => Tame.pure hv
  · exact (Tame.define _ hscope).bind fun _ _ _ _ => hnext
  · refine .afterHeap fun _ => ?_
    -- The body of a class runs in the class itself.
    have hmade (module name : String) :
        Tame c h (c.HasKind .class) (Exec.alloc (.class { module, name, kind := .user })) :=
      Tame.alloc (o := .class _) (.of_nil rfl rfl)
    refine (hmade _ _).bind fun h₁ made hkeeps hmade => ?_
    refine (Tame.assign hscope.spares _ hmade.has).bind fun h₂ _ hkeeps' _ => ?_
    obtain ⟨id, rfl, hid⟩ := hmade
    have hbody := (hscope.mono hkeeps).inClass hid
    exact (hosts.block _ (hbody.mono hkeeps')).bind fun _ _ _ _ => hnext
  · exact (Tame.assign hscope.spares _ has_none).bind fun _ _ _ _ => hnext
  · refine (hosts.evaluate _ hscope).bind fun h₁ v hkeeps hv => ?_
    exact (assignTo hosts (hscope.mono hkeeps) _ hv).bind fun _ _ _ _ => hnext
  · refine (hosts.evaluate _ hscope).bind fun h₁ v hkeeps _ => ?_
    split
    · exact hosts.block _ (hscope.mono hkeeps)
    · exact hosts.block _ (hscope.mono hkeeps)
    · exact .afterDescribe fun _ => Tame.unsupported _
  · refine (hosts.evaluate _ hscope).bind fun h₁ v hkeeps hv => .afterHeap fun hh => ?_
    split
    · exact hosts.loop (hscope.mono hkeeps) _ _ (hh.items? hv.outside ‹_›)
    · exact Tame.unsupported _
  · exact Tame.unsupported _
  · refine (hosts.evaluate _ hscope).bind fun h₁ v _ _ => ?_
    split
    · exact hnext
    · exact Tame.unsupported _
  · exact (hosts.evaluate _ hscope).bind fun _ _ _ _ => hnext
  · exact (hosts.importModules hscope.spares _).bind fun _ _ _ _ => hnext
  · exact (hosts.importedModule _ hscope.spares).bind fun _ package _ hpackage =>
      (hosts.importNames hscope.spares _ hpackage.outside _).bind fun _ _ _ _ => hnext

theorem blockStep (statements : List Statement) :
    Alike c h c.HasReturned (host.blockStep scope statements) (host'.blockStep scope statements) := by
  induction statements generalizing h with
  | nil => exact Tame.pure trivial
  | cons s rest ih =>
      refine (hosts.execute hscope s).bind fun h₁ flow hkeeps hflow => ?_
      cases flow with
      | «return» v => exact Tame.pure hflow
      | next => exact ih (hscope.mono hkeeps)

end

/-! ## Packages -/

theorem loadPackage (hosts : AlikeHosts c host host') (name : String) :
    Alike c h c.HasIf (host.loadPackage name) (host'.loadPackage name) := by
  rw [← host.loadPackageWith_register, ← host'.loadPackageWith_register]
  refine Alike.look (fun m => m) (fun _ => rfl) fun m hm hh => ?_
  split
  · next id hloaded =>
      have hid : c.IsA .namespace m.heap id := hm.packages _ (OrderedMap.mem_entries_of_get? hloaded)
      exact Tame.pure (hasIf_some (hh ▸ hid.has))
  · split
    · exact Tame.pure hasIf_none
    · refine (Tame.packageNamespace name).bind fun h₁ id _ hid => ?_
      refine (Tame.asGlobals name hid.2).bind fun h₂ _ hkeeps₂ _ => ?_
      refine (Tame.register name (hid.mono hkeeps₂)).bind fun h₃ _ hkeeps₃ _ => ?_
      refine (Tame.parseFile _ _).bind fun h₄ statements hkeeps₄ _ => ?_
      have hid₄ := hid.mono ((hkeeps₂.trans hkeeps₃).trans hkeeps₄)
      refine .knowing fun m hm hh => ?_
      have hroot : c.Scoped h₄ rootScope := hh ▸ hm.closed.scoped_root
      refine (hosts.block statements (hroot.inNamespace hid₄)).bind fun h₅ _ hkeeps₅ _ => ?_
      exact Tame.pure (hasIf_some (hid₄.mono hkeeps₅).has)

/-- The step to the next depth. -/
theorem step (hosts : AlikeHosts c host host') : AlikeHosts c host.step host'.step where
  evaluate e _ hscope := hosts.evaluateStep hscope e
  block statements _ hscope := hosts.blockStep hscope statements
  package name := hosts.loadPackage name
  call hcallee hreceiver hall := hosts.dispatch hcallee hreceiver hall

theorem exhausted : AlikeHosts c .exhausted .exhausted where
  evaluate _ _ _ := Tame.throw _
  block _ _ _ := Tame.throw _
  package _ := Tame.throw _
  call _ _ _ := Tame.throw _

end AlikeHosts

/-! ## Scopes that are looked at -/

/-- Lets a scope pass that is a chain of objects with variables to the root. At any other scope the machine
is lost. -/
def Exec.checkScope (scope : Scope) : Exec Unit := do
  if (← heap).isScope scope then return
  set (default : Machine)
  throw .tooDeep

namespace Host

/-- The host that looks at a scope before it uses it. -/
def checked (host : Host) : Host :=
  { host with
    evaluate := fun e scope => do
      checkScope scope
      host.evaluate e scope
    block := fun statements scope => do
      checkScope scope
      host.block statements scope }

/-- The host for a depth of nesting, with all scopes looked at. -/
def ofDepthChecked : (depth : Nat) → Host
  | 0 => exhausted
  | depth + 1 => (ofDepthChecked depth).step.checked

/-- The host that every load uses, with all scopes looked at. -/
def standardChecked : Host := ofDepthChecked maxDepth

end Host

/-- A lost machine shows: it has no root. -/
theorem Machine.not_wellFormed_default : ¬ (default : Machine).WellFormed := fun hm => by
  cases hm.closed.root

/-- On well-formed machines an action may look at a scope that is in order first. -/
theorem Alike.checkScope {α : Type} {post : Heap → α → Prop} {x y : Exec α} {scope : Scope}
    (hscope : h.isScope scope = true) (hxy : Alike c h post x y) :
    Alike c h post x (do Exec.checkScope scope; y) := by
  intro m hm hh
  have hpass : (Exec.checkScope scope).outcome m = (.ok (), m) := by
    unfold Exec.checkScope
    rw [outcome_bind_ok (outcome_heap m), hh, if_pos hscope]
    rfl
  rw [outcome_bind_ok hpass]
  exact hxy hm hh

namespace AlikeHosts

theorem checked {host host' : Host} (hosts : AlikeHosts c host host') : AlikeHosts c host host'.checked where
  evaluate e _ hscope := (hosts.evaluate e hscope).checkScope hscope.chain
  block statements _ hscope := (hosts.block statements hscope).checkScope hscope.chain
  package name := hosts.package name
  call hcallee hreceiver hall := hosts.call hcallee hreceiver hall

theorem ofDepth (depth : Nat) : AlikeHosts c (.ofDepth depth) (.ofDepthChecked depth) := by
  induction depth with
  | zero => exact exhausted
  | succ depth ih => exact ih.step.checked

theorem standard : AlikeHosts c .standard .standardChecked := ofDepth Host.maxDepth

end AlikeHosts

/-! ## Operations from outside

What is asked of a machine comes with values. If those are on the heap and outside, the operation is well
behaved, however it ends. -/

/-- A definition of a code file as a method of a module. -/
theorem Tame.attachFunctions {module : Value} (hmodule : c.Outside module) (source file : String) :
    Tame c h Anything (Exec.attachFunctions module source file) := by
  refine (parseFile file source).bind fun h₁ statements _ _ => .afterHeap fun _ => ?_
  refine (Alike.forIn _ fun h₂ d _ _ => .knowing fun m hm hh => ?_).bind fun _ _ _ _ => done
  have hroot : c.Scoped h₂ rootScope := hh ▸ hm.closed.scoped_root
  refine (made ⟨hasAll_nil, fun s hs => ?_⟩).bind fun h₃ made _ hmade => ?_
  · cases hs
    exact hroot
  · exact (setAttribute hmodule d.name hmade).bind fun _ _ _ _ => done

namespace AlikeHosts

variable {host host' : Host} (hosts : AlikeHosts c host host')
include hosts

theorem setState {target state : Value} (htarget : c.Outside target) (hstate : c.Has h state) :
    Alike c h Anything (host.setState target state) (host'.setState target state) := by
  unfold Host.setState
  split
  · exact Tame.done
  · refine .view (fun m => ?_) fun constructor => .afterHeap fun hh => ?_
    · unfold Exec.constructor?
      rw [outcome_bind_ok (outcome_heap m)]
      split
      · exact ⟨_, rfl⟩
      · exact ⟨_, rfl⟩
    extract_lets merge method method'
    have hmerge {h : Heap} : Tame c h Anything (merge ()) := Tame.mergeState htarget hstate.outside
    have hmethod {h : Heap} (hstate : c.Has h state) : Alike c h Anything (method ()) (method' ()) := by
      dsimp only [method, method']
      split
      · refine .afterAttribute htarget fun found hfound => ?_
        split
        · refine .afterHeap fun _ => ?_
          split
          · have hall := hasAll_values (hasAll_cons hstate hasAll_nil)
            exact (hosts.call (hfound _ rfl).outside (outsideIf_some htarget) hall).bind
              fun _ _ _ _ => Tame.done
          · exact hmerge
        · exact hmerge
      · exact hmerge
    split
    · next items hitems =>
        have hitems := hh.items? hstate.outside hitems
        refine (Tame.restoreLayout constructor htarget hitems).bind fun h₁ restored hkeeps _ => ?_
        split
        · exact Tame.done
        · exact hmethod (hstate.mono hkeeps)
    · exact hmethod hstate

theorem traceForward {module : Value} (hmodule : c.Outside module) (catalog : Operator.Catalog) :
    Alike c h Anything (Exec.traceForwardWith host module catalog)
      (Exec.traceForwardWith host' module catalog) := by
  have hforward {h : Heap} {forward : Value} (hcallee : c.Outside forward) (definition : Script.Function) :
      Alike c h Anything (Trace.runForwardWith host module forward definition)
        (Trace.runForwardWith host' module forward definition) := by
    refine (Tame.parameters _).bind fun h₁ made _ hmade => .afterHeap fun _ => ?_
    exact (hosts.call hcallee (outsideIf_some hmodule) (hasAll_values hmade)).bind fun _ _ _ _ => Tame.done
  refine .afterHeap fun hh => ?_
  split
  · exact Tame.unsupported _
  · next forward hfound =>
      have hcallee := (hh.attribute? hmodule _ _ hfound).outside
      split
      · refine Alike.bind (Alike.recording catalog (fun _ _ _ _ _ => trivial) fun _ _ => hforward hcallee _) ?_
        exact fun _ recorded _ _ => .afterHeap fun _ => Tame.done
      · exact Tame.unsupported _

end AlikeHosts

namespace Operation

/-- The values that an operation is given are on the heap. -/
def Valid (h : Heap) : Operation → Prop
  | package _ => True
  | typeOf _ => True
  | invoke _ arguments => h.HasAll arguments
  | call callee arguments => h.Has callee ∧ h.HasAll arguments
  | attachFunctions module _ _ => h.Has module
  | traceForward module _ => h.Has module

theorem alike {host host' : Host} (hosts : AlikeHosts empty host host') {o : Operation} (ho : o.Valid h) :
    Alike empty h Anything (o.runWith host) (o.runWith host') := by
  cases o with
  | package name => exact (hosts.package name).bind fun _ _ _ _ => Tame.done
  | typeOf name => exact (hosts.typeOf name).bind fun _ _ _ _ => Tame.done
  | invoke name arguments =>
      have hall : empty.HasAll h arguments := hasAll_empty ▸ ho
      exact (hosts.invoke name hall).bind fun _ _ _ _ => Tame.done
  | call callee arguments =>
      have hall : empty.HasAll h arguments := hasAll_empty ▸ ho.2
      exact (hosts.call (outside_empty callee) empty.outsideIf_none (hasAll_values hall)).bind
        fun _ _ _ _ => Tame.done
  | attachFunctions module source file =>
      exact (Tame.attachFunctions (outside_empty module) source file).bind fun _ _ _ _ => Tame.done
  | traceForward module catalog =>
      exact (hosts.traceForward (outside_empty module) catalog).bind fun _ _ _ _ => Tame.done

end Operation

end ModelGraph
