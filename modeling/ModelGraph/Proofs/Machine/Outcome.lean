import ModelGraph.Machine.Run
import ModelGraph.Proofs.Object.Frame

/-!
# Outcomes of actions

What an action gives on a machine, by the way it is put together. An action is plain if it neither
looks at the trace under way nor writes tags or the bytes of storages, and loads no package:
everything that scripts do is plain, except for the calls that a trace records and the loading of
packages.
-/

namespace ModelGraph

variable {α β : Type}

namespace Machine

/-- The machine with another trace under way, or none. -/
def withTracer (m : Machine) (tracer? : Option Tracer) : Machine := { m with tracer? }

@[simp] theorem withTracer_self (m : Machine) : m.withTracer m.tracer? = m := rfl

/-- The machine with another heap. -/
def withHeap (m : Machine) (heap : Heap) : Machine := { m with heap }

@[simp] theorem heap_withHeap (m : Machine) (heap : Heap) : (m.withHeap heap).heap = heap := rfl

end Machine

namespace Exec

/-- The result of an action and the machine it leaves. -/
def outcome (x : Exec α) (m : Machine) : Except RunError α × Machine := x.run m

@[simp] theorem outcome_pure (a : α) (m : Machine) : (pure a : Exec α).outcome m = (.ok a, m) := rfl

theorem outcome_bind (x : Exec α) (f : α → Exec β) (m : Machine) :
    (x >>= f).outcome m =
      match x.outcome m with
      | (.ok a, m') => (f a).outcome m'
      | (.error e, m') => (.error e, m') := by
  have hbind : (x >>= f).outcome m =
      (match x.outcome m with
        | (result, m') => (ExceptT.bindCont f result) m') := rfl
  rw [hbind]
  rcases x.outcome m with ⟨_ | _, m'⟩ <;> rfl

theorem outcome_bind_ok {x : Exec α} {m m' : Machine} {a : α} (h : x.outcome m = (.ok a, m'))
    (f : α → Exec β) : (x >>= f).outcome m = (f a).outcome m' := by
  rw [outcome_bind, h]

theorem outcome_bind_error {x : Exec α} {m m' : Machine} {e : RunError}
    (h : x.outcome m = (.error e, m')) (f : α → Exec β) :
    (x >>= f).outcome m = (.error e, m') := by
  rw [outcome_bind, h]

theorem exists_of_outcome_bind {x : Exec α} {f : α → Exec β} {m m' : Machine} {b : β}
    (h : (x >>= f).outcome m = (.ok b, m')) :
    ∃ a m₁, x.outcome m = (.ok a, m₁) ∧ (f a).outcome m₁ = (.ok b, m') := by
  rw [outcome_bind] at h
  rcases hx : x.outcome m with ⟨e | a, m₁⟩ <;> rw [hx] at h
  · cases h
  · exact ⟨a, m₁, rfl, h⟩

@[simp] theorem outcome_get (m : Machine) : (get : Exec Machine).outcome m = (.ok m, m) := rfl

@[simp] theorem outcome_heap (m : Machine) : heap.outcome m = (.ok m.heap, m) := rfl

@[simp] theorem outcome_modify (change : Machine → Machine) (m : Machine) :
    (modify change : Exec Unit).outcome m = (.ok (), change m) := rfl

/-- Notes the globals of a package whose loading begins. -/
def register (name : String) (id : Nat) : Exec Unit :=
  modify fun m => { m with packages := m.packages.insert name id }

theorem outcome_ofExcept (result : Except RunError α) (m : Machine) :
    (ofExcept result : Exec α).outcome m = (result, m) := by
  cases result <;> rfl

end Exec

/-! ## Plain actions -/

/-- The action leaves the trace under way alone, does not depend on it, changes the heap as scripts do
and loads no package. Whether it may make functions, `code` says. -/
structure Plain (code : Prop) (x : Exec α) : Prop where
  outcome_withTracer : ∀ (m : Machine) (tracer? : Option Tracer), x.outcome (m.withTracer tracer?) =
    ((x.outcome m).1, (x.outcome m).2.withTracer tracer?)
  grows : ∀ m : Machine, m.heap.Grows code (x.outcome m).2.heap
  packages_eq : ∀ m : Machine, (x.outcome m).2.packages = m.packages
  sources_eq : ∀ m : Machine, (x.outcome m).2.sources = m.sources

namespace Plain

open Exec

variable {code : Prop}

theorem tracer?_eq {x : Exec α} (h : Plain code x) (m : Machine) :
    (x.outcome m).2.tracer? = m.tracer? := by
  have hself := h.outcome_withTracer m m.tracer?
  rw [Machine.withTracer_self] at hself
  rw [hself]
  rfl

theorem pure (a : α) : Plain code (Pure.pure a : Exec α) :=
  ⟨fun _ _ => rfl, fun m => .refl m.heap, fun _ => rfl, fun _ => rfl⟩

theorem throw (e : RunError) : Plain code (MonadExcept.throw e : Exec α) :=
  ⟨fun _ _ => rfl, fun m => .refl m.heap, fun _ => rfl, fun _ => rfl⟩

theorem bind {x : Exec α} {f : α → Exec β} (hx : Plain code x) (hf : ∀ a, Plain code (f a)) :
    Plain code (x >>= f) where
  outcome_withTracer m tracer? := by
    rw [outcome_bind, outcome_bind, hx.outcome_withTracer]
    rcases x.outcome m with ⟨e | a, m'⟩
    · rfl
    · exact (hf a).outcome_withTracer m' tracer?
  grows m := by
    have hfirst := hx.grows m
    rw [outcome_bind]
    rcases hx : x.outcome m with ⟨e | a, m'⟩ <;> rw [hx] at hfirst
    · exact hfirst
    · exact hfirst.trans ((hf a).grows m')
  packages_eq m := by
    have hfirst := hx.packages_eq m
    rw [outcome_bind]
    rcases hx : x.outcome m with ⟨e | a, m'⟩ <;> rw [hx] at hfirst
    · exact hfirst
    · exact ((hf a).packages_eq m').trans hfirst
  sources_eq m := by
    have hfirst := hx.sources_eq m
    rw [outcome_bind]
    rcases hx : x.outcome m with ⟨e | a, m'⟩ <;> rw [hx] at hfirst
    · exact hfirst
    · exact ((hf a).sources_eq m').trans hfirst

theorem forIn {γ : Type} {f : γ → β → Exec (ForInStep β)} (hf : ∀ a b, Plain code (f a b))
    (items : List γ) (start : β) : Plain code (ForIn.forIn items start f) := by
  induction items generalizing start with
  | nil => exact pure start
  | cons a rest ih =>
      rw [List.forIn_cons]
      refine (hf a start).bind fun result => ?_
      cases result with
      | done b => exact pure b
      | yield b => exact ih b

/-- Looking at a part of the machine other than the trace. -/
theorem view {look : Machine → α} (h : ∀ m tracer?, look (m.withTracer tracer?) = look m) :
    Plain code (do return look (← get) : Exec α) where
  outcome_withTracer m tracer? :=
    congrArg (fun a => (Except.ok (ε := RunError) a, m.withTracer tracer?)) (h m tracer?)
  grows m := .refl m.heap
  packages_eq _ := rfl
  sources_eq _ := rfl

/-- Changing the machine beside the trace. -/
theorem modify {change : Machine → Machine}
    (h : ∀ m tracer?, change (m.withTracer tracer?) = (change m).withTracer tracer?)
    (hgrows : ∀ m : Machine, m.heap.Grows code (change m).heap)
    (hpackages : ∀ m : Machine, (change m).packages = m.packages)
    (hsources : ∀ m : Machine, (change m).sources = m.sources) :
    Plain code (MonadState.modifyGet (fun m => ((), change m)) : Exec Unit) where
  outcome_withTracer m tracer? :=
    congrArg (fun m' => (Except.ok (ε := RunError) (), m')) (h m tracer?)
  grows m := hgrows m
  packages_eq m := hpackages m
  sources_eq m := hsources m

theorem heap : Plain code Exec.heap := view fun _ _ => rfl

theorem modifyHeap {change : Heap → Heap} (h : ∀ old : Heap, old.Grows code (change old)) :
    Plain code (Exec.modifyHeap change) :=
  modify (fun _ _ => rfl) (fun m => h m.heap) (fun _ => rfl) fun _ => rfl

theorem alloc {o : Object} (ho : o.New code) : Plain code (Exec.alloc o) where
  outcome_withTracer _ _ := rfl
  grows m := Heap.grows_push m.heap ho
  packages_eq _ := rfl
  sources_eq _ := rfl

theorem ofExcept (result : Except RunError α) : Plain code (MonadExcept.ofExcept result : Exec α) := by
  cases result with
  | ok a => exact pure a
  | error e => exact throw e

theorem list (items : List Value) : Plain code (Exec.list items) :=
  alloc trivial

theorem dict (entries : Dict) : Plain code (Exec.dict entries) :=
  alloc trivial

theorem bytes (data : Bytes) : Plain code (Exec.bytes data) :=
  alloc trivial

theorem record (module name : String) (class? : Option Nat) :
    Plain code (Exec.record module name class?) :=
  alloc rfl

theorem describe (v : Value) : Plain code (Exec.describe v) := heap.bind fun _ => pure _

theorem attribute? (v : Value) (name : String) : Plain code (Exec.attribute? v name) :=
  heap.bind fun _ => pure _

theorem items (v : Value) : Plain code (Exec.items v) := heap.bind fun _ => pure _

theorem global? (name : String) : Plain code (Exec.global? name) := heap.bind fun _ => pure _

theorem setAttribute (v : Value) (name : String) (value : Value) :
    Plain code (Exec.setAttribute v name value) :=
  modifyHeap fun h => h.grows_setAttribute v name value

theorem setAttributes (v : Value) (entries : List (String × Value)) :
    Plain code (Exec.setAttributes v entries) :=
  modifyHeap fun h => h.grows_setAttributes v entries

theorem assign (scope : Scope) (name : String) (value : Value) :
    Plain code (Exec.assign scope name value) :=
  modifyHeap fun h => h.grows_assign scope name value

theorem bindGlobal (name : String) (value : Value) : Plain code (Exec.bindGlobal name value) :=
  modifyHeap fun h => h.grows_bind rootScope (Script.dotParts name) value

theorem placeholder (name : String) : Plain code (Exec.placeholder name) := by
  refine bind (modify (fun _ _ => rfl) (fun m => .refl m.heap) (fun _ => rfl) fun _ => rfl) fun _ => ?_
  exact record (splitQualified name).1 (splitQualified name).2 none

theorem unsupported (part : Unsupported) : Plain code (Exec.unsupported part : Exec α) := throw _

theorem typeFault (fault : TypeFault) : Plain code (Exec.typeFault fault : Exec α) := throw _

end Plain

end ModelGraph
