import ModelGraph.Proofs.Machine.Builtin

/-!
# Machines without code

A machine without code has no code files, and all its functions are built in. What is called on it
comes down to built-in operations: they add to the heap, and the machine stays without code.
-/

namespace ModelGraph

open Exec

variable {α β : Type}

namespace Machine

structure Codeless (m : Machine) : Prop where
  sources_eq : m.sources = {}
  tracer?_eq : m.tracer? = none
  native : ∀ {id f}, m.heap.get? id = some (.function f) → ∃ p, f.kind = .native p

/-- The second machine is the first with its heap grown, and no functions added. -/
structure Grows (m m' : Machine) : Prop where
  heap : m.heap.Grows False m'.heap
  sources_eq : m'.sources = m.sources
  tracer?_eq : m'.tracer? = m.tracer?

variable {m m' m'' : Machine}

theorem Grows.refl (m : Machine) : m.Grows m := ⟨.refl m.heap, rfl, rfl⟩

theorem Grows.trans (h : m.Grows m') (h' : m'.Grows m'') : m.Grows m'' where
  heap := h.heap.trans h'.heap
  sources_eq := h'.sources_eq.trans h.sources_eq
  tracer?_eq := h'.tracer?_eq.trans h.tracer?_eq

theorem Codeless.grows (hm : m.Codeless) (h : m.Grows m') : m'.Codeless where
  sources_eq := h.sources_eq.trans hm.sources_eq
  tracer?_eq := h.tracer?_eq.trans hm.tracer?_eq
  native hid := hm.native (h.heap.get?_function hid)

end Machine

/-! ## Actions that only add -/

/-- On a machine without code the action only adds to it. -/
def Adds (x : Exec α) : Prop := ∀ ⦃m : Machine⦄, m.Codeless → m.Grows (x.outcome m).2

theorem Plain.adds {x : Exec α} (hx : Plain False x) : Adds x := fun m _ =>
  ⟨hx.grows m, hx.sources_eq m, hx.tracer?_eq m⟩

namespace Adds

theorem bind {x : Exec α} {f : α → Exec β} (hx : Adds x) (hf : ∀ a, Adds (f a)) :
    Adds (x >>= f) := by
  intro m hm
  have hfirst := hx hm
  rw [outcome_bind]
  rcases hxm : x.outcome m with ⟨e | a, m'⟩ <;> rw [hxm] at hfirst
  · exact hfirst
  · exact hfirst.trans (hf a (hm.grows hfirst))

/-- The actions that one host starts. -/
structure Host (host : ModelGraph.Host) : Prop where
  package : ∀ name, Adds (host.package name)
  call : ∀ callee receiver arguments, Adds (host.call callee receiver arguments)

/-- Without a trace under way the run of a compiled model does nothing. -/
theorem outcome_run {m : Machine} (hm : m.Codeless) (compilation inputs outputs : Value) :
    (Compilation.run compilation inputs outputs).outcome m = (.ok .none, m) := by
  unfold Compilation.run
  rw [outcome_bind_ok (outcome_get m), hm.tracer?_eq]
  rfl

theorem loadPackage (host : ModelGraph.Host) (name : String) : Adds (host.loadPackage name) := by
  intro m hm
  unfold Host.loadPackage
  rw [outcome_bind_ok (outcome_get m)]
  split
  · exact .refl m
  · rw [hm.sources_eq]
    exact .refl m

section

variable {host : ModelGraph.Host} (hosts : Host host)
include hosts

theorem typeOf (name : String) : Adds (host.typeOf name) := by
  refine (Plain.global? name).adds.bind fun found => ?_
  dsimp only
  split
  · exact (Plain.pure _).adds
  · split
    · exact (Plain.pure _).adds
    · refine (hosts.package _).bind fun globals => ?_
      cases globals with
      | some globals => exact (Plain.attribute? globals _).adds
      | none => exact (Plain.pure _).adds

theorem invoke (name : String) (arguments : List Value) : Adds (host.invoke name arguments) := by
  refine (typeOf hosts name).bind fun callee => ?_
  cases callee with
  | some callee => exact hosts.call callee none _
  | none => exact (Plain.placeholder name).adds

theorem reconstruct (value : Value) : Adds (Builtin.reconstruct host value) := by
  refine Plain.heap.adds.bind fun h => ?_
  split
  · exact (Plain.construct _ _).adds
  · exact invoke hosts _ _
  · exact ((Plain.describe _).bind fun _ => .typeFault _).adds

theorem primitive (p : Primitive) (arguments : List Value) : Adds (host.primitive p arguments) := by
  cases hstarts : p.startsCalls with
  | false => exact (Plain.primitive host hstarts arguments).adds
  | true =>
      cases p with
      | reconstruct => exact reconstruct hosts _
      | rebuildParameter =>
          exact (invoke hosts _ _).bind fun made =>
            ((Plain.setAttribute made _ _).bind fun _ => .pure _).adds
      | rebuildFromType => exact (Plain.items _).adds.bind fun items => hosts.call _ none _
      | compilationRun =>
          intro m hm
          rw [show host.primitive .compilationRun arguments = Compilation.run _ _ _ from rfl,
            outcome_run hm]
          exact .refl m
      | _ => contradiction

theorem dispatch (callee : Value) (receiver : Option Value) (arguments : Arguments) :
    Adds (host.dispatch callee receiver arguments) := by
  intro m hm
  unfold Host.dispatch
  rw [outcome_bind_ok (outcome_heap m)]
  split
  · exact (Plain.construct _ _).adds hm
  · next f hf =>
      obtain ⟨id, rfl, -⟩ := Heap.exists_ref_of_object hf
      obtain ⟨p, hp⟩ := hm.native hf
      dsimp only
      rw [hp]
      exact primitive hosts p _ hm
  · exact (Plain.typeFault _).adds hm

theorem setState (target state : Value) : Adds (host.setState target state) := by
  have hmerge : Adds (Exec.mergeState target state) := (Plain.mergeState target state).adds
  unfold Host.setState
  split
  · exact (Plain.pure _).adds
  · refine (Plain.constructor? target).adds.bind fun constructor => Plain.heap.adds.bind fun h => ?_
    extract_lets merge method
    have hmethod (r : Unit) : Adds (method r) := by
      dsimp only [method, merge]
      split
      · refine (Plain.attribute? target _).adds.bind fun found => ?_
        split
        · refine Plain.heap.adds.bind fun h => ?_
          split
          · exact (hosts.call _ _ _).bind fun _ => (Plain.pure _).adds
          · exact hmerge
        · exact hmerge
      · exact hmerge
    split
    · refine (Plain.restoreLayout _ _ _).adds.bind fun restored => ?_
      split
      · exact (Plain.pure _).adds
      · exact hmethod ()
    · exact hmethod ()

end

theorem Host.ofDepth (depth : Nat) : Host (ModelGraph.Host.ofDepth depth) := by
  induction depth with
  | zero => exact ⟨fun _ m _ => .refl m, fun _ _ _ m _ => .refl m⟩
  | succ depth ih => exact ⟨loadPackage _, dispatch ih⟩

theorem Host.standard : Host ModelGraph.Host.standard := .ofDepth ModelGraph.Host.maxDepth

end Adds

end ModelGraph
