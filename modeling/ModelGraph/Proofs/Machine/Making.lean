import ModelGraph.Proofs.Machine.Outcome
import ModelGraph.Proofs.Machine.Standard

/-!
# Instances of known classes

Calling the name of a storage or tensor class makes one new object, and a tensor takes its layout from
its state. Classes keep their names while the heap is extended.
-/

namespace ModelGraph

namespace Heap

variable {h h' : Heap} {module name : String} {kind : ClassKind}

theorem Extends.edge? (hext : h.Extends h') {a : Nat} {x : String} {v : Value}
    (hx : h.edge? a x = some v) : h'.edge? a x = some v := by
  obtain ⟨o, ho, hv⟩ := Option.bind_eq_some_iff.mp hx
  exact Option.bind_eq_some_iff.mpr ⟨o, hext ho, hv⟩

/-- Named attributes are set in an instance one after another. -/
theorem updates_setAttributes {id : Nat} (entries : List (String × Value)) {h : Heap} {i : Instance}
    (hid : h.get? id = some (.instance i)) :
    h.Updates id (.instance { i with fields := entries.foldl (fun f e => f.insert e.1 e.2) i.fields })
      (h.setAttributes (.ref id) entries) := by
  induction entries generalizing h i with
  | nil => exact ⟨rfl, hid, fun _ _ => rfl⟩
  | cons entry entries ih =>
      have hset : h.Updates id (.instance { i with fields := i.fields.insert entry.1 entry.2 })
          (h.setAttribute (.ref id) entry.1 entry.2) := updates_modify hid rfl
      exact hset.trans (ih hset.get?_self)

theorem setAttributes_append (h : Heap) (v : Value) (entries further : List (String × Value)) :
    h.setAttributes v (entries ++ further) = (h.setAttributes v entries).setAttributes v further :=
  List.foldl_append

theorem NamesFunction.extends {qualified : String} {p : Primitive}
    (hfunction : h.NamesFunction qualified p) (hext : h.Extends h') : h'.NamesFunction qualified p := by
  obtain ⟨⟨n, hroot⟩, id, f, hwalk, hid, hf⟩ := hfunction
  exact ⟨⟨n, hext hroot⟩, id, f, walk?_of_edges hext.edge? hwalk, hext hid, hf⟩

theorem NamesClass.extends (hclass : h.NamesClass module name kind) (hext : h.Extends h') :
    h'.NamesClass module name kind := by
  obtain ⟨⟨n, hroot⟩, id, c, hwalk, hid, hc⟩ := hclass
  exact ⟨⟨n, hext hroot⟩, id, c, walk?_of_edges hext.edge? hwalk, hext hid, hc⟩

end Heap

theorem Value.size?_ofSize {n : Nat} (hn : n < 0x8000000000000000) :
    (Value.ofSize n).size? = some n := by
  have hvalue : (Int64.ofNat n).toInt = n := Int64.toInt_ofNat_of_lt hn
  change sizeOfInt64? (Int64.ofNat n) = some n
  rw [sizeOfInt64?, hvalue, if_pos (Int.natCast_nonneg n), Int.toNat_natCast]

namespace Exec

variable {m : Machine} {module name : String} {kind : ClassKind}

/-- A call of a name is a call of the object that the name leads to. -/
theorem outcome_invoke {qualified : String} {id : Nat} (hroot : ∃ n, m.heap.get? 0 = some (.namespace n))
    (hwalk : m.heap.walk? 0 (Script.dotParts qualified) = some id) (arguments : List Value) :
    (invoke qualified arguments).outcome m =
      ((Host.ofDepth 999999999).dispatch (.ref id) none { positional := arguments }).outcome m := by
  obtain ⟨n, hroot⟩ := hroot
  have hresolved : m.heap.resolve? rootScope (Script.dotParts qualified) = some (.ref id) := by
    obtain ⟨x, path, hpath⟩ := List.exists_cons_of_ne_nil (dotParts_ne_nil qualified)
    rw [hpath] at hwalk ⊢
    exact Heap.resolve?_of_walk? hroot hwalk
  have hglobal : (global? qualified).outcome m = (.ok (some (.ref id)), m) := by
    rw [← hresolved]
    rfl
  have htype : (Host.standard.typeOf qualified).outcome m = (.ok (some (.ref id)), m) := by
    unfold Host.typeOf
    rw [outcome_bind_ok hglobal]
    rfl
  have hstandard : Host.standard = (Host.ofDepth 999999999).step := Host.ofDepth_succ 999999999
  unfold invoke Host.invoke
  rw [outcome_bind_ok htype, hstandard]
  rfl

/-- A call of the name of a class makes an instance of it. -/
theorem exists_outcome_invoke (hclass : m.heap.NamesClass module name kind) (arguments : List Value) :
    ∃ id c, m.heap.get? id = some (.class c) ∧ c.module = module ∧ c.name = name ∧ c.kind = kind ∧
      (invoke (module ++ "." ++ name) arguments).outcome m = (construct id arguments).outcome m := by
  obtain ⟨hroot, id, c, hwalk, hid, hmodule, hname, hkind⟩ := hclass
  refine ⟨id, c, hid, hmodule, hname, hkind, ?_⟩
  have hobject : m.heap.object? (.ref id) = some (.class c) := hid
  rw [outcome_invoke hroot hwalk]
  unfold Host.dispatch
  rw [outcome_bind_ok (outcome_heap m)]
  simp only [hobject]
  rw [Arguments.values, List.map_nil, List.append_nil]

/-- A call of the name of a built-in function runs it. -/
theorem outcome_invoke_function {qualified : String} {p : Primitive}
    (hfunction : m.heap.NamesFunction qualified p) (arguments : List Value) :
    (invoke qualified arguments).outcome m =
      ((Host.ofDepth 999999999).primitive p arguments).outcome m := by
  obtain ⟨hroot, id, f, hwalk, hid, hkind⟩ := hfunction
  have hobject : m.heap.object? (.ref id) = some (.function f) := hid
  rw [outcome_invoke hroot hwalk]
  unfold Host.dispatch
  rw [outcome_bind_ok (outcome_heap m)]
  simp only [hobject, hkind, withReceiver]
  rw [Arguments.values, List.map_nil, List.append_nil]

/-- A tensor over a storage is rebuilt with its layout and what else belongs to it. -/
theorem outcome_invoke_rebuildTensor (hfunction : m.heap.NamesFunction
      "torch._utils._rebuild_tensor_v2" .rebuildTensorV2) {storage : Value} {s : StorageObject}
    (hstorage : m.heap.storage? storage = some s) (offset size stride gradient hooks : Value) :
    (invoke "torch._utils._rebuild_tensor_v2" [storage, offset, size, stride, gradient, hooks]).outcome m =
      (.ok (.ref m.heap.size),
        m.withHeap ((m.heap.push (.instance { module := s.module, name := s.tensorName })).setAttributes
          (.ref m.heap.size) ([("storage", storage), ("storage_offset", offset), ("size", size),
            ("stride", stride)] ++ [("requires_grad", gradient), ("backward_hooks", hooks)]))) := by
  rw [outcome_invoke_function hfunction]
  unfold Host.primitive Builtin.rebuildTensor
  rw [outcome_bind_ok (outcome_heap m)]
  have hfound : m.heap.storage? (argument [storage, offset, size, stride, gradient, hooks] 0) = some s :=
    hstorage
  simp only [hfound]
  rw [Heap.setAttributes_append]
  rfl

/-- A storage is declared with the number of elements that it is called with. -/
theorem outcome_invoke_storage {type : ElementType}
    (hclass : m.heap.NamesClass module name (.native (.storage type))) {n : Nat}
    (hn : n < 0x8000000000000000) :
    (invoke (module ++ "." ++ name) [.ofSize n]).outcome m = (.ok (.ref m.heap.size),
      m.withHeap (m.heap.push (.storage ⟨module, name, .declare type n⟩))) := by
  obtain ⟨id, c, hid, rfl, rfl, hkind, hinvoke⟩ := exists_outcome_invoke hclass [.ofSize n]
  have hfound : m.heap.class? (.ref id) = some c := by
    simp [Heap.class?, Heap.object?, Value.ref?, hid]
  rw [hinvoke]
  unfold construct
  rw [outcome_bind_ok (outcome_heap m)]
  simp only [hfound, hkind]
  have hargument : argument [Value.ofSize n] 0 = .ofSize n := rfl
  rw [hargument, Value.size?_ofSize hn]
  rfl

/-- A tensor begins without attributes. -/
theorem exists_outcome_invoke_tensor (hclass : m.heap.NamesClass module name (.native .tensor)) :
    ∃ id c, m.heap.get? id = some (.class c) ∧ c.kind = .native .tensor ∧
      (invoke (module ++ "." ++ name) []).outcome m = (.ok (.ref m.heap.size),
        m.withHeap (m.heap.push (.instance { module, name, class? := some id }))) := by
  obtain ⟨id, c, hid, rfl, rfl, hkind, hinvoke⟩ := exists_outcome_invoke hclass []
  have hfound : m.heap.class? (.ref id) = some c := by
    simp [Heap.class?, Heap.object?, Value.ref?, hid]
  refine ⟨id, c, hid, hkind, ?_⟩
  rw [hinvoke]
  unfold construct
  rw [outcome_bind_ok (outcome_heap m)]
  simp only [hfound, hkind]
  rfl

/-- A tensor is laid out by its state. -/
theorem outcome_setState_tensor {id : Nat} {i : Instance} {c : Class} {state storage offset size stride : Value}
    (hid : m.heap.get? id = some (.instance i))
    (hclass : (i.class?.bind fun id => m.heap.class? (.ref id)) = some c)
    (hkind : c.kind = .native .tensor)
    (hstate : m.heap.items? state = some [storage, offset, size, stride]) :
    (setState (.ref id) state).outcome m = (.ok (), m.withHeap (m.heap.setAttributes (.ref id)
      [("storage", storage), ("storage_offset", offset), ("size", size), ("stride", stride)])) := by
  have hinstance : m.heap.instance? (.ref id) = some i := by
    simp [Heap.instance?, Heap.object?, Value.ref?, hid]
  have hconstructor : (constructor? (.ref id)).outcome m = (.ok (some .tensor), m) := by
    obtain ⟨_, _, kind, _⟩ := c
    obtain rfl : kind = .native .tensor := hkind
    unfold constructor?
    rw [outcome_bind_ok (outcome_heap m)]
    simp only [hinstance, Option.bind_some, hclass]
    rfl
  have hnone : (Value.ref id).ref?.isNone = false := rfl
  unfold setState Host.setState
  simp only [hnone]
  rw [if_neg (by simp), outcome_bind_ok hconstructor, outcome_bind_ok (outcome_heap m)]
  simp only [hstate]
  rfl

end Exec

end ModelGraph
