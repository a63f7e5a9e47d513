import ModelGraph.Archive.Storages
import ModelGraph.Proofs.Machine.Making
import ModelGraph.Proofs.Pickle.Agreement
import ModelGraph.Proofs.Pickle.Passing
import ModelGraph.Proofs.Tensor.Storage

/-!
# Restored storages

Making and filling a storage of a known class changes nothing else on the heap.
-/

namespace ModelGraph.Restore

open Pickle

variable {τ α : Type}

/-- The object with another storage in it, if it is a storage object. -/
def onStorage (change : Storage → Storage) : Object → Object
  | .storage s => .storage { s with storage := change s.storage }
  | o => o

theorem setStorage_ref (id : Nat) (change : Storage → Storage) :
    (setStorage (.ref id) change : Restore τ Unit) =
      Restore.modifyHeap (·.modify id (onStorage change)) := rfl

theorem outcome_exec_ok {x : Exec α} {w : Workspace τ} {a : α} {h : Heap}
    (hx : x.outcome w.machine = (.ok a, w.machine.withHeap h)) :
    (exec x : Restore τ α).outcome w = (.ok a, withHeap w h) := by
  rw [outcome_exec, hx]
  rfl

theorem outcome_ofExcept_ok (a : α) (w : Workspace τ) :
    (ofExcept (.ok a : Except LoadError α) : Restore τ α).outcome w = (.ok a, w) := rfl

theorem outcome_items {w : Workspace τ} {v : Value} {values : List Value}
    (hv : w.machine.heap.items? v = some values) : (items v : Restore τ _).outcome w = (.ok values, w) := by
  unfold items
  rw [outcome_bind_ok (outcome_heap w), hv]
  rfl

theorem outcome_list (values : List Value) (w : Workspace τ) (h : Heap) :
    (exec (Exec.list values) : Restore τ Value).outcome (withHeap w h) =
      (.ok (.ref h.size), withHeap w (h.push (.list values))) := rfl

variable {w : Workspace τ} {module name : String} {type : ElementType}

theorem outcome_newStorage (hclass : w.machine.heap.NamesClass module name (.native (.storage type)))
    {n : Nat} (hn : n < 0x8000000000000000) :
    (newStorage (.str (module ++ "." ++ name)) n : Restore τ Value).outcome w =
      (.ok (.ref w.machine.heap.size),
        withHeap w (w.machine.heap.push (.storage ⟨module, name, .declare type n⟩))) := by
  have hmade := outcome_exec_ok (w := w) (Exec.outcome_invoke_storage hclass hn)
  have hfound : (w.machine.heap.push (.storage ⟨module, name, .declare type n⟩)).storage?
      (.ref w.machine.heap.size) = some ⟨module, name, .declare type n⟩ :=
    Heap.storage?_eq_some_iff.mpr ⟨_, rfl, Heap.get?_push_size _ _⟩
  unfold newStorage
  simp only [callValue]
  rw [outcome_bind_ok hmade, outcome_bind_ok (outcome_heap _)]
  simp only [withHeap, hfound]
  rfl

theorem outcome_storageLength {id : Nat} {s : StorageObject} {n : Nat}
    (hid : w.machine.heap.get? id = some (.storage s)) (hn : s.storage.byteLength? = some n) :
    (storageLength (.ref id) : Restore τ Nat).outcome w = (.ok n, w) := by
  have hfound : w.machine.heap.storage? (.ref id) = some s :=
    Heap.storage?_eq_some_iff.mpr ⟨id, rfl, hid⟩
  unfold storageLength
  rw [outcome_bind_ok (outcome_heap w), hfound]
  simp only [hn]
  rfl

theorem outcome_fillStorage (id : Nat) (data : Bytes) (w : Workspace τ) :
    (fillStorage (.ref id) data : Restore τ Unit).outcome w =
      (.ok (), withHeap w (w.machine.heap.modify id (onStorage (·.fill data)))) := rfl

end ModelGraph.Restore
