import ModelGraph.Proofs.Pickle.Agreement
import ModelGraph.Proofs.Pickle.Passing

/-!
# Bytes that yield values

Bytes of a pickle that push values and may change the workspace on the way: its heap through new
objects and calls, its table through references to the outside. Values are put together as in the
pickle: one after another, to tuples, to calls.
-/

namespace ModelGraph.Pickle

open Reading

variable {τ : Type} {persistent : Value → Restore τ Value} {w w₁ w₂ : Workspace τ}

section Moves

variable (persistent)

/-- Bytes that lead from a state of a load and of its workspace to another, whatever follows them. -/
def Moves (bytes : Bytes) (work : Work) (w : Workspace τ) (work' : Work) (w' : Workspace τ) : Prop :=
  ∀ start rest, proceed persistent work ⟨start, bytes ++ rest⟩ w =
    proceed persistent work' ⟨start + bytes.length, rest⟩ w'

variable {persistent}

theorem Moves.append {xs ys : Bytes} {work work₁ work₂ : Work}
    (hxs : Moves persistent xs work w work₁ w₁) (hys : Moves persistent ys work₁ w₁ work₂ w₂) :
    Moves persistent (xs ++ ys) work w work₂ w₂ := by
  intro start rest
  rw [List.append_assoc, hxs, hys, List.length_append, Nat.add_assoc]

/-- An instruction without operand. -/
theorem Moves.instruction {b : UInt8} (op : Opcode) {work work' : Work}
    (hop : Opcode.ofByte? b = some op) (hstop : op ≠ .stop)
    (hstep : ∀ start c, (step persistent start op work).outcome c w = ((.ok work', c), w₁)) :
    Moves persistent [b] work w work' w₁ := fun start _ =>
  proceed_step persistent hop hstop (hstep start _)

variable (persistent) (stack : List Value) (marks : List Nat) (memo : OrderedMap Nat Value)

/-- What the top of the stack refers to takes its place. -/
theorem moves_persistent {id v : Value} (hresolve : (persistent id).outcome w = (.ok v, w₁)) :
    Moves persistent [0x51] ⟨id :: stack, marks, memo⟩ w ⟨v :: stack, marks, memo⟩ w₁ := by
  refine Moves.instruction .persistent rfl (by decide) fun start c => ?_
  exact outcome_bind_ok (outcome_act_of hresolve c) _

/-- The value of a call takes the place of what is called and of its arguments. -/
theorem moves_reduce {callee v : Value} {tuple : Nat} {arguments : List Value}
    (htuple : w.machine.heap.get? tuple = some (.list arguments))
    (hcall : (callValue callee arguments : Restore τ Value).outcome w = (.ok v, w₁)) :
    Moves persistent [0x52] ⟨.ref tuple :: callee :: stack, marks, memo⟩ w
      ⟨v :: stack, marks, memo⟩ w₁ := by
  refine Moves.instruction .reduce rfl (by decide) fun start c => ?_
  have hitems : (argumentItems start (.ref tuple) : Reading τ (List Value)).outcome c w =
      ((.ok arguments, c), w) := by
    have hfound : w.machine.heap.items? (.ref tuple) = some arguments := by
      simp [Heap.items?, Heap.object?, Value.ref?, htuple]
    unfold argumentItems
    rw [outcome_bind_ok (outcome_act_of (Restore.outcome_heap w) c)]
    simp only [hfound]
    rfl
  change (argumentItems start (.ref tuple) >>= fun arguments =>
    act (callValue callee arguments) >>= fun made =>
      pure ((⟨stack, marks, memo⟩ : Work).push made)).outcome c w = _
  rw [outcome_bind_ok hitems, outcome_bind_ok (outcome_act_of hcall c)]
  rfl

end Moves

/-- Bytes that push values. -/
def Yields (persistent : Value → Restore τ Value) (body : Bytes) (w : Workspace τ)
    (values : List Value) (w' : Workspace τ) : Prop :=
  ∀ stack marks memo, Moves persistent body ⟨stack, marks, memo⟩ w
    ⟨values.reverse ++ stack, marks, memo⟩ w'

/-- Values that leave the workspace as it is. -/
theorem Pushes.yields {body : Bytes} {values : List Value}
    (h : Pushes persistent w w.machine.heap body values) : Yields persistent body w values w := h

namespace Yields

variable {body body' : Bytes} {values values' : List Value}

theorem nil (w : Workspace τ) : Yields persistent [] w [] w := fun _ _ _ _ _ => rfl

theorem append (first : Yields persistent body w values w₁)
    (second : Yields persistent body' w₁ values' w₂) :
    Yields persistent (body ++ body') w (values ++ values') w₂ := by
  intro stack marks memo
  rw [List.reverse_append, List.append_assoc]
  exact (first stack marks memo).append (second _ marks memo)

/-- Values between a mark and the instruction for tuples are read as a new list. -/
theorem tuple (hbody : Yields persistent body w values w₁) :
    Yields persistent ([0x28] ++ body ++ [0x74]) w [.ref w₁.machine.heap.size]
      (withHeap w₁ (w₁.machine.heap.push (.list values))) := fun stack marks memo =>
  (Moves.append (passes_mark persistent w stack marks memo w.machine.heap) (hbody _ _ _)).append
    (passes_tuple persistent w₁ stack marks memo w₁.machine.heap values)

theorem reference {id v : Value} (hbody : Yields persistent body w [id] w₁)
    (hresolve : (persistent id).outcome w₁ = (.ok v, w₂)) :
    Yields persistent (body ++ [0x51]) w [v] w₂ := fun stack marks memo =>
  (hbody stack marks memo).append (moves_persistent persistent stack marks memo hresolve)

theorem reduce {callee v : Value} {tuple : Nat} {arguments : List Value}
    (hbody : Yields persistent body w [callee, .ref tuple] w₁)
    (htuple : w₁.machine.heap.get? tuple = some (.list arguments))
    (hcall : (callValue callee arguments : Restore τ Value).outcome w₁ = (.ok v, w₂)) :
    Yields persistent (body ++ [0x52]) w [v] w₂ := fun stack marks memo =>
  (hbody stack marks memo).append (moves_reduce persistent stack marks memo htuple hcall)

end Yields

theorem outcome_loadFrom_of_moves {body : Bytes} {work : Work} {v : Value} {stack : List Value}
    (hbody : Moves persistent body {} w work w₁) (hwork : work.stack = v :: stack)
    (version : Option UInt8) :
    (loadFrom persistent (pickled version body)).outcome w = (.ok v, w₁) := by
  have hheader : Moves persistent (version.elim [] fun version => [0x80, version]) {} w {} w :=
    passes_header persistent w version {} w.machine.heap
  have hload : (loadWith persistent).outcome (.start (pickled version body)) w =
      ((.ok v, ⟨0 + (pickled version body).length, []⟩), w₁) := by
    rw [outcome_loadWith persistent _ (Nat.lt_succ_self _), pickled]
    refine ((hheader.append hbody) 0 [0x2e]).trans ?_
    rw [proceed_stop persistent hwork]
    simp [Nat.add_assoc]
  exact congrArg (fun r => (r.1.1, r.2)) hload

/-- A dictionary is read as a new one, which gets its entries at the end. -/
theorem outcome_loadFrom_dict {body : Bytes} {entries : List (String × Value)}
    (hbody : Yields persistent body (withHeap w (w.machine.heap.push (.dict {})))
      (entries.flatMap fun e => [.str e.1, e.2]) w₁)
    (hdict : w₁.machine.heap.get? w.machine.heap.size = some (.dict {})) (version : Option UInt8) :
    (loadFrom persistent (pickled version ([0x7d] ++ [0x28] ++ body ++ [0x75]))).outcome w =
      (.ok (.ref w.machine.heap.size),
        withHeap w₁ (setTexts w.machine.heap.size entries w₁.machine.heap)) := by
  have hopen := (passes_emptyDict persistent w {} w.machine.heap).append
    (passes_mark persistent w [.ref w.machine.heap.size] [] {} (w.machine.heap.push (.dict {})))
  have hitems := Moves.append hopen (hbody [.ref w.machine.heap.size] [1] {})
  have hset := passes_setItems persistent w₁ [] [] {} w₁.machine.heap hdict entries
  exact outcome_loadFrom_of_moves (hitems.append hset) rfl version

end ModelGraph.Pickle
