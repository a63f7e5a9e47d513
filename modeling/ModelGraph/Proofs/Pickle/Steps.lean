import ModelGraph.Proofs.Machine.Codeless
import ModelGraph.Proofs.Pickle.Reading

/-!
# Relations that loading keeps

A load is put together from a few readings of bytes, from actions that only add to a machine without
code, and from the answers to outside references. A relation between readings that sequencing keeps,
and that holds of these parts, therefore holds of whole loads, under one resolver and another.
-/

namespace ModelGraph.Pickle

open Reading

variable {τ σ : Type}

/-- A relation between readings that sequencing keeps and that holds of the parts of loads. -/
structure ReadingCongruence (R : ∀ ⦃α : Type⦄, Reading τ α → Reading σ α → Prop) : Prop where
  pure : ∀ {α : Type} (a : α), R (pure a) (pure a)
  bind : ∀ {α β : Type} {r : Reading τ α} {r' : Reading σ α} {f : α → Reading τ β}
    {f' : α → Reading σ β}, R r r' → (∀ a, R (f a) (f' a)) → R (r >>= f) (r' >>= f')
  offset : R offset offset
  failAt : ∀ {α : Type} place fault, R (failAt place fault : Reading τ α) (failAt place fault)
  bytes : ∀ length, R (bytes length) (bytes length)
  line : R line line
  heap : R (act Restore.heap) (act Restore.heap)
  exec : ∀ {α : Type} {x : Exec α}, Adds x → R (act (.exec x)) (act (.exec x))

namespace ReadingCongruence

variable {R : ∀ ⦃α : Type⦄, Reading τ α → Reading σ α → Prop} (c : ReadingCongruence R)
include c

/-! ## Parts of instructions -/

theorem size (width : Nat) : R (size width) (size width) :=
  c.bind (c.bytes width) fun _ => c.pure _

theorem signed (width : Nat) : R (signed width) (signed width) :=
  c.bind (c.bytes width) fun _ => c.pure _

theorem counted (width : Nat) : R (counted width) (counted width) :=
  c.bind (c.size width) fun _ => c.bytes _

theorem globalName : R (globalName) (globalName) :=
  c.bind c.line fun _ => c.bind c.line fun _ => c.pure _

theorem indexLine (offset : Nat) : R (indexLine offset) (indexLine offset) := by
  refine c.bind c.line fun text => ?_
  split
  · exact c.pure _
  · exact c.failAt _ _

theorem intOfText (offset : Nat) (text : String) :
    R (intOfText offset text) (intOfText offset text) := by
  unfold Pickle.intOfText
  split
  · exact c.pure _
  · exact c.failAt _ _

theorem floatOfText (offset : Nat) (text : String) :
    R (floatOfText offset text) (floatOfText offset text) := by
  unfold Pickle.floatOfText
  split
  · exact c.pure _
  · exact c.failAt _ _

theorem pushMemo (offset : Nat) (w : Work) (index : Nat) :
    R (pushMemo offset w index) (pushMemo offset w index) := by
  unfold Pickle.pushMemo
  split
  · exact c.pure _
  · exact c.failAt _ _

theorem ofFault {α : Type} (place : Nat) (result : Except PickleFault α) :
    R (ofFault place result) (ofFault place result) := by
  cases result with
  | ok a => exact c.pure a
  | error fault => exact c.failAt place fault

theorem extendList (offset : Nat) (target : Value) (items : List Value) :
    R (extendList offset target items) (extendList offset target items) := by
  refine c.bind c.heap fun heap => ?_
  split
  · refine c.exec (Plain.modifyHeap fun h => h.grows_modify _ fun o => ?_).adds
    cases o <;> rfl
  · exact c.failAt _ _

theorem setItems (offset : Nat) (target : Value) :
    (items : List Value) → R (setItems offset target items) (setItems offset target items)
  | [] => c.pure _
  | [_] => c.pure _
  | key :: value :: rest => by
      refine c.bind c.heap fun heap => ?_
      split
      · exact c.bind (c.exec (Plain.modifyHeap fun h => h.grows_setItem _ _ _).adds) fun _ =>
          setItems offset target rest
      · exact c.failAt _ _

theorem argumentItems (offset : Nat) (v : Value) :
    R (argumentItems offset v) (argumentItems offset v) := by
  refine c.bind c.heap fun heap => ?_
  split
  · exact c.pure _
  · exact c.failAt _ _

theorem callValue (callee : Value) (arguments : List Value) :
    R (act (callValue callee arguments)) (act (callValue callee arguments)) := by
  unfold Pickle.callValue
  split
  · exact c.exec (Adds.invoke .standard _ _)
  · exact c.exec (Adds.Host.standard.call _ _ _)

/-! ## Instructions -/

theorem scalar (offset : Nat) (op : Opcode) :
    Option.Rel (fun value value' => R value value') (scalar? offset op) (scalar? offset op) := by
  cases op with
  | none => exact .some (c.pure _)
  | bool b => exact .some (c.pure _)
  | intLine =>
      refine .some (c.bind c.line fun text => ?_)
      split
      · exact c.pure _
      · exact c.pure _
      · exact c.intOfText _ _
  | longLine => exact .some (c.bind c.line fun _ => c.intOfText _ _)
  | floatLine => exact .some (c.bind c.line fun _ => c.floatOfText _ _)
  | unsigned width => exact .some (c.bind (c.size _) fun _ => c.pure _)
  | int32 => exact .some (c.bind (c.signed _) fun _ => c.pure _)
  | long width => exact .some (c.bind (c.counted _) fun _ => c.pure _)
  | double => exact .some (c.bind (c.bytes _) fun _ => c.pure _)
  | stringLine => exact .some (c.bind c.line fun _ => c.pure _)
  | latin1 width => exact .some (c.bind (c.counted _) fun _ => c.pure _)
  | unicodeLine => exact .some (c.bind c.line fun _ => c.pure _)
  | utf8 width => exact .some (c.bind (c.counted _) fun _ => c.pure _)
  | bytes width => exact .some (c.bind (c.counted _) fun _ => c.exec (Plain.bytes _).adds)
  | emptyList => exact .some (c.exec (Plain.list []).adds)
  | emptyDict => exact .some (c.exec (Plain.dict _).adds)
  | global => exact .some (c.bind c.globalName fun _ => c.pure _)
  | _ => exact .none

section

variable (persistent : Value → Restore τ Value) (persistent' : Value → Restore σ Value)
  (hpersistent : ∀ id, R (act (persistent id)) (act (persistent' id)))

/-- An instruction that only pushes a value. -/
theorem pushScalar (offset : Nat) {op : Opcode} (w : Work) {value : Reading τ Value} {value' : Reading σ Value}
    (h : scalar? offset op = some value) (h' : scalar? offset op = some value')
    (hstep : Pickle.step persistent offset op w = do return w.push (← value))
    (hstep' : Pickle.step persistent' offset op w = do return w.push (← value')) :
    R (Pickle.step persistent offset op w) (Pickle.step persistent' offset op w) := by
  have hscalar := c.scalar offset op
  rw [h, h'] at hscalar
  cases hscalar with
  | some hvalue =>
      rw [hstep, hstep']
      exact c.bind hvalue fun _ => c.pure _

include hpersistent

theorem step (offset : Nat) (op : Opcode) (w : Work) :
    R (step persistent offset op w) (step persistent' offset op w) := by
  cases op with
  | protocol => exact c.bind (c.bytes 1) fun _ => c.pure _
  | frame => exact c.bind (c.bytes 8) fun _ => c.pure _
  | readOnly => exact c.pure _
  | stop => exact c.pure _
  | mark => exact c.pure _
  | pop => exact c.pure _
  | popMark => exact c.bind (c.ofFault _ _) fun _ => c.pure _
  | duplicate => exact c.bind (c.ofFault _ _) fun _ => c.pure _
  | list =>
      exact c.bind (c.ofFault _ _) fun _ => c.bind (c.exec (Plain.list _).adds) fun _ => c.pure _
  | tuple count =>
      exact c.bind (c.ofFault _ _) fun _ => c.bind (c.exec (Plain.list _).adds) fun _ => c.pure _
  | append =>
      exact c.bind (c.ofFault _ _) fun _ => c.bind (c.ofFault _ _) fun _ =>
        c.bind (c.extendList _ _ _) fun _ => c.pure _
  | appends =>
      exact c.bind (c.ofFault _ _) fun _ => c.bind (c.ofFault _ _) fun _ =>
        c.bind (c.extendList _ _ _) fun _ => c.pure _
  | dict =>
      exact c.bind (c.ofFault _ _) fun _ => c.bind (c.exec (Plain.dict _).adds) fun _ =>
        c.bind (c.setItems _ _ _) fun _ => c.pure _
  | setItem =>
      exact c.bind (c.ofFault _ _) fun _ => c.bind (c.ofFault _ _) fun _ =>
        c.bind (c.ofFault _ _) fun _ => c.bind (c.setItems _ _ _) fun _ =>
          c.pure _
  | setItems =>
      exact c.bind (c.ofFault _ _) fun _ => c.bind (c.ofFault _ _) fun _ =>
        c.bind (c.setItems _ _ _) fun _ => c.pure _
  | putLine => exact c.bind (c.indexLine _) fun _ => c.ofFault _ _
  | put width => exact c.bind (c.size _) fun _ => c.ofFault _ _
  | memoize => exact c.ofFault _ _
  | getLine => exact c.bind (c.indexLine _) fun _ => c.pushMemo _ _ _
  | fetch width => exact c.bind (c.size _) fun _ => c.pushMemo _ _ _
  | stackGlobal =>
      refine c.bind (c.ofFault _ _) fun name => c.bind (c.ofFault _ _) fun module => ?_
      dsimp only
      split
      · exact c.pure _
      · exact c.failAt _ _
  | reduce =>
      exact c.bind (c.ofFault _ _) fun _ => c.bind (c.ofFault _ _) fun _ =>
        c.bind (c.argumentItems _ _) fun _ => c.bind (c.callValue _ _) fun _ =>
          c.pure _
  | newObjectWithKeywords =>
      exact c.bind (c.ofFault _ _) fun _ => c.bind (c.ofFault _ _) fun _ =>
        c.bind (c.ofFault _ _) fun _ => c.bind (c.argumentItems _ _) fun _ =>
          c.bind (c.callValue _ _) fun _ => c.pure _
  | instantiate =>
      exact c.bind c.globalName fun _ => c.bind (c.ofFault _ _) fun _ =>
        c.bind (c.exec (Adds.invoke .standard _ _)) fun _ => c.pure _
  | object =>
      refine c.bind (c.ofFault _ _) fun taken => ?_
      obtain ⟨items, w⟩ := taken
      cases items with
      | nil => exact c.failAt _ _
      | cons callee arguments => exact c.bind (c.callValue _ _) fun _ => c.pure _
  | build =>
      exact c.bind (c.ofFault _ _) fun _ => c.bind (c.ofFault _ _) fun _ =>
        c.bind (c.exec (Adds.setState .standard _ _)) fun _ => c.pure _
  | persistentLine =>
      exact c.bind c.line fun _ => c.bind (hpersistent _) fun _ => c.pure _
  | persistent =>
      exact c.bind (c.ofFault _ _) fun _ => c.bind (hpersistent _) fun _ => c.pure _
  | _ => exact c.pushScalar _ _ offset w rfl rfl rfl rfl

theorem run (count : Nat) (w : Work) :
    R (run persistent count w) (run persistent' count w) := by
  induction count generalizing w with
  | zero => exact c.bind c.offset fun _ => c.failAt _ _
  | succ count ih =>
      refine c.bind c.offset fun start => c.bind (c.bytes 1) fun taken => ?_
      dsimp only
      split
      · exact c.failAt _ _
      · split
        · exact c.pure _
        · exact c.failAt _ _
      · exact c.bind (c.step _ _ hpersistent _ _ _) fun _ => ih _

end

end ReadingCongruence

end ModelGraph.Pickle
