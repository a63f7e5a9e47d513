import ModelGraph.Proofs.Arena.Executing
import ModelGraph.Proofs.Pickle.Agreement

/-!
# Loading pickles is tame

A load works on a stack and a memo of values, makes calls, and asks a resolver about outside references.
It begins with an empty stack and an empty memo. If the resolver answers with values that are on the heap and
outside of an enclave, the load keeps to such values itself: whatever the bytes are, and wherever the load
fails. So a pickle cannot name an object that nothing outside refers to.
-/

namespace ModelGraph

open Enclave

variable {τ α β : Type}

namespace Pickle

/-- What a loader asks of its own table; objects that are added do not matter. -/
structure TableRule (τ : Type) where
  holds : Heap → τ → Prop
  mono : ∀ {h h' : Heap} {table : τ}, h.KeepsKinds h' → holds h table → holds h' table

namespace TableRule

/-- The machine is well formed, its heap is the given one, and the table is in order. -/
structure Admits (rule : TableRule τ) (h : Heap) (w : Workspace τ) : Prop where
  wellFormed : w.machine.WellFormed
  heap_eq : w.machine.heap = h
  table : rule.holds h w.table

/-- A workspace that an action may leave: well formed, with all objects kept and the table in order. -/
structure Leaves (rule : TableRule τ) (h : Heap) (w : Workspace τ) : Prop where
  wellFormed : w.machine.WellFormed
  keeps : h.KeepsKinds w.machine.heap
  table : rule.holds w.machine.heap w.table

end TableRule

/-- From a workspace with the heap `h` the action leaves a workspace in order, and what it gives stands to
its heap as `post` says. -/
def TableRule.Sound (rule : TableRule τ) (h : Heap) (post : Heap → α → Prop) (x : Restore τ α) : Prop :=
  ∀ ⦃w⦄, rule.Admits h w → rule.Leaves h (x.outcome w).2 ∧
    ∀ a, (x.outcome w).1 = .ok a → post (x.outcome w).2.machine.heap a

/-- A resolver answers for references that are on the heap, with values that are on the heap then. -/
def TableRule.Answers (rule : TableRule τ) (persistent : Value → Restore τ Value) : Prop :=
  ∀ ⦃h id⦄, h.Has id → rule.Sound h Heap.Has (persistent id)

end Pickle

/-! ## Around an enclave -/

namespace Enclave

open Pickle (TableRule)

/-- The machine is well formed around the enclave, its heap is the given one, and the table is in order. -/
structure Admits (c : Enclave) (rule : TableRule τ) (h : Heap) (w : Workspace τ) : Prop where
  wellFormed : c.WellFormed w.machine
  heap_eq : w.machine.heap = h
  table : rule.holds h w.table

/-- A workspace that an action may leave: well formed around the enclave, with all objects kept and the table
in order. -/
structure Leaves (c : Enclave) (rule : TableRule τ) (h : Heap) (w : Workspace τ) : Prop where
  wellFormed : c.WellFormed w.machine
  keeps : h.KeepsKinds w.machine.heap
  table : rule.holds w.machine.heap w.table

/-- From a workspace with the heap `h` the action leaves a workspace in order around the enclave, and what it
gives stands to its heap as `post` says. -/
def Sound (c : Enclave) (rule : TableRule τ) (h : Heap) (post : Heap → α → Prop) (x : Restore τ α) : Prop :=
  ∀ ⦃w⦄, c.Admits rule h w → c.Leaves rule h (x.outcome w).2 ∧
    ∀ a, (x.outcome w).1 = .ok a → post (x.outcome w).2.machine.heap a

/-- A resolver answers for references that are on the heap and outside, with values that are then. -/
def Answers (c : Enclave) (rule : TableRule τ) (persistent : Value → Restore τ Value) : Prop :=
  ∀ ⦃h id⦄, c.Has h id → c.Sound rule h c.Has (persistent id)

variable {rule : TableRule τ} {c : Enclave} {h : Heap} {w w' : Workspace τ}

theorem Admits.leaves (hw : c.Admits rule h w) : c.Leaves rule h w :=
  ⟨hw.wellFormed, hw.heap_eq ▸ .refl _, hw.heap_eq ▸ hw.table⟩

theorem Leaves.admits (hw : c.Leaves rule h w) : c.Admits rule w.machine.heap w :=
  ⟨hw.wellFormed, rfl, hw.table⟩

theorem Leaves.trans (first : c.Leaves rule h w) (second : c.Leaves rule w.machine.heap w') :
    c.Leaves rule h w' :=
  ⟨second.wellFormed, first.keeps.trans second.keeps, second.table⟩

theorem admits_empty : empty.Admits rule h w ↔ rule.Admits h w :=
  ⟨fun hw => ⟨wellFormed_empty.mp hw.wellFormed, hw.heap_eq, hw.table⟩,
    fun hw => ⟨wellFormed_empty.mpr hw.wellFormed, hw.heap_eq, hw.table⟩⟩

theorem leaves_empty : empty.Leaves rule h w ↔ rule.Leaves h w :=
  ⟨fun hw => ⟨wellFormed_empty.mp hw.wellFormed, hw.keeps, hw.table⟩,
    fun hw => ⟨wellFormed_empty.mpr hw.wellFormed, hw.keeps, hw.table⟩⟩

theorem sound_empty {post : Heap → α → Prop} {x : Restore τ α} :
    empty.Sound rule h post x ↔ rule.Sound h post x := by
  simp only [Sound, TableRule.Sound, admits_empty, leaves_empty]

theorem answers_empty {persistent : Value → Restore τ Value} :
    empty.Answers rule persistent ↔ rule.Answers persistent := by
  simp only [Answers, TableRule.Answers, sound_empty, has_empty]

end Enclave

namespace Pickle

open Reading

/-- On a workspace with the heap `h` both readings do the same: they leave a workspace in order, and what
they give stands to its heap as `post` says. -/
def Parallel (rule : TableRule τ) (c : Enclave) (h : Heap) (post : Heap → α → Prop) (r r' : Reading τ α) :
    Prop :=
  ∀ ⦃k w⦄, c.Admits rule h w → r'.outcome k w = r.outcome k w ∧
    c.Leaves rule h (r.outcome k w).2 ∧
    ∀ a, (r.outcome k w).1.1 = .ok a → post (r.outcome k w).2.machine.heap a

namespace Parallel

variable {rule : TableRule τ} {c : Enclave} {h : Heap} {post : Heap → α → Prop} {next : Heap → β → Prop}

/-! ## Rules -/

theorem pure {a : α} (ha : post h a) : Parallel rule c h post (Pure.pure a) (Pure.pure a) := by
  intro k w hw
  refine ⟨rfl, hw.leaves, fun b hb => ?_⟩
  cases hb
  exact hw.heap_eq ▸ ha

theorem bind {r r' : Reading τ α} {f f' : α → Reading τ β} (hr : Parallel rule c h post r r')
    (hf : ∀ h' a, h.KeepsKinds h' → post h' a → Parallel rule c h' next (f a) (f' a)) :
    Parallel rule c h next (r >>= f) (r' >>= f') := by
  intro k w hw
  obtain ⟨heq, hleaves, hresult⟩ := hr (k := k) hw
  rw [outcome_bind, outcome_bind, heq]
  rcases hrw : r.outcome k w with ⟨⟨e | a, k'⟩, w'⟩ <;> rw [hrw] at hleaves hresult
  · exact ⟨rfl, hleaves, fun _ ha => by cases ha⟩
  · obtain ⟨heq', hleaves', hresult'⟩ := hf _ a hleaves.keeps (hresult a rfl) (k := k') hleaves.admits
    exact ⟨heq', hleaves.trans hleaves', hresult'⟩

/-- A reading that leaves the workspace alone. -/
theorem stays {r : Reading τ α} (hr : ∀ k w, (r.outcome k w).2 = w)
    (hresult : ∀ k w a, (r.outcome k w).1.1 = .ok a → post h a) : Parallel rule c h post r r := by
  intro k w hw
  refine ⟨rfl, ?_, fun a ha => ?_⟩
  · rw [hr]
    exact hw.leaves
  · rw [hr, hw.heap_eq]
    exact hresult k w a ha

theorem failAt (offset : Nat) (fault : PickleFault) :
    Parallel rule c h post (Reading.failAt offset fault) (Reading.failAt offset fault) :=
  stays (fun _ _ => rfl) fun _ _ _ ha => by cases ha

theorem offset : Parallel rule c h Anything Reading.offset Reading.offset :=
  stays (fun _ _ => rfl) fun _ _ _ _ => trivial

theorem ofFault (offset : Nat) {result : Except PickleFault α} (hresult : ∀ a, result = .ok a → post h a) :
    Parallel rule c h post (Pickle.Reading.ofFault offset result) (Pickle.Reading.ofFault offset result) := by
  cases result with
  | ok a => exact pure (hresult a rfl)
  | error fault => exact failAt offset fault

theorem afterHeap {f f' : Heap → Reading τ β} (hf : c.Closed h → Parallel rule c h next (f h) (f' h)) :
    Parallel rule c h next (act Restore.heap >>= f) (act Restore.heap >>= f') := by
  intro k w hw
  have hheap : (act Restore.heap : Reading τ Heap).outcome k w = ((.ok h, k), w) := by
    rw [outcome_act]
    exact congrArg (fun h => ((Except.ok h, k), w)) hw.heap_eq
  rw [outcome_bind_ok hheap, outcome_bind_ok hheap]
  exact hf (hw.heap_eq ▸ hw.wellFormed.closed) hw

/-- What is done on the machine leaves the table as it is. -/
theorem exec {x y : Exec α} (hxy : Alike c h post x y) :
    Parallel rule c h post (act (.exec x)) (act (.exec y)) := by
  intro k w hw
  obtain ⟨heq, hwell, hkeeps, hresult⟩ := hxy hw.wellFormed hw.heap_eq
  have hact (z : Exec α) : (act (.exec z) : Reading τ α).outcome k w =
      (((z.outcome w.machine).1.mapError .run, k), { w with machine := (z.outcome w.machine).2 }) := by
    have hexec := Restore.outcome_exec z w
    rw [outcome_act]
    exact congrArg (fun o : Except LoadError α × Workspace τ => ((o.1, k), o.2)) hexec
  rw [hact, hact, heq]
  refine ⟨rfl, ⟨hwell, hkeeps, rule.mono hkeeps hw.table⟩, fun a ha => hresult a ?_⟩
  rcases hx : (x.outcome w.machine).1 with e | b <;> rw [hx] at ha <;> cases ha
  rfl

theorem answer {persistent : Value → Restore τ Value} (hanswers : c.Answers rule persistent) {id : Value}
    (hid : c.Has h id) : Parallel rule c h c.Has (act (persistent id)) (act (persistent id)) := by
  intro k w hw
  obtain ⟨hleaves, hresult⟩ := hanswers hid hw
  exact ⟨rfl, hleaves, hresult⟩

end Parallel

/-! ## Stacks and memos -/

/-- All that a load works on is on the heap and outside. -/
structure Work.Within (c : Enclave) (h : Heap) (w : Work) : Prop where
  stack : c.HasAll h w.stack
  memo : c.HasAll h w.memo.values

namespace Work.Within

variable {c : Enclave} {h h' : Heap} {w : Work} {v : Value}

theorem mono (hw : w.Within c h) (hkeeps : h.KeepsKinds h') : w.Within c h' :=
  ⟨hw.stack.mono hkeeps, hw.memo.mono hkeeps⟩

theorem empty : Work.Within c h {} := ⟨hasAll_nil, hasAll_nil⟩

theorem push (hw : w.Within c h) (hv : c.Has h v) : (w.push v).Within c h :=
  ⟨hasAll_cons hv hw.stack, hw.memo⟩

theorem ofStack (hw : w.Within c h) {stack : List Value} (hsub : ∀ v ∈ stack, v ∈ w.stack) (marks : List Nat) :
    Work.Within c h { w with stack, marks } :=
  ⟨fun v hv => hw.stack v (hsub v hv), hw.memo⟩

theorem pop? (hw : w.Within c h) {taken : Value × Work} (htaken : w.pop? = .ok taken) :
    c.Has h taken.1 ∧ taken.2.Within c h := by
  unfold Work.pop? at htaken
  split at htaken <;> cases htaken
  next v rest hstack =>
    have hmem {v' : Value} (hv' : v' ∈ v :: rest) : v' ∈ w.stack := hstack ▸ hv'
    exact ⟨hw.stack v (hmem List.mem_cons_self),
      hw.ofStack (fun v' hv' => hmem (List.mem_cons_of_mem _ hv')) w.marks⟩

theorem top? (hw : w.Within c h) (htop : w.top? = .ok v) : c.Has h v := by
  unfold Work.top? at htop
  split at htop <;> cases htop
  next rest hstack => exact hw.stack v (hstack ▸ List.mem_cons_self)

theorem take? (hw : w.Within c h) {count : Nat} {fault : PickleFault} {taken : List Value × Work}
    (htaken : w.take? count fault = .ok taken) : c.HasAll h taken.1 ∧ taken.2.Within c h := by
  unfold Work.take? at htaken
  split_ifs at htaken
  cases htaken
  refine ⟨fun v hv => ?_, hw.ofStack (fun v hv => List.mem_of_mem_drop hv) w.marks⟩
  exact hw.stack v (List.mem_of_mem_take (List.mem_reverse.mp hv))

theorem popMark? (hw : w.Within c h) {taken : Nat × Work} (htaken : w.popMark? = .ok taken) :
    taken.2.Within c h := by
  unfold Work.popMark? at htaken
  split at htaken <;> cases htaken
  exact ⟨hw.stack, hw.memo⟩

theorem popToMark? (hw : w.Within c h) {taken : List Value × Work} (htaken : w.popToMark? = .ok taken) :
    c.HasAll h taken.1 ∧ taken.2.Within c h := by
  unfold Work.popToMark? at htaken
  cases hmark : w.popMark? with
  | error fault =>
      rw [hmark] at htaken
      cases htaken
  | ok marked =>
      rw [hmark] at htaken
      dsimp only [Bind.bind, Except.bind] at htaken
      split at htaken
      · cases htaken
      · exact (hw.popMark? hmark).take? htaken

theorem remember (hw : w.Within c h) {index : Nat} {w' : Work} (hkept : w.remember index = .ok w') :
    w'.Within c h := by
  unfold Work.remember at hkept
  cases htop : w.top? with
  | error fault =>
      rw [htop] at hkept
      cases hkept
  | ok v =>
      rw [htop] at hkept
      cases hkept
      refine ⟨hw.stack, fun v' hv' => ?_⟩
      obtain ⟨e, he, rfl⟩ := List.mem_map.mp hv'
      rcases OrderedMap.mem_insertEntry he with rfl | he
      · exact hw.top? htop
      · exact hw.memo _ (List.mem_map_of_mem he)

theorem truncate (hw : w.Within c h) (height : Nat) : (w.truncate height).Within c h :=
  hw.ofStack (fun _ hv => List.mem_of_mem_drop hv) w.marks

theorem discard (hw : w.Within c h) : w.discard.Within c h := by
  unfold Work.discard
  split
  · next v rest hstack =>
      exact hw.ofStack (fun v' hv' => hstack ▸ List.mem_cons_of_mem _ hv') w.marks
  · exact ⟨hw.stack, hw.memo⟩

end Work.Within

/-! ## Instructions under a host -/

/-- Calls a value under a host. -/
def callValueWith (host : Host) (callee : Value) (arguments : List Value) : Restore τ Value :=
  match callee with
  | .str name => .exec (host.invoke name arguments)
  | _ => .exec (host.call callee none { positional := arguments })

/-- Runs an instruction; those that make calls make them under the host. -/
def stepWith (host : Host) (persistent : Value → Restore τ Value) (offset : Nat) (op : Opcode) (w : Work) :
    Reading τ Work := do
  let get {α : Type} (result : Except PickleFault α) : Reading τ α := ofFault offset result
  match op with
  | .reduce =>
    let (tuple, w) ← get w.pop?
    let (callee, w) ← get w.pop?
    let arguments ← argumentItems offset tuple
    return w.push (← act (callValueWith host callee arguments))
  | .newObjectWithKeywords =>
    let (_, w) ← get w.pop?
    let (tuple, w) ← get w.pop?
    let (callee, w) ← get w.pop?
    let arguments ← argumentItems offset tuple
    return w.push (← act (callValueWith host callee arguments))
  | .instantiate =>
    let name ← globalName
    let (arguments, w) ← get w.popToMark?
    return w.push (← act (.exec (host.invoke name arguments)))
  | .object =>
    let (items, w) ← get w.popToMark?
    match items with
    | [] => failAt offset .noClass
    | callee :: arguments => return w.push (← act (callValueWith host callee arguments))
  | .build =>
    let (state, w) ← get w.pop?
    let target ← get w.top?
    act (.exec (host.setState target state))
    return w
  | _ => step persistent offset op w

/-- Runs instructions under a host, until one stops. -/
def runWith (host : Host) (persistent : Value → Restore τ Value) : (count : Nat) → Work → Reading τ Value
  | 0, _ => do failAt (← offset) (.endOfData 1)
  | count + 1, w => do
    let start ← offset
    let byte := (← bytes 1).headD 0
    match Opcode.ofByte? byte with
    | none => failAt start (.opcode byte)
    | some .stop =>
      match w.stack with
      | v :: _ => return v
      | [] => failAt start .emptyStop
    | some op => runWith host persistent count (← stepWith host persistent start op w)

/-- Loads the pickle at the cursor under a host. -/
def loadUnder (host : Host) (persistent : Value → Restore τ Value) : Reading τ Value := do
  runWith host persistent ((← cursor).rest.length + 1) {}

theorem stepWith_standard (persistent : Value → Restore τ Value) (offset : Nat) (op : Opcode) (w : Work) :
    stepWith .standard persistent offset op w = step persistent offset op w := by
  cases op <;> rfl

theorem runWith_standard (persistent : Value → Restore τ Value) (count : Nat) (w : Work) :
    runWith .standard persistent count w = run persistent count w := by
  induction count generalizing w with
  | zero => rfl
  | succ count ih =>
      simp only [runWith, stepWith_standard, ih]
      rfl

theorem loadUnder_standard (persistent : Value → Restore τ Value) :
    loadUnder .standard persistent = loadWith persistent := by
  simp only [loadUnder, loadWith, runWith_standard]

namespace Parallel

variable {rule : TableRule τ} {c : Enclave} {h : Heap}

/-! ## Parts of instructions -/

theorem bytes (length : Nat) : Parallel rule c h Anything (Reading.bytes length) (Reading.bytes length) := by
  refine stays (fun k w => ?_) fun _ _ _ _ => trivial
  rw [outcome_bytes]
  split_ifs <;> rfl

theorem line : Parallel rule c h Anything Reading.line Reading.line := by
  refine stays (fun k w => ?_) fun _ _ _ _ => trivial
  rw [outcome_line]
  dsimp only
  split_ifs <;> rfl

theorem size (width : Nat) : Parallel rule c h Anything (Reading.size width) (Reading.size width) :=
  (bytes width).bind fun _ _ _ _ => pure trivial

theorem signed (width : Nat) : Parallel rule c h Anything (Reading.signed width) (Reading.signed width) :=
  (bytes width).bind fun _ _ _ _ => pure trivial

theorem counted (width : Nat) : Parallel rule c h Anything (Reading.counted width) (Reading.counted width) :=
  (size width).bind fun _ _ _ _ => bytes _

theorem globalName : Parallel rule c h Anything Pickle.globalName Pickle.globalName :=
  line.bind fun _ _ _ _ => line.bind fun _ _ _ _ => pure trivial

theorem indexLine (offset : Nat) :
    Parallel rule c h Anything (Pickle.indexLine offset) (Pickle.indexLine offset) := by
  refine line.bind fun _ text _ _ => ?_
  split
  · exact pure trivial
  · exact failAt _ _

theorem intOfText (offset : Nat) (text : String) :
    Parallel rule c h c.Has (Pickle.intOfText offset text) (Pickle.intOfText offset text) := by
  unfold Pickle.intOfText
  split
  · next v hv =>
      refine pure ?_
      rcases Option.or_eq_some_iff.mp hv with hv | ⟨-, hv⟩
      · obtain ⟨i, -, rfl⟩ := Option.map_eq_some_iff.mp hv
        trivial
      · obtain ⟨x, -, rfl⟩ := Option.map_eq_some_iff.mp hv
        trivial
  · exact failAt _ _

theorem floatOfText (offset : Nat) (text : String) :
    Parallel rule c h c.Has (Pickle.floatOfText offset text) (Pickle.floatOfText offset text) := by
  unfold Pickle.floatOfText
  split
  · exact pure trivial
  · exact failAt _ _

theorem pushMemo (offset : Nat) {w : Work} (hw : w.Within c h) (index : Nat) :
    Parallel rule c h (fun h w => w.Within c h) (Pickle.pushMemo offset w index)
      (Pickle.pushMemo offset w index) := by
  unfold Pickle.pushMemo
  split
  · next v hv => exact pure (hw.push (hw.memo v (OrderedMap.mem_values_of_get? hv)))
  · exact failAt _ _

theorem extendList (offset : Nat) {target : Value} (htarget : c.Outside target) {items : List Value}
    (hitems : c.HasAll h items) : Parallel rule c h Anything (Pickle.extendList offset target items)
      (Pickle.extendList offset target items) := by
  refine .afterHeap fun _ => ?_
  split
  · exact exec (Tame.modifyHeap fun hh => hh.append htarget hitems)
  · exact failAt _ _

theorem setItems {h : Heap} (offset : Nat) {target : Value} (htarget : c.Outside target) :
    (items : List Value) → c.HasAll h items → Parallel rule c h Anything
      (Pickle.setItems offset target items) (Pickle.setItems offset target items)
  | [], _ => pure trivial
  | [_], _ => pure trivial
  | key :: value :: rest, hitems => by
      obtain ⟨hkey, hitems⟩ := List.forall_mem_cons.mp hitems
      obtain ⟨hvalue, hrest⟩ := List.forall_mem_cons.mp hitems
      refine .afterHeap fun _ => ?_
      split
      · exact (exec (Tame.setItem htarget hkey hvalue)).bind fun _ _ hkeeps _ =>
          setItems offset htarget rest (HasAll.mono hrest hkeeps)
      · exact failAt _ _

theorem argumentItems (offset : Nat) {v : Value} (hv : c.Outside v) :
    Parallel rule c h c.HasAll (Pickle.argumentItems offset v) (Pickle.argumentItems offset v) := by
  refine .afterHeap fun hh => ?_
  split
  · exact pure (hh.items? hv ‹_›)
  · exact failAt _ _

theorem scalar (offset : Nat) {op : Opcode} {value : Reading τ Value}
    (hvalue : scalar? offset op = some value) : Parallel rule c h c.Has value value := by
  cases op <;> cases hvalue
  case none => exact pure trivial
  case bool => exact pure trivial
  case intLine =>
    refine line.bind fun _ text _ _ => ?_
    split
    · exact pure trivial
    · exact pure trivial
    · exact intOfText _ _
  case longLine => exact line.bind fun _ _ _ _ => intOfText _ _
  case floatLine => exact line.bind fun _ _ _ _ => floatOfText _ _
  case unsigned => exact (size _).bind fun _ _ _ _ => pure trivial
  case int32 => exact (signed 4).bind fun _ _ _ _ => pure trivial
  case long =>
    refine (counted _).bind fun h' data _ _ => pure ?_
    unfold Pickle.long
    split
    · trivial
    · dsimp only
      split <;> trivial
  case double => exact (bytes 8).bind fun _ _ _ _ => pure trivial
  case stringLine => exact line.bind fun _ _ _ _ => pure trivial
  case latin1 => exact (counted _).bind fun _ _ _ _ => pure trivial
  case unicodeLine => exact line.bind fun _ _ _ _ => pure trivial
  case utf8 => exact (counted _).bind fun _ _ _ _ => pure trivial
  case bytes => exact (counted _).bind fun _ data _ _ => exec (Tame.bytes data)
  case emptyList => exact exec (Tame.list hasAll_nil)
  case emptyDict => exact exec Tame.emptyDict
  case global => exact globalName.bind fun _ _ _ _ => pure trivial

/-! ## Instructions -/

theorem pop (offset : Nat) {w : Work} (hw : w.Within c h) :
    Parallel rule c h (fun h taken => c.Has h taken.1 ∧ taken.2.Within c h)
      (Reading.ofFault offset w.pop?) (Reading.ofFault offset w.pop?) :=
  ofFault offset fun _ htaken => hw.pop? htaken

theorem top (offset : Nat) {w : Work} (hw : w.Within c h) :
    Parallel rule c h c.Has (Reading.ofFault offset w.top?) (Reading.ofFault offset w.top?) :=
  ofFault offset fun _ htop => hw.top? htop

theorem popToMark (offset : Nat) {w : Work} (hw : w.Within c h) :
    Parallel rule c h (fun h taken => c.HasAll h taken.1 ∧ taken.2.Within c h)
      (Reading.ofFault offset w.popToMark?) (Reading.ofFault offset w.popToMark?) :=
  ofFault offset fun _ htaken => hw.popToMark? htaken

theorem popMark (offset : Nat) {w : Work} (hw : w.Within c h) :
    Parallel rule c h (fun h taken => taken.2.Within c h)
      (Reading.ofFault offset w.popMark?) (Reading.ofFault offset w.popMark?) :=
  ofFault offset fun _ htaken => hw.popMark? htaken

theorem take (offset : Nat) {w : Work} (hw : w.Within c h) (count : Nat) (fault : PickleFault) :
    Parallel rule c h (fun h taken => c.HasAll h taken.1 ∧ taken.2.Within c h)
      (Reading.ofFault offset (w.take? count fault)) (Reading.ofFault offset (w.take? count fault)) :=
  ofFault offset fun _ htaken => hw.take? htaken

theorem remember (offset : Nat) {w : Work} (hw : w.Within c h) (index : Nat) :
    Parallel rule c h (fun h w => w.Within c h) (Reading.ofFault offset (w.remember index))
      (Reading.ofFault offset (w.remember index)) :=
  ofFault offset fun _ hkept => hw.remember hkept

theorem push {w : Work} (hw : w.Within c h) {r r' : Reading τ Value} (hr : Parallel rule c h c.Has r r') :
    Parallel rule c h (fun h w => w.Within c h) (do return w.push (← r)) (do return w.push (← r')) :=
  hr.bind fun _ _ hkeeps hv => pure ((hw.mono hkeeps).push hv)

/-- An instruction that only pushes a value. -/
theorem pushScalar {host host' : Host} {persistent : Value → Restore τ Value} (offset : Nat) {op : Opcode}
    {w : Work} (hw : w.Within c h) {value : Reading τ Value} (hvalue : scalar? offset op = some value)
    (hstep : stepWith host persistent offset op w = do return w.push (← value))
    (hstep' : stepWith host' persistent offset op w = do return w.push (← value)) :
    Parallel rule c h (fun h w => w.Within c h) (stepWith host persistent offset op w)
      (stepWith host' persistent offset op w) := by
  rw [hstep, hstep']
  exact push hw (scalar offset hvalue)

/-- Instructions that change an object below the top. -/
theorem keeping {w : Work} (hw : w.Within c h) {r r' : Reading τ Unit} (hr : Parallel rule c h Anything r r') :
    Parallel rule c h (fun h w => w.Within c h) (do r; return w) (do r'; return w) :=
  hr.bind fun _ _ hkeeps _ => pure (hw.mono hkeeps)

section

variable {host host' : Host} (hosts : AlikeHosts c host host')
include hosts

theorem callValue {callee : Value} (hcallee : c.Outside callee) {arguments : List Value}
    (hall : c.HasAll h arguments) :
    Parallel rule c h c.Has (act (callValueWith host callee arguments))
      (act (callValueWith host' callee arguments)) := by
  unfold callValueWith
  split
  · exact exec (hosts.invoke _ hall)
  · exact exec (hosts.call hcallee c.outsideIf_none (hasAll_values hall))

/-- A call of what is on the stack below a tuple of arguments. -/
theorem reduce (offset : Nat) {w : Work} (hw : w.Within c h) {tuple : Value} (htuple : c.Outside tuple) :
    Parallel rule c h (fun h w => w.Within c h)
      (do
        let (callee, w) ← Reading.ofFault offset w.pop?
        let arguments ← Pickle.argumentItems offset tuple
        return w.push (← act (callValueWith host callee arguments)))
      (do
        let (callee, w) ← Reading.ofFault offset w.pop?
        let arguments ← Pickle.argumentItems offset tuple
        return w.push (← act (callValueWith host' callee arguments))) := by
  refine (pop offset hw).bind fun h₁ callee _ hcallee => ?_
  refine (argumentItems offset htuple).bind fun h₂ arguments hkeeps hall => ?_
  exact push (hcallee.2.mono hkeeps) (callValue hosts hcallee.1.outside hall)

variable {persistent : Value → Restore τ Value} (hanswers : c.Answers rule persistent)
include hanswers

theorem step (offset : Nat) (op : Opcode) {w : Work} (hw : w.Within c h) :
    Parallel rule c h (fun h w => w.Within c h) (stepWith host persistent offset op w)
      (stepWith host' persistent offset op w) := by
  cases op with
  | protocol => exact (bytes 1).bind fun _ _ hkeeps _ => pure (hw.mono hkeeps)
  | frame => exact (bytes 8).bind fun _ _ hkeeps _ => pure (hw.mono hkeeps)
  | readOnly => exact pure hw
  | stop => exact pure hw
  | mark => exact pure ⟨hw.stack, hw.memo⟩
  | pop => exact pure hw.discard
  | popMark =>
      exact (popMark offset hw).bind fun _ taken _ htaken => pure (htaken.truncate taken.1)
  | duplicate => exact push hw (top offset hw)
  | list =>
      exact (popToMark offset hw).bind fun _ _ _ htaken => push htaken.2 (exec (Tame.list htaken.1))
  | tuple count =>
      exact (take offset hw count _).bind fun _ _ _ htaken => push htaken.2 (exec (Tame.list htaken.1))
  | append =>
      refine (pop offset hw).bind fun h₁ taken _ htaken => ?_
      refine (top offset htaken.2).bind fun h₂ target hkeeps htarget => ?_
      exact keeping (htaken.2.mono hkeeps)
        (extendList offset htarget.outside (hasAll_cons (htaken.1.mono hkeeps) hasAll_nil))
  | appends =>
      refine (popToMark offset hw).bind fun h₁ taken _ htaken => ?_
      refine (top offset htaken.2).bind fun h₂ target hkeeps htarget => ?_
      exact keeping (htaken.2.mono hkeeps) (extendList offset htarget.outside (htaken.1.mono hkeeps))
  | dict =>
      refine (popToMark offset hw).bind fun h₁ taken _ htaken => ?_
      refine (exec Tame.emptyDict).bind fun h₂ made hkeeps hmade => ?_
      refine (setItems offset hmade.outside _ (htaken.1.mono hkeeps)).bind fun h₃ _ hkeeps' _ => ?_
      exact pure ((htaken.2.mono (hkeeps.trans hkeeps')).push (hmade.mono hkeeps'))
  | setItem =>
      refine (pop offset hw).bind fun h₁ taken _ htaken => ?_
      refine (pop offset htaken.2).bind fun h₂ key hkeeps hkey => ?_
      refine (top offset hkey.2).bind fun h₃ target hkeeps' htarget => ?_
      refine keeping (hkey.2.mono hkeeps') (setItems offset htarget.outside _ ?_)
      exact hasAll_cons (hkey.1.mono hkeeps') (hasAll_cons (htaken.1.mono (hkeeps.trans hkeeps')) hasAll_nil)
  | setItems =>
      refine (popToMark offset hw).bind fun h₁ taken _ htaken => ?_
      refine (top offset htaken.2).bind fun h₂ target hkeeps htarget => ?_
      exact keeping (htaken.2.mono hkeeps) (setItems offset htarget.outside _ (htaken.1.mono hkeeps))
  | putLine => exact (indexLine offset).bind fun _ index hkeeps _ => remember offset (hw.mono hkeeps) index
  | put width => exact (size width).bind fun _ index hkeeps _ => remember offset (hw.mono hkeeps) index
  | memoize => exact remember offset hw _
  | getLine => exact (indexLine offset).bind fun _ index hkeeps _ => pushMemo offset (hw.mono hkeeps) index
  | fetch width => exact (size width).bind fun _ index hkeeps _ => pushMemo offset (hw.mono hkeeps) index
  | stackGlobal =>
      refine (pop offset hw).bind fun h₁ name _ hname => ?_
      refine (pop offset hname.2).bind fun h₂ module _ hmodule => ?_
      dsimp only
      split
      · exact pure (hmodule.2.push trivial)
      · exact failAt _ _
  | reduce => exact (pop offset hw).bind fun _ tuple _ htuple => reduce hosts offset htuple.2 htuple.1.outside
  | newObjectWithKeywords =>
      refine (pop offset hw).bind fun h₁ keywords _ hkeywords => ?_
      exact (pop offset hkeywords.2).bind fun _ tuple _ htuple => reduce hosts offset htuple.2 htuple.1.outside
  | instantiate =>
      refine globalName.bind fun h₁ name hkeeps _ => ?_
      refine (popToMark offset (hw.mono hkeeps)).bind fun h₂ taken _ htaken => ?_
      exact push htaken.2 (exec (hosts.invoke name htaken.1))
  | object =>
      refine (popToMark offset hw).bind fun h₁ taken _ htaken => ?_
      obtain ⟨items, w⟩ := taken
      cases items with
      | nil => exact failAt _ _
      | cons callee arguments =>
          obtain ⟨hcallee, hall⟩ := List.forall_mem_cons.mp htaken.1
          exact push htaken.2 (callValue hosts hcallee.outside hall)
  | build =>
      refine (pop offset hw).bind fun h₁ state _ hstate => ?_
      refine (top offset hstate.2).bind fun h₂ target hkeeps htarget => ?_
      exact keeping (hstate.2.mono hkeeps) (exec (hosts.setState htarget.outside (hstate.1.mono hkeeps)))
  | persistentLine =>
      exact line.bind fun _ id hkeeps _ => push (hw.mono hkeeps) (answer hanswers (has_str id))
  | persistent => exact (pop offset hw).bind fun _ id _ hid => push hid.2 (answer hanswers hid.1)
  | _ => exact pushScalar offset hw rfl rfl rfl

theorem run (count : Nat) {w : Work} (hw : w.Within c h) :
    Parallel rule c h c.Has (runWith host persistent count w) (runWith host' persistent count w) := by
  induction count generalizing h w with
  | zero => exact offset.bind fun _ _ _ _ => failAt _ _
  | succ count ih =>
      refine offset.bind fun h₁ start hkeeps _ => (bytes 1).bind fun h₂ taken hkeeps' _ => ?_
      have hw₂ := hw.mono (hkeeps.trans hkeeps')
      dsimp only
      split
      · exact failAt _ _
      · split
        · next hstack => exact pure (hw₂.stack _ (hstack ▸ List.mem_cons_self))
        · exact failAt _ _
      · exact (step hosts hanswers start _ hw₂).bind fun _ _ _ hw => ih hw

theorem loadUnder :
    Parallel rule c h c.Has (Pickle.loadUnder host persistent) (Pickle.loadUnder host' persistent) := by
  have hcursor : Parallel rule c h Anything Reading.cursor Reading.cursor :=
    stays (fun _ _ => rfl) fun _ _ _ _ => trivial
  exact hcursor.bind fun _ _ _ _ => run hosts hanswers _ Work.Within.empty

end

end Parallel

end Pickle

end ModelGraph
