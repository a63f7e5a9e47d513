import Mathlib.Logic.Relation
import ModelGraph.Proofs.Pickle.Passing

/-!
# Instructions over any stack

What instructions do to the stack, its marks and the memo is a record of operations, and what they ask
of classes is a resolver; the instructions themselves stay the same. With the heights of marks kept
beside the values, and the machine as resolver, this is the loading of pickles.

If the operations on one kind of stack are seen as those on another, a run on the first that succeeds
is seen as a run on the second.
-/

namespace ModelGraph.Pickle

open Reading Relation

variable {τ σ ρ : Type}

/-- What instructions do to a stack with marks and to the memo. -/
structure Operations (σ : Type) where
  start : σ
  memo : σ → OrderedMap Nat Value
  setMemo : σ → OrderedMap Nat Value → σ
  push : σ → Value → σ
  pop? : σ → Except PickleFault (Value × σ)
  top? : σ → Except PickleFault Value
  take? : σ → Nat → PickleFault → Except PickleFault (List Value × σ)
  mark : σ → σ
  discard : σ → σ
  dropToMark? : σ → Except PickleFault σ
  popToMark? : σ → Except PickleFault (List Value × σ)

/-- Keeps the top of the stack in the memo. -/
def Operations.remember (ops : Operations σ) (s : σ) (index : Nat) : Except PickleFault σ := do
  let v ← ops.top? s
  return ops.setMemo s ((ops.memo s).insert index v)

/-- What calls by name, calls values, and sets the states of objects. -/
structure Resolver (τ : Type) where
  invoke : String → List Value → Restore τ Value
  call : Value → List Value → Restore τ Value
  setState : Value → Value → Restore τ Unit

namespace Resolver

/-- The machine itself. -/
def standard : Resolver τ where
  invoke name arguments := .exec (Exec.invoke name arguments)
  call callee arguments := .exec (Exec.call callee arguments)
  setState target state := .exec (Exec.setState target state)

/-- Calls a value: a text is the name of what is called. -/
def callValue (resolver : Resolver τ) (callee : Value) (arguments : List Value) : Restore τ Value :=
  match callee with
  | .str name => resolver.invoke name arguments
  | _ => resolver.call callee arguments

end Resolver

section

variable (ops : Operations σ) (resolver : Resolver τ) (persistent : Value → Restore τ Value)

def pushMemoOver (offset : Nat) (s : σ) (index : Nat) : Reading τ σ :=
  match (ops.memo s).get? index with
  | some v => return ops.push s v
  | none => failAt offset (.unknownMemo index)

/-- Runs an instruction other than the one that stops. -/
def stepOver (offset : Nat) (op : Opcode) (s : σ) : Reading τ σ := do
  let get {α : Type} (result : Except PickleFault α) : Reading τ α := ofFault offset result
  match op with
  | .protocol => let _ ← bytes 1; return s
  | .frame => let _ ← bytes 8; return s
  | .readOnly | .stop => return s
  | .mark => return ops.mark s
  | .pop => return ops.discard s
  | .popMark => get (ops.dropToMark? s)
  | .duplicate => return ops.push s (← get (ops.top? s))
  | .list =>
    let (items, s) ← get (ops.popToMark? s)
    return ops.push s (← act (.exec (Exec.list items)))
  | .tuple count =>
    let (items, s) ← get (ops.take? s count .tupleUnderflow)
    return ops.push s (← act (.exec (Exec.list items)))
  | .append =>
    let (v, s) ← get (ops.pop? s)
    extendList offset (← get (ops.top? s)) [v]
    return s
  | .appends =>
    let (items, s) ← get (ops.popToMark? s)
    extendList offset (← get (ops.top? s)) items
    return s
  | .dict =>
    let (items, s) ← get (ops.popToMark? s)
    let made ← act (.exec Exec.dict)
    setItems offset made items
    return ops.push s made
  | .setItem =>
    let (v, s) ← get (ops.pop? s)
    let (key, s) ← get (ops.pop? s)
    setItems offset (← get (ops.top? s)) [key, v]
    return s
  | .setItems =>
    let (items, s) ← get (ops.popToMark? s)
    setItems offset (← get (ops.top? s)) items
    return s
  | .putLine =>
    let index ← indexLine offset
    get (ops.remember s index)
  | .put width =>
    let index ← size width
    get (ops.remember s index)
  | .memoize => get (ops.remember s (ops.memo s).size)
  | .getLine => pushMemoOver ops offset s (← indexLine offset)
  | .fetch width => pushMemoOver ops offset s (← size width)
  | .stackGlobal =>
    let (name, s) ← get (ops.pop? s)
    let (module, s) ← get (ops.pop? s)
    match module, name with
    | .str module, .str name => return ops.push s (.str (module ++ "." ++ name))
    | _, _ => failAt offset .globalNames
  | .reduce =>
    let (tuple, s) ← get (ops.pop? s)
    let (callee, s) ← get (ops.pop? s)
    let arguments ← argumentItems offset tuple
    return ops.push s (← act (resolver.callValue callee arguments))
  | .newObjectWithKeywords =>
    let (_, s) ← get (ops.pop? s)
    let (tuple, s) ← get (ops.pop? s)
    let (callee, s) ← get (ops.pop? s)
    let arguments ← argumentItems offset tuple
    return ops.push s (← act (resolver.callValue callee arguments))
  | .instantiate =>
    let name ← globalName
    let (arguments, s) ← get (ops.popToMark? s)
    return ops.push s (← act (resolver.invoke name arguments))
  | .object =>
    let (items, s) ← get (ops.popToMark? s)
    match items with
    | [] => failAt offset .noClass
    | callee :: arguments => return ops.push s (← act (resolver.callValue callee arguments))
  | .build =>
    let (state, s) ← get (ops.pop? s)
    let target ← get (ops.top? s)
    act (resolver.setState target state)
    return s
  | .persistentLine =>
    let id ← line
    return ops.push s (← act (persistent (.str id)))
  | .persistent =>
    let (id, s) ← get (ops.pop? s)
    return ops.push s (← act (persistent id))
  | _ =>
    match scalar? offset op with
    | some value => return ops.push s (← value)
    | none => return s

/-- Runs instructions until one stops; at most as many as given. -/
def runOver : (count : Nat) → σ → Reading τ Value
  | 0, _ => do failAt (← offset) (.endOfData 1)
  | count + 1, s => do
    let start ← offset
    let byte := (← bytes 1).headD 0
    match Opcode.ofByte? byte with
    | none => failAt start (.opcode byte)
    | some .stop =>
      match ops.top? s with
      | .ok v => return v
      | .error _ => failAt start .emptyStop
    | some op => runOver count (← stepOver ops resolver persistent start op s)

/-- Loads the pickle at the cursor. -/
def loadOver : Reading τ Value := do
  runOver ops resolver persistent ((← cursor).rest.length + 1) ops.start

end

/-! ## Heights beside the values -/

/-- The operations on values with the heights of the marks beside them. -/
def heights : Operations Work where
  start := {}
  memo w := w.memo
  setMemo w memo := { w with memo }
  push := Work.push
  pop? := Work.pop?
  top? := Work.top?
  take? := Work.take?
  mark w := { w with marks := w.stack.length :: w.marks }
  discard := Work.discard
  dropToMark? w := do
    let (height, w) ← w.popMark?
    return w.truncate height
  popToMark? := Work.popToMark?

section

variable (persistent : Value → Restore τ Value)

theorem stepOver_heights (offset : Nat) (op : Opcode) (w : Work) :
    stepOver heights .standard persistent offset op w = step persistent offset op w := by
  cases op with
  | popMark =>
      obtain ⟨stack, marks, memo⟩ := w
      cases marks <;> rfl
  | _ => rfl

theorem runOver_heights (count : Nat) (w : Work) :
    runOver heights .standard persistent count w = run persistent count w := by
  induction count generalizing w with
  | zero => rfl
  | succ count ih =>
      obtain ⟨stack, marks, memo⟩ := w
      simp only [runOver, run, stepOver_heights, ih]
      cases stack <;> rfl

theorem loadOver_heights : loadOver heights .standard persistent = loadWith persistent := by
  simp only [loadOver, loadWith, runOver_heights]
  rfl

end

/-! ## Readings seen as others -/

section Follows

variable {α β γ δ : Type}

/-- Where the first reading succeeds, so does the second, with what the first gives as seen through a
view, and neither goes back. -/
def Follows (view : α → β) (r : Reading τ α) (r' : Reading τ β) : Prop :=
  ∀ ⦃c w a c' w'⦄, r.outcome c w = ((.ok a, c'), w') →
    r'.outcome c w = ((.ok (view a), c'), w') ∧ c'.rest.length ≤ c.rest.length

namespace Follows

variable {view : α → β}

theorem pure {a : α} {b : β} (h : view a = b) :
    Follows view (Pure.pure a : Reading τ α) (Pure.pure b) := by
  intro c w a' c' w' hrun
  cases hrun
  exact ⟨by rw [h]; rfl, le_rfl⟩

theorem failAt (offset : Nat) (fault : PickleFault) (r' : Reading τ β) :
    Follows view (Reading.failAt offset fault) r' := by
  intro c w a c' w' hrun
  cases hrun

/-- A reading of bytes, or an action, is seen as itself. -/
theorem same {r : Reading τ α} (hr : Local r) : Follows id r r := by
  intro c w a c' w' hrun
  obtain ⟨taken, hrest, -⟩ := hr hrun
  refine ⟨hrun, ?_⟩
  rw [hrest, List.length_append]
  exact Nat.le_add_left _ _

theorem ofFault (offset : Nat) {x : Except PickleFault α} {y : Except PickleFault β}
    (h : ∀ a, x = .ok a → y = .ok (view a)) :
    Follows view (Reading.ofFault offset x : Reading τ α) (Reading.ofFault offset y) := by
  cases x with
  | error fault => exact failAt offset fault _
  | ok a =>
      rw [h a rfl]
      exact pure rfl

theorem bind {next : γ → δ} {r : Reading τ α} {r' : Reading τ β} {f : α → Reading τ γ}
    {f' : β → Reading τ δ} (hr : Follows view r r')
    (hf : ∀ a, Follows next (f a) (f' (view a))) : Follows next (r >>= f) (r' >>= f') := by
  intro c w b c' w' hrun
  obtain ⟨a, c₁, w₁, hfirst, hsecond⟩ := exists_of_outcome_bind hrun
  obtain ⟨hfirst', hle⟩ := hr hfirst
  obtain ⟨hsecond', hle'⟩ := hf a hsecond
  rw [outcome_bind_ok hfirst']
  exact ⟨hsecond', hle'.trans hle⟩

end Follows

end Follows

theorem local_scalar (offset : Nat) {op : Opcode} {value : Reading τ Value}
    (h : scalar? offset op = some value) : Local value := by
  have hrel := (local_congruence (τ := τ)).scalar offset op
  rw [h] at hrel
  cases hrel with
  | some hvalue => exact hvalue

/-! ## Stacks seen as others -/

/-- Operations on one kind of stack that succeed are seen as operations on another. Nothing is said of
dropping an item. -/
structure Operations.Views (ops : Operations σ) (ops' : Operations ρ) (view : σ → ρ) : Prop where
  start : view ops.start = ops'.start
  memo : ∀ s, ops'.memo (view s) = ops.memo s
  setMemo : ∀ s memo, view (ops.setMemo s memo) = ops'.setMemo (view s) memo
  push : ∀ s v, view (ops.push s v) = ops'.push (view s) v
  pop? : ∀ s taken, ops.pop? s = .ok taken → ops'.pop? (view s) = .ok (taken.map id view)
  top? : ∀ s v, ops.top? s = .ok v → ops'.top? (view s) = .ok v
  take? : ∀ s count fault taken, ops.take? s count fault = .ok taken →
    ops'.take? (view s) count fault = .ok (taken.map id view)
  mark : ∀ s, view (ops.mark s) = ops'.mark (view s)
  dropToMark? : ∀ s s', ops.dropToMark? s = .ok s' → ops'.dropToMark? (view s) = .ok (view s')
  popToMark? : ∀ s taken, ops.popToMark? s = .ok taken →
    ops'.popToMark? (view s) = .ok (taken.map id view)

namespace Operations.Views

variable {ops : Operations σ} {ops' : Operations ρ} {view : σ → ρ} (hv : ops.Views ops' view)
include hv

theorem remember (s : σ) (index : Nat) (s' : σ) (h : ops.remember s index = .ok s') :
    ops'.remember (view s) index = .ok (view s') := by
  unfold Operations.remember at h ⊢
  cases htop : ops.top? s with
  | error fault =>
      rw [htop] at h
      cases h
  | ok v =>
      rw [htop] at h
      cases h
      rw [hv.top? s v htop, hv.memo, hv.setMemo]
      rfl

theorem pushMemo (offset : Nat) (s : σ) (index : Nat) :
    Follows view (pushMemoOver ops offset s index : Reading τ σ)
      (pushMemoOver ops' offset (view s) index) := by
  unfold pushMemoOver
  rw [hv.memo]
  split
  · exact .pure (hv.push s _)
  · exact .failAt _ _ _

theorem pushed (s : σ) {r : Reading τ Value} (hr : Local r) :
    Follows view (do return ops.push s (← r)) (do return ops'.push (view s) (← r)) :=
  (Follows.same hr).bind fun v => .pure (hv.push s v)

theorem popped (offset : Nat) (s : σ) :
    Follows (Prod.map id view) (ofFault offset (ops.pop? s) : Reading τ _)
      (ofFault offset (ops'.pop? (view s))) :=
  .ofFault offset (hv.pop? s)

theorem topped (offset : Nat) (s : σ) :
    Follows id (ofFault offset (ops.top? s) : Reading τ _) (ofFault offset (ops'.top? (view s))) :=
  .ofFault offset (hv.top? s)

theorem poppedToMark (offset : Nat) (s : σ) :
    Follows (Prod.map id view) (ofFault offset (ops.popToMark? s) : Reading τ _)
      (ofFault offset (ops'.popToMark? (view s))) :=
  .ofFault offset (hv.popToMark? s)

variable (resolver : Resolver τ) (persistent : Value → Restore τ Value)

/-- An instruction that only pushes a value. -/
theorem scalar (offset : Nat) {op : Opcode} (s : σ) {value : Reading τ Value}
    (h : scalar? offset op = some value)
    (hstep : stepOver ops resolver persistent offset op s = do return ops.push s (← value))
    (hstep' : stepOver ops' resolver persistent offset op (view s) =
      do return ops'.push (view s) (← value)) :
    Follows view (stepOver ops resolver persistent offset op s)
      (stepOver ops' resolver persistent offset op (view s)) := by
  rw [hstep, hstep']
  exact hv.pushed s (local_scalar offset h)

/-- Every instruction is seen as itself, if dropping an item is. -/
theorem step (offset : Nat) (op : Opcode) (s : σ)
    (hpop : op = .pop → view (ops.discard s) = ops'.discard (view s)) :
    Follows view (stepOver ops resolver persistent offset op s)
      (stepOver ops' resolver persistent offset op (view s)) := by
  have c := local_congruence (τ := τ)
  cases op with
  | protocol => exact (Follows.same (c.bytes 1)).bind fun _ => .pure rfl
  | frame => exact (Follows.same (c.bytes 8)).bind fun _ => .pure rfl
  | readOnly => exact .pure rfl
  | stop => exact .pure rfl
  | mark => exact .pure (hv.mark s)
  | pop => exact .pure (hpop rfl)
  | popMark => exact .ofFault offset (hv.dropToMark? s)
  | duplicate => exact (hv.topped offset s).bind fun v => .pure (hv.push s v)
  | list => exact (hv.poppedToMark offset s).bind fun taken => hv.pushed taken.2 (local_act _)
  | tuple count =>
      have htake := Follows.ofFault (τ := τ) offset (hv.take? s count .tupleUnderflow)
      exact htake.bind fun taken => hv.pushed taken.2 (local_act _)
  | append =>
      exact (hv.popped offset s).bind fun taken => (hv.topped offset taken.2).bind fun target =>
        (Follows.same (c.extendList offset target [taken.1])).bind fun _ => .pure rfl
  | appends =>
      exact (hv.poppedToMark offset s).bind fun taken => (hv.topped offset taken.2).bind fun target =>
        (Follows.same (c.extendList offset target taken.1)).bind fun _ => .pure rfl
  | dict =>
      exact (hv.poppedToMark offset s).bind fun taken => (Follows.same (local_act _)).bind fun made =>
        (Follows.same (c.setItems offset made taken.1)).bind fun _ => .pure (hv.push taken.2 made)
  | setItem =>
      exact (hv.popped offset s).bind fun v => (hv.popped offset v.2).bind fun key =>
        (hv.topped offset key.2).bind fun target =>
          (Follows.same (c.setItems offset target [key.1, v.1])).bind fun _ => .pure rfl
  | setItems =>
      exact (hv.poppedToMark offset s).bind fun taken => (hv.topped offset taken.2).bind fun target =>
        (Follows.same (c.setItems offset target taken.1)).bind fun _ => .pure rfl
  | putLine =>
      exact (Follows.same (c.indexLine offset)).bind fun index => .ofFault offset (hv.remember s index)
  | put width =>
      exact (Follows.same (c.size width)).bind fun index => .ofFault offset (hv.remember s index)
  | memoize =>
      have hsize : (ops'.memo (view s)).size = (ops.memo s).size := by rw [hv.memo]
      change Follows view _ (ofFault offset (ops'.remember (view s) (ops'.memo (view s)).size))
      rw [hsize]
      exact .ofFault offset (hv.remember s _)
  | getLine =>
      exact (Follows.same (c.indexLine offset)).bind fun index => hv.pushMemo offset s index
  | fetch width => exact (Follows.same (c.size width)).bind fun index => hv.pushMemo offset s index
  | stackGlobal =>
      refine (hv.popped offset s).bind fun name => (hv.popped offset name.2).bind fun module => ?_
      dsimp only [Prod.map, id]
      split
      · exact .pure (hv.push module.2 _)
      · exact .failAt _ _ _
  | reduce =>
      exact (hv.popped offset s).bind fun tuple => (hv.popped offset tuple.2).bind fun callee =>
        (Follows.same (c.argumentItems offset tuple.1)).bind fun _ => hv.pushed callee.2 (local_act _)
  | newObjectWithKeywords =>
      exact (hv.popped offset s).bind fun keywords => (hv.popped offset keywords.2).bind fun tuple =>
        (hv.popped offset tuple.2).bind fun callee =>
          (Follows.same (c.argumentItems offset tuple.1)).bind fun _ =>
            hv.pushed callee.2 (local_act _)
  | instantiate =>
      exact (Follows.same c.globalName).bind fun _ => (hv.poppedToMark offset s).bind fun taken =>
        hv.pushed taken.2 (local_act _)
  | object =>
      refine (hv.poppedToMark offset s).bind fun taken => ?_
      obtain ⟨items, s'⟩ := taken
      cases items with
      | nil => exact .failAt _ _ _
      | cons callee arguments => exact hv.pushed s' (local_act _)
  | build =>
      exact (hv.popped offset s).bind fun state => (hv.topped offset state.2).bind fun _ =>
        (Follows.same (local_act _)).bind fun _ => .pure rfl
  | persistentLine => exact (Follows.same c.line).bind fun _ => hv.pushed s (local_act _)
  | persistent => exact (hv.popped offset s).bind fun id => hv.pushed id.2 (local_act _)
  | _ => exact hv.scalar resolver persistent offset s rfl rfl rfl

end Operations.Views

/-! ## Runs -/

/-- Where a run stands: at a stack, a place in the bytes and a workspace. -/
structure Standing (σ τ : Type) where
  stack : σ
  cursor : Cursor
  workspace : Workspace τ

/-- The instruction at the place. -/
def Standing.next? (s : Standing σ τ) : Option Opcode := s.cursor.rest.head?.bind Opcode.ofByte?

section Runs

variable (ops : Operations σ) (resolver : Resolver τ) (persistent : Value → Restore τ Value)

/-- An instruction leads from one place of a run to the next. -/
def Steps (s t : Standing σ τ) : Prop :=
  ∃ op, s.next? = some op ∧ op ≠ .stop ∧
    (stepOver ops resolver persistent s.cursor.offset op s.stack).outcome
      ⟨s.cursor.offset + 1, s.cursor.rest.tail⟩ s.workspace = ((.ok t.stack, t.cursor), t.workspace)

variable {ops resolver persistent}

/-- An instruction leads to one place only. -/
theorem Steps.unique {s t t' : Standing σ τ} (h : Steps ops resolver persistent s t)
    (h' : Steps ops resolver persistent s t') : t = t' := by
  obtain ⟨op, hop, -, hstep⟩ := h
  obtain ⟨op', hop', -, hstep'⟩ := h'
  obtain rfl : op = op' := Option.some.inj (hop.symm.trans hop')
  obtain ⟨stack, cursor, workspace⟩ := t
  cases hstep.symm.trans hstep'
  rfl

/-- What a run reaches is where it stands, or is reached after the next instruction. -/
theorem Steps.eq_or_reaches {s t u : Standing σ τ} (h : Steps ops resolver persistent s t)
    (hu : ReflTransGen (Steps ops resolver persistent) s u) :
    u = s ∨ ReflTransGen (Steps ops resolver persistent) t u := by
  rcases hu.cases_head with rfl | ⟨t', ht', hu⟩
  · exact .inl rfl
  · rw [h.unique ht']
    exact .inr hu

/-- A run reaches nothing after the instruction that stops. -/
theorem eq_of_reaches_of_stop {s u : Standing σ τ} (h : s.next? = some .stop)
    (hu : ReflTransGen (Steps ops resolver persistent) s u) : u = s := by
  rcases hu.cases_head with rfl | ⟨t, ⟨op, hop, hstop, -⟩, -⟩
  · rfl
  · exact absurd (Option.some.inj (hop.symm.trans h)) hstop

variable {b : UInt8} {count start : Nat} {rest : Bytes} {w w' : Workspace τ}
  {s : σ} {v : Value} {c c' : Cursor}

/-- A run at a byte does what the byte says, behind it. -/
theorem outcome_runOver_cons :
    (runOver ops resolver persistent (count + 1) s).outcome ⟨start, b :: rest⟩ w =
      (match Opcode.ofByte? b with
        | none => failAt start (.opcode b)
        | some .stop =>
          match ops.top? s with
          | .ok v => return v
          | .error _ => failAt start .emptyStop
        | some op => stepOver ops resolver persistent start op s >>=
            runOver ops resolver persistent count).outcome ⟨start + 1, rest⟩ w := by
  rw [runOver, outcome_bind_ok (outcome_offset _ _), outcome_bind_ok (outcome_byte _ _ _ _)]
  rfl

/-- A run that succeeds stops at once, with the top of the stack, or goes on after an instruction. -/
theorem runOver_cases (h : (runOver ops resolver persistent count s).outcome c w = ((.ok v, c'), w')) :
    ∃ n start b rest, count = n + 1 ∧ c = ⟨start, b :: rest⟩ ∧
      ((Opcode.ofByte? b = some .stop ∧ ops.top? s = .ok v ∧ c' = ⟨start + 1, rest⟩ ∧ w' = w) ∨
        ∃ op, Opcode.ofByte? b = some op ∧ op ≠ .stop ∧
          (stepOver ops resolver persistent start op s >>=
            runOver ops resolver persistent n).outcome ⟨start + 1, rest⟩ w = ((.ok v, c'), w')) := by
  cases count with
  | zero => cases h
  | succ n =>
      obtain ⟨start, bytes⟩ := c
      cases bytes with
      | nil =>
          rw [runOver, outcome_bind_ok (outcome_offset _ _), outcome_bind, outcome_bytes] at h
          cases h
      | cons b rest =>
          refine ⟨n, start, b, rest, rfl, rfl, ?_⟩
          rw [outcome_runOver_cons] at h
          split at h
          · cases h
          · next hop =>
              split at h
              · next htop =>
                  cases h
                  exact .inl ⟨hop, htop, rfl, rfl⟩
              · cases h
          · next op hstop hop => exact .inr ⟨op, hop, hstop, h⟩

end Runs

namespace Operations.Views

variable {ops : Operations σ} {ops' : Operations ρ} {view : σ → ρ} (hv : ops.Views ops' view)
  {resolver : Resolver τ} {persistent : Value → Restore τ Value}
include hv

/-- A run that succeeds is seen as itself, if every item that it drops is. -/
theorem run {n m : Nat} {s : Standing σ τ} {v : Value} {c' : Cursor} {w' : Workspace τ}
    (hpop : ∀ t, ReflTransGen (Steps ops resolver persistent) s t → t.next? = some .pop →
      view (ops.discard t.stack) = ops'.discard (view t.stack))
    (hrun : (runOver ops resolver persistent n s.stack).outcome s.cursor s.workspace =
      ((.ok v, c'), w'))
    (hm : s.cursor.rest.length < m) :
    (runOver ops' resolver persistent m (view s.stack)).outcome s.cursor s.workspace =
      ((.ok v, c'), w') := by
  -- The bound of the run that is seen has to exceed the bytes left; each instruction takes its byte.
  induction n generalizing m s with
  | zero => cases hrun
  | succ n ih =>
      obtain ⟨m, rfl⟩ := Nat.exists_eq_succ_of_ne_zero (Nat.ne_zero_of_lt hm)
      obtain ⟨stack, cursor, workspace⟩ := s
      obtain ⟨_, start, b, rest, ⟨rfl⟩, rfl, hcases⟩ := runOver_cases hrun
      rw [outcome_runOver_cons]
      rcases hcases with ⟨hop, htop, rfl, rfl⟩ | ⟨op, hop, hstop, hstep⟩
      · simp only [hop, hv.top? stack v htop]
        rfl
      · obtain ⟨stack₁, c₁, w₁, hfirst, hrest⟩ := exists_of_outcome_bind hstep
        have hnext : (⟨stack, ⟨start, b :: rest⟩, workspace⟩ : Standing σ τ).next? = some op := hop
        have hhere : op = .pop → view (ops.discard stack) = ops'.discard (view stack) := by
          rintro rfl
          exact hpop _ .refl hnext
        obtain ⟨hfirst', hle⟩ := hv.step resolver persistent start op stack hhere hfirst
        have hsteps : Steps ops resolver persistent ⟨stack, ⟨start, b :: rest⟩, workspace⟩
            ⟨stack₁, c₁, w₁⟩ := ⟨op, hnext, hstop, hfirst⟩
        have hlater := ih (m := m) (fun t ht => hpop t (.head hsteps ht)) hrest
          (lt_of_le_of_lt hle (Nat.lt_of_succ_lt_succ hm))
        simp only [hop]
        rw [outcome_bind_ok hfirst']
        exact hlater

end Operations.Views

end ModelGraph.Pickle
