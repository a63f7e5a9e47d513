import ModelGraph.Proofs.Machine.Codeless

/-!
# Calls with scalars

On a machine without code, a call with scalars alone has no way to name an old object: what it gives
is a scalar or a new object. So whatever a checkpoint takes for the class of its storages, no storage
is handed out twice.
-/

namespace ModelGraph

open Exec

variable {α : Type}

/-! ## Scalars -/

namespace Value

/-- The value names no object. -/
def Scalar (v : Value) : Prop := v.ref? = Option.none

theorem scalar_ofSize (n : Nat) : (Value.ofSize n).Scalar := rfl

theorem scalar_getD_unknown {γ : Type} (found : Option γ) {make : γ → Value}
    (hmake : ∀ a, (make a).Scalar) : ((found.map make).getD unknown).Scalar := by
  cases found with
  | none => rfl
  | some a => exact hmake a

theorem scalar_toWhole (v : Value) : v.toWhole.Scalar := by
  cases v with
  | float x => exact scalar_getD_unknown _ fun _ => rfl
  | str s => exact scalar_getD_unknown _ fun _ => rfl
  | _ => rfl

theorem scalar_toFloat (v : Value) : v.toFloat.Scalar := by
  unfold toFloat
  split <;> exact scalar_getD_unknown _ fun _ => rfl

end Value

theorem scalar_argument {arguments : List Value} (h : ∀ v ∈ arguments, v.Scalar) (i : Nat) :
    (argument arguments i).Scalar := by
  unfold argument
  cases hi : arguments[i]? with
  | none => rfl
  | some v => exact h v (List.mem_of_getElem? hi)

namespace Heap

variable {v : Value}

theorem object?_of_scalar (h : Heap) (hv : v.Scalar) : h.object? v = none := by
  rw [object?, hv]
  rfl

theorem items?_of_scalar (h : Heap) (hv : v.Scalar) : h.items? v = none := by
  rw [items?, h.object?_of_scalar hv]

theorem attribute?_of_scalar (h : Heap) (hv : v.Scalar) (name : String) :
    h.attribute? v name = none := by
  rw [attribute?, ownAttribute?, inheritedAttribute?, h.object?_of_scalar hv]
  rfl

theorem scalar_arithmetic (h : Heap) (op : ArithmeticOp) {left right result : Value}
    (hresult : h.arithmetic op left right = .ok result) : result.Scalar := by
  unfold arithmetic at hresult
  extract_lets floats at hresult
  have hfloats (h : floats () = .ok result) : result.Scalar := by
    dsimp only [floats] at h
    split at h <;> cases h
    rfl
  split at hresult
  · split at hresult
    · cases hresult
    · cases hresult
      rfl
    · exact hfloats hresult
  · exact hfloats hresult

end Heap

theorem outcome_attribute?_of_scalar {v : Value} (hv : v.Scalar) (name : String) (m : Machine) :
    (Exec.attribute? v name).outcome m = (.ok none, m) := by
  rw [← m.heap.attribute?_of_scalar hv name]
  rfl

theorem outcome_items_of_scalar {v : Value} (hv : v.Scalar) (m : Machine) :
    (Exec.items v).outcome m = (.ok [], m) := by
  have hnone := m.heap.items?_of_scalar hv
  unfold Exec.items
  rw [outcome_bind_ok (outcome_heap m), hnone]
  rfl

theorem scalar_getLast {values : List Value} (h : ∀ v ∈ values, v.Scalar) :
    (values.getLast?.getD .none).Scalar := by
  cases hlast : values.getLast? with
  | none => rfl
  | some v => exact h v (List.mem_of_getLast? hlast)

theorem scalar_deriveIndex (index start step : Value) :
    (Builtin.deriveIndex index start step).Scalar := by
  unfold Builtin.deriveIndex
  split <;> rfl

theorem scalar_conjunction {left right : Value} (hleft : left.Scalar) (hright : right.Scalar) :
    (Builtin.conjunction left right).Scalar := by
  unfold Builtin.conjunction
  split
  · rfl
  · rfl
  · split
    · exact hright
    · exact hleft

theorem scalar_disjunction {left right : Value} (hleft : left.Scalar) (hright : right.Scalar) :
    (Builtin.disjunction left right).Scalar := by
  unfold Builtin.disjunction
  split
  · rfl
  · rfl
  · split
    · exact hleft
    · exact hright

theorem scalar_dim (h : Heap) (v : Value) : (Builtin.dim h v).Scalar := by
  unfold Builtin.dim
  split <;> rfl

theorem scalar_length (h : Heap) {v : Value} (hv : v.Scalar) : (Builtin.length h v).Scalar := by
  unfold Builtin.length
  rw [h.object?_of_scalar hv, h.attribute?_of_scalar hv]
  split <;> rfl

theorem scalar_tensorSize (h : Heap) {v : Value} (hv : v.Scalar) (dimension : Value) :
    (Builtin.tensorSize h v dimension).Scalar := by
  rw [Builtin.tensorSize, h.attribute?_of_scalar hv]
  rfl

theorem scalar_read {name : String} {raw : Bytes} {v : Value} (h : ScalarType.read name raw = .ok v) :
    v.Scalar := by
  have hleading {width : Nat} {make : Bytes → Value} (hmake : ∀ b, (make b).Scalar)
      (h : ScalarType.leadingWord width raw make = .ok v) : v.Scalar := by
    unfold ScalarType.leadingWord at h
    split at h <;> cases h
    exact hmake _
  unfold ScalarType.read at h
  split at h
  case h_9 => cases h
  all_goals
    refine hleading ?_ h
    exact fun _ => rfl

theorem scalar_least {h : Heap} {best : Value} {candidates : List Value} {v : Value}
    (hbest : best.Scalar) (hcandidates : ∀ c ∈ candidates, c.Scalar)
    (hv : Builtin.least h best candidates = .ok v) : v.Scalar := by
  induction candidates generalizing best with
  | nil =>
      cases hv
      exact hbest
  | cons c rest ih =>
      have hc : c.Scalar := hcandidates c List.mem_cons_self
      have hrest : ∀ c ∈ rest, c.Scalar := fun c' h => hcandidates c' (List.mem_cons_of_mem _ h)
      unfold Builtin.least at hv
      cases hcompare : h.compare best c with
      | error e =>
          rw [hcompare] at hv
          cases hv
      | ok order =>
          rw [hcompare] at hv
          cases order with
          | gt => exact ih hc hrest hv
          | _ => exact ih hbest hrest hv

/-! ## New results -/

/-- On a machine without code the result is a scalar or a new object. -/
def Fresh (x : Exec Value) : Prop :=
  ∀ ⦃m : Machine⦄, m.Codeless → ∀ ⦃id m'⦄, x.outcome m = (.ok (.ref id), m') → m.heap.size ≤ id

/-- Whatever the action does, it gives this value. -/
def Returns (v : Value) (x : Exec Value) : Prop :=
  ∀ ⦃m : Machine⦄, ∀ ⦃result m'⦄, x.outcome m = (.ok result, m') → result = v

theorem Returns.pure (v : Value) : Returns v (Pure.pure v) := by
  intro m result m' h
  cases h
  rfl

theorem Returns.after {v : Value} (x : Exec α) {f : α → Exec Value} (hf : ∀ a, Returns v (f a)) :
    Returns v (x >>= f) := by
  intro m result m' h
  obtain ⟨a, m₁, -, hrest⟩ := exists_of_outcome_bind h
  exact hf a hrest

namespace Fresh

theorem pure {v : Value} (hv : v.Scalar) : Fresh (Pure.pure v) := by
  intro m _ id m' h
  cases h
  cases hv

theorem throw (e : RunError) : Fresh (MonadExcept.throw e) := by
  intro m _ id m' h
  cases h

theorem unsupported (part : Unsupported) : Fresh (Exec.unsupported part) := throw _

theorem typeFault (fault : TypeFault) : Fresh (Exec.typeFault fault) := throw _

theorem ofExcept {result : Except RunError Value} (h : ∀ v, result = .ok v → v.Scalar) :
    Fresh (MonadExcept.ofExcept result) := by
  cases result with
  | ok v => exact pure (h v rfl)
  | error e => exact throw e

theorem alloc (o : Object) : Fresh (Exec.alloc o) := by
  intro m _ id m' h
  cases h
  exact Nat.le_refl _

theorem after {x : Exec α} {f : α → Exec Value} (hx : Adds x) (hf : ∀ a, Fresh (f a)) :
    Fresh (x >>= f) := by
  intro m hm id m' h
  obtain ⟨a, m₁, hfirst, hrest⟩ := exists_of_outcome_bind h
  have hgrows := hx hm
  rw [hfirst] at hgrows
  exact Nat.le_trans hgrows.heap.size_le (hf a (hm.grows hgrows) hrest)

theorem knowing {x : Exec α} {a : α} {f : α → Exec Value} (hx : ∀ m, x.outcome m = (.ok a, m))
    (hf : Fresh (f a)) : Fresh (x >>= f) := by
  intro m hm id m' h
  rw [outcome_bind_ok (hx m)] at h
  exact hf hm h

/-- What is done with a new object before it is returned does not matter. -/
theorem returning {x : Exec Value} {f : Value → Exec Value} (hx : Fresh x)
    (hf : ∀ v, Returns v (f v)) : Fresh (x >>= f) := by
  intro m hm id m' h
  obtain ⟨v, m₁, hfirst, hrest⟩ := exists_of_outcome_bind h
  rw [← hf v hrest] at hfirst
  exact hx hm hfirst

theorem convert (type : String) {v : Value} (hv : v.Scalar) : Fresh (Exec.convert type v) := by
  unfold Exec.convert
  split
  · exact pure v.scalar_toWhole
  · exact pure v.scalar_toFloat
  · exact pure rfl
  · exact pure rfl
  · exact pure rfl
  · exact after (Plain.describe _).adds fun _ => pure rfl
  · exact alloc _
  · exact after (Plain.items _).adds fun _ => alloc _

theorem construct (id : Nat) {arguments : List Value} (h : ∀ v ∈ arguments, v.Scalar) :
    Fresh (Exec.construct id arguments) := by
  refine after Plain.heap.adds fun heap => ?_
  split
  · exact typeFault _
  · split
    · exact alloc _
    · exact returning (alloc _) fun v => .after _ fun _ => .pure v
    · exact alloc _
    · exact convert _ (scalar_argument h 0)
    · split
      · exact after (Plain.items _).adds fun _ => alloc _
      · exact after (Plain.items _).adds fun _ => alloc _
      · exact alloc _
      · exact pure rfl

theorem rebuildTensor (arg : Nat → Value) (further : List (String × Value)) :
    Fresh (Builtin.rebuildTensor arg further) := by
  refine after Plain.heap.adds fun h => ?_
  split
  · exact after (Plain.describe _).adds fun _ => typeFault _
  · exact returning (alloc _) fun v => .after _ fun _ => .after _ fun _ => .pure v

theorem range (arguments : List Value) : Fresh (Builtin.range arguments) := by
  unfold Builtin.range
  dsimp only
  split
  · exact alloc _
  · exact alloc _
  · split
    · exact unsupported _
    · exact alloc _
  · exact unsupported _

theorem rangeLength (start stop step : Value) : Fresh (Builtin.rangeLength start stop step) := by
  unfold Builtin.rangeLength
  split
  · exact unsupported _
  · exact pure rfl
  · exact pure rfl

theorem minimum {arguments : List Value} (h : ∀ v ∈ arguments, v.Scalar) :
    Fresh (Builtin.minimum arguments) := by
  refine after Plain.heap.adds fun heap => ?_
  rcases arguments with _ | ⟨v, _ | ⟨w, rest⟩⟩
  · exact pure rfl
  · dsimp only
    rw [heap.items?_of_scalar (h v List.mem_cons_self)]
    exact pure (h v List.mem_cons_self)
  · exact ofExcept fun _ hleast => scalar_least (h v List.mem_cons_self)
      (fun c hc => h c (List.mem_cons_of_mem _ hc)) hleast

theorem contains (container item : Value) : Fresh (Builtin.contains container item) := by
  refine after Plain.heap.adds fun h => ?_
  split
  · exact pure rfl
  · split
    · exact pure rfl
    · exact pure rfl
    · exact unsupported _

theorem arithmetic (op : ArithmeticOp) (left right : Value) :
    Fresh (Builtin.arithmetic op left right) :=
  after Plain.heap.adds fun h => ofExcept fun _ hv => h.scalar_arithmetic op hv

theorem sum (left right : Value) : Fresh (Builtin.sum left right) := by
  refine after Plain.heap.adds fun h => ?_
  split
  · exact pure rfl
  · split
    · exact alloc _
    · exact ofExcept fun _ hv => h.scalar_arithmetic .add hv

theorem negative (v : Value) : Fresh (Builtin.negative v) := by
  unfold Builtin.negative
  split
  · exact pure rfl
  · exact pure rfl
  · exact pure rfl
  · exact after (Plain.describe v).adds fun _ => unsupported _

theorem comparison (left right : Value) (holds : Ordering → Bool) :
    Fresh (Builtin.comparison left right holds) := by
  unfold Builtin.comparison
  split
  · exact pure rfl
  · exact after Plain.heap.adds fun _ => after (Plain.ofExcept _).adds fun _ => pure rfl

theorem append (v : Value) {item : Value} (hitem : item.Scalar) : Fresh (Builtin.append v item) := by
  refine after Plain.heap.adds fun h => ?_
  split
  · refine after (Plain.adds (.modifyHeap fun h => h.grows_modify _ fun o => ?_)) fun _ => pure hitem
    cases o <;> rfl
  · exact typeFault _

theorem slice {v : Value} (hv : v.Scalar) (start stop step : Value) :
    Fresh (Builtin.slice v start stop step) := by
  have single : Adds (if (step.whole?.getD 1) = 1 then return else Exec.unsupported .sliceStep) := by
    split
    · exact (Plain.pure _).adds
    · exact (Plain.unsupported _).adds
  refine after Plain.heap.adds fun h => ?_
  dsimp only
  split
  · exact after single fun _ => pure rfl
  · exact after single fun _ => alloc _
  · exact pure hv

theorem load (compilation model buffers : Value) :
    Fresh (Compilation.load compilation model buffers) := by
  refine after Plain.heap.adds fun h => ?_
  split
  · exact typeFault _
  · split
    · exact throw _
    · exact after (Plain.setAttributes _ _).adds fun _ => pure rfl

theorem arrayScalar (type data : Value) : Fresh (Builtin.arrayScalar type data) := by
  refine after (Plain.attribute? type _).adds fun name => after Plain.heap.adds fun h => ?_
  dsimp only
  split
  · exact typeFault _
  · exact ofExcept fun _ hv => scalar_read hv

theorem placeholder (name : String) : Fresh (Exec.placeholder name) :=
  after (Plain.adds (.modify (fun _ _ => rfl) (fun m => .refl m.heap) (fun _ => rfl) fun _ => rfl))
    fun _ => alloc _

/-! ### Calls -/

variable {host : Host}

/-- What a host calls with scalars gives a scalar or a new object. -/
def Calls (host : Host) : Prop :=
  ∀ callee arguments, (∀ v ∈ arguments, v.Scalar) →
    Fresh (host.call callee none { positional := arguments })

theorem invoke (hosts : Adds.Host host) (hcalls : Calls host) (name : String)
    {arguments : List Value} (h : ∀ v ∈ arguments, v.Scalar) : Fresh (host.invoke name arguments) := by
  refine after (Adds.typeOf hosts name) fun callee => ?_
  cases callee with
  | some callee => exact hcalls callee arguments h
  | none => exact placeholder name

theorem reconstruct (hosts : Adds.Host host) (hcalls : Calls host) {c : Value} (hc : c.Scalar) :
    Fresh (Builtin.reconstruct host c) := by
  refine after Plain.heap.adds fun h => ?_
  split
  · cases hc
  · exact invoke hosts hcalls _ (by simp)
  · exact after (Plain.describe _).adds fun _ => typeFault _

theorem primitive (hosts : Adds.Host host) (hcalls : Calls host) (p : Primitive)
    {arguments : List Value} (h : ∀ v ∈ arguments, v.Scalar) : Fresh (host.primitive p arguments) := by
  have harg := scalar_argument h
  cases p with
  | bytes => exact after Plain.heap.adds fun _ => alloc _
  | getAttribute =>
      unfold Host.primitive
      dsimp only
      split
      · exact knowing (outcome_attribute?_of_scalar (harg 0) _) (pure (harg 2))
      · exact typeFault _
  | set => exact after (Plain.items _).adds fun _ => alloc _
  | list => exact after (Plain.items _).adds fun _ => alloc _
  | size => exact after (Plain.items _).adds fun _ => alloc _
  | listWithDefault => exact pure (harg 0)
  | restoreTypeTag => exact pure (harg 0)
  | buildList => exact pure (harg 0)
  | identity => exact pure (harg 0)
  | slice => exact returning (alloc _) fun v => .after _ fun _ => .pure v
  | counter => exact alloc _
  | defaultDict => exact alloc _
  | orderedDict => exact after Plain.heap.adds fun _ => alloc _
  | dict => exact after Plain.heap.adds fun _ => alloc _
  | encode => exact alloc _
  | reconstruct => exact reconstruct hosts hcalls (harg 0)
  | arrayScalar => exact arrayScalar _ _
  | annotate => exact pure (scalar_getLast h)
  | toInt => exact pure (Value.scalar_toWhole _)
  | toFloat => exact pure (Value.scalar_toFloat _)
  | range => exact range arguments
  | rebuildTensor => exact rebuildTensor _ _
  | rebuildTensorV2 => exact rebuildTensor _ _
  | rebuildQuantized => exact rebuildTensor _ _
  | rebuildParameter =>
      refine returning (invoke hosts hcalls _ ?_) fun v => .after _ fun _ => .pure v
      simpa using ⟨harg 0, harg 1⟩
  | rebuildFromType =>
      exact knowing (outcome_items_of_scalar (harg 2)) (hcalls _ [] (by simp))
  | numToTensor => exact returning (alloc _) fun v => .after _ fun _ => .pure v
  | minimum => exact minimum h
  | shape => exact knowing (outcome_attribute?_of_scalar (harg 0) _) (pure rfl)
  | raise =>
      unfold Host.primitive
      dsimp only
      split
      · exact throw _
      · exact after (Plain.describe _).adds fun _ => throw _
  | convPrepack => exact returning (alloc _) fun v => .after _ fun _ => .pure v
  | linearPrepack => exact returning (alloc _) fun v => .after _ fun _ => .pure v
  | setItem =>
      exact after (Plain.adds (.modifyHeap fun h => h.grows_setItem _ _ _)) fun _ => pure rfl
  | contains => exact contains _ _
  | deriveIndex => exact pure (scalar_deriveIndex _ _ _)
  | rangeLength => exact rangeLength _ _ _
  | is => exact after (Plain.identical _ _).adds fun _ => pure rfl
  | isNot => exact after (Plain.identical _ _).adds fun _ => pure rfl
  | not =>
      unfold Host.primitive
      dsimp only
      split
      · exact pure rfl
      · exact after (Plain.describe _).adds fun _ => unsupported _
  | and => exact pure (scalar_conjunction (harg 0) (harg 1))
  | or => exact pure (scalar_disjunction (harg 0) (harg 1))
  | add => exact sum _ _
  | sub => exact arithmetic _ _ _
  | mul => exact arithmetic _ _ _
  | div => exact arithmetic _ _ _
  | floorDiv => exact arithmetic _ _ _
  | remainder => exact arithmetic _ _ _
  | negate => exact negative _
  | eq => exact after Plain.heap.adds fun _ => pure rfl
  | ne => exact after Plain.heap.adds fun _ => pure rfl
  | lt => exact comparison _ _ _
  | le => exact comparison _ _ _
  | gt => exact comparison _ _ _
  | ge => exact comparison _ _ _
  | append => exact append _ (harg 1)
  | dim => exact after Plain.heap.adds fun heap => pure (scalar_dim heap _)
  | keys => exact after Plain.heap.adds fun _ => alloc _
  | values => exact after Plain.heap.adds fun _ => alloc _
  | length => exact after Plain.heap.adds fun heap => pure (scalar_length heap (harg 0))
  | tensorSize => exact after Plain.heap.adds fun heap => pure (scalar_tensorSize heap (harg 0) _)
  | tensorSlice => exact slice (harg 0) _ _ _
  | compilationInit => exact load _ _ _
  | compilationRun =>
      intro m hm id m' hrun
      rw [show host.primitive .compilationRun arguments = Compilation.run _ _ _ from rfl,
        Adds.outcome_run hm] at hrun
      cases hrun
  | uninitialized => exact pure rfl
  | warn => exact pure rfl
  | noOp => exact pure rfl
  | quantizationScale => exact pure rfl

theorem dispatch (hosts : Adds.Host host) (hcalls : Calls host) (callee : Value)
    {arguments : List Value} (h : ∀ v ∈ arguments, v.Scalar) :
    Fresh (host.dispatch callee none { positional := arguments }) := by
  have hvalues : ∀ v ∈ ({ positional := arguments } : Arguments).values, v.Scalar := by
    simpa [Arguments.values] using h
  intro m hm
  unfold Host.dispatch
  rw [outcome_bind_ok (outcome_heap m)]
  split
  · exact construct _ hvalues hm
  · next f hf =>
      obtain ⟨id, rfl, -⟩ := Heap.exists_ref_of_object hf
      obtain ⟨p, hp⟩ := hm.native hf
      dsimp only
      rw [hp]
      exact primitive hosts hcalls p hvalues hm
  · exact typeFault _ hm

theorem ofDepth (depth : Nat) : Calls (.ofDepth depth) := by
  induction depth with
  | zero => exact fun _ _ _ => throw _
  | succ depth ih => exact fun callee arguments h => dispatch (.ofDepth depth) ih callee h

end Fresh

end ModelGraph
