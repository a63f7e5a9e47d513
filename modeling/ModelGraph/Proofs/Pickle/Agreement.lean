import ModelGraph.Proofs.Pickle.Steps

/-!
# Loads on workspaces that agree

Two workspaces on one machine may keep different tables. Actions and readings agree along a relation
of workspaces if from related workspaces they give the same, and lead to related workspaces again
where they succeed. A relation that lasts while the machine grows passes from the resolvers of outside
references to whole loads.
-/

namespace ModelGraph

variable {τ σ α β : Type}

namespace Restore

/-- The result of an action and the workspace it leaves. -/
def outcome (x : Restore τ α) (w : Workspace τ) : Except LoadError α × Workspace τ := x.run.run w

theorem outcome_bind (x : Restore τ α) (f : α → Restore τ β) (w : Workspace τ) :
    (x >>= f).outcome w =
      match x.outcome w with
      | (.ok a, w') => (f a).outcome w'
      | (.error e, w') => (.error e, w') := by
  have hbind : (x >>= f).outcome w =
      (match x.outcome w with
        | (result, w') => (ExceptT.bindCont f result) w') := rfl
  rw [hbind]
  rcases x.outcome w with ⟨_ | _, w'⟩ <;> rfl

theorem outcome_bind_ok {x : Restore τ α} {w w' : Workspace τ} {a : α}
    (h : x.outcome w = (.ok a, w')) (f : α → Restore τ β) :
    (x >>= f).outcome w = (f a).outcome w' := by
  rw [outcome_bind, h]

theorem exists_of_outcome_bind {x : Restore τ α} {f : α → Restore τ β} {w w' : Workspace τ} {b : β}
    (h : (x >>= f).outcome w = (.ok b, w')) :
    ∃ a w₁, x.outcome w = (.ok a, w₁) ∧ (f a).outcome w₁ = (.ok b, w') := by
  rw [outcome_bind] at h
  rcases hx : x.outcome w with ⟨e | a, w₁⟩ <;> rw [hx] at h
  · cases h
  · exact ⟨a, w₁, rfl, h⟩

@[simp] theorem outcome_get (w : Workspace τ) : (get : Restore τ _).outcome w = (.ok w, w) := rfl

@[simp] theorem outcome_heap (w : Workspace τ) :
    (heap : Restore τ Heap).outcome w = (.ok w.machine.heap, w) := rfl

theorem outcome_modifyGet (f : Workspace τ → α × Workspace τ) (w : Workspace τ) :
    (modifyGet f : Restore τ α).outcome w = (.ok (f w).1, (f w).2) := rfl

theorem outcome_exec (x : Exec α) (w : Workspace τ) :
    (exec x : Restore τ α).outcome w =
      ((x.outcome w.machine).1.mapError .run, { w with machine := (x.outcome w.machine).2 }) := by
  have hrun : ExceptT.run x w.machine = x.outcome w.machine := rfl
  unfold exec
  rw [outcome_bind_ok (outcome_modifyGet _ w), hrun]
  rcases x.outcome w.machine with ⟨_ | _, m⟩ <;> rfl

/-- From related workspaces the actions give the same, and lead to related ones where they succeed. -/
def Agree (S : Workspace τ → Workspace σ → Prop) (T : α → Workspace τ → Workspace σ → Prop)
    (x : Restore τ α) (y : Restore σ α) : Prop :=
  ∀ ⦃w v⦄, S w v → (x.outcome w).1 = (y.outcome v).1 ∧
    ∀ a, (x.outcome w).1 = .ok a → T a (x.outcome w).2 (y.outcome v).2

namespace Agree

variable {S : Workspace τ → Workspace σ → Prop} {T : α → Workspace τ → Workspace σ → Prop}
  {U : β → Workspace τ → Workspace σ → Prop}

/-- What the second action is may be kept apart from the goal. -/
theorem of_eq {x : Restore τ α} {y : Restore σ α} (h : ∀ y', y' = y → Agree S T x y') : Agree S T x y :=
  h y rfl

theorem pure {a : α} (h : ∀ w v, S w v → T a w v) :
    Agree S T (Pure.pure a) (Pure.pure a) := by
  intro w v hwv
  refine ⟨rfl, fun b hb => ?_⟩
  cases hb
  exact h w v hwv

theorem throw (e : LoadError) : Agree S T (MonadExcept.throw e) (MonadExcept.throw e) :=
  fun _ _ _ => ⟨rfl, fun _ h => by cases h⟩

theorem bind {x : Restore τ α} {y : Restore σ α} {f : α → Restore τ β} {g : α → Restore σ β}
    (hx : Agree S T x y) (hf : ∀ a, Agree (T a) U (f a) (g a)) : Agree S U (x >>= f) (y >>= g) := by
  intro w v h
  obtain ⟨heq, hnext⟩ := hx h
  rw [outcome_bind, outcome_bind]
  rcases hxw : x.outcome w with ⟨e | a, w'⟩ <;> rcases hyv : y.outcome v with ⟨result, v'⟩ <;>
    rw [hxw, hyv] at heq hnext <;> cases heq
  · exact ⟨rfl, fun _ h => by cases h⟩
  · exact hf a (hnext a rfl)

/-- What only the second workspace sees. -/
theorem bind_right {x : Restore τ α} {y : Restore σ α} {g : α → Restore σ α}
    {U : α → Workspace τ → Workspace σ → Prop} (hx : Agree S T x y)
    (hg : ∀ a, Agree (T a) U (Pure.pure a) (g a)) : Agree S U x (y >>= g) := by
  have hbind := hx.bind hg
  rwa [bind_pure] at hbind

theorem ofExcept (result : Except LoadError α) :
    Agree S (fun _ => S) (MonadExcept.ofExcept result) (MonadExcept.ofExcept result) := by
  cases result with
  | ok a => exact pure fun _ _ => id
  | error e => exact throw e

/-- Workspaces on one machine have one heap. -/
theorem heap (hmachine : ∀ {w v}, S w v → w.machine = v.machine) :
    Agree S (fun _ => S) Restore.heap Restore.heap := by
  intro w v h
  rw [outcome_heap, outcome_heap, hmachine h]
  exact ⟨rfl, fun _ _ => h⟩

theorem items (hmachine : ∀ {w v}, S w v → w.machine = v.machine) (v : Value) :
    Agree S (fun _ => S) (Restore.items v) (Restore.items v) :=
  (heap hmachine).bind fun _ => pure fun _ _ => id

theorem describe (hmachine : ∀ {w v}, S w v → w.machine = v.machine) (v : Value) :
    Agree S (fun _ => S) (Restore.describe v) (Restore.describe v) :=
  (heap hmachine).bind fun _ => pure fun _ _ => id

end Agree

end Restore

/-- A relation of workspaces on one machine without code that lasts while the machine grows. -/
structure Lasting (S : Workspace τ → Workspace σ → Prop) : Prop where
  machine_eq : ∀ {w v}, S w v → w.machine = v.machine
  codeless : ∀ {w v}, S w v → v.machine.Codeless
  grows : ∀ {w v m}, S w v → v.machine.Grows m → S { w with machine := m } { v with machine := m }

namespace Lasting

open Restore

variable {S : Workspace τ → Workspace σ → Prop} (hS : Lasting S)
include hS

theorem exec {x : Exec α} (hx : Adds x) : Agree S (fun _ => S) (Restore.exec x) (Restore.exec x) := by
  intro w v h
  rw [outcome_exec, outcome_exec, hS.machine_eq h]
  exact ⟨rfl, fun _ _ => hS.grows h (hx (hS.codeless h))⟩

end Lasting

namespace Pickle

open Reading

theorem outcome_act_of {x : Restore τ α} {w w' : Workspace τ} {result : Except LoadError α}
    (h : x.outcome w = (result, w')) (c : Cursor) :
    (act x).outcome c w = ((result, c), w') := by
  rw [outcome_act]
  exact congrArg (fun r => ((r.1, c), r.2)) h

theorem exists_of_outcome_act {x : Restore τ α} {f : α → Reading τ β} {c c' : Cursor}
    {w w' : Workspace τ} {b : β} (h : (act x >>= f).outcome c w = ((.ok b, c'), w')) :
    ∃ a w₁, x.outcome w = (.ok a, w₁) ∧ (f a).outcome c w₁ = ((.ok b, c'), w') := by
  obtain ⟨a, c₁, w₁, hx, hf⟩ := exists_of_outcome_bind h
  rw [outcome_act] at hx
  obtain ⟨hresult, rfl⟩ := Prod.mk.inj hx
  obtain ⟨hok, rfl⟩ := Prod.mk.inj hresult
  exact ⟨a, _, Prod.ext hok rfl, hf⟩

theorem exists_of_outcome_ofExcept {result : Except LoadError α} {f : α → Reading τ β}
    {c c' : Cursor} {w w' : Workspace τ} {b : β}
    (h : (ofExcept result >>= f).outcome c w = ((.ok b, c'), w')) :
    ∃ a, result = .ok a ∧ (f a).outcome c w = ((.ok b, c'), w') := by
  cases result with
  | ok a => exact ⟨a, rfl, h⟩
  | error e => cases h

theorem exists_of_outcome_bytes {length : Nat} {f : Bytes → Reading τ β} {c c' : Cursor}
    {w w' : Workspace τ} {b : β} (h : (bytes length >>= f).outcome c w = ((.ok b, c'), w')) :
    length ≤ c.rest.length ∧ (f (c.rest.take length)).outcome
      ⟨c.offset + length, c.rest.drop length⟩ w = ((.ok b, c'), w') := by
  rw [Reading.outcome_bind, outcome_bytes] at h
  split_ifs at h with hlength
  · cases h
  · exact ⟨Nat.le_of_not_lt hlength, h⟩

/-- From related workspaces the readings give the same at the same place, and lead to related ones
where they succeed. -/
def Agree (S : Workspace τ → Workspace σ → Prop) ⦃α : Type⦄ (r : Reading τ α) (r' : Reading σ α) :
    Prop :=
  ∀ ⦃c w v⦄, S w v → (r.outcome c w).1 = (r'.outcome c v).1 ∧
    ∀ a, (r.outcome c w).1.1 = .ok a → S (r.outcome c w).2 (r'.outcome c v).2

namespace Agree

variable {S : Workspace τ → Workspace σ → Prop}

theorem bind {r : Reading τ α} {r' : Reading σ α} {f : α → Reading τ β} {f' : α → Reading σ β}
    (hr : Agree S r r') (hf : ∀ a, Agree S (f a) (f' a)) : Agree S (r >>= f) (r' >>= f') := by
  intro c w v h
  obtain ⟨heq, hnext⟩ := hr (c := c) h
  rw [Reading.outcome_bind, Reading.outcome_bind]
  rcases hrw : r.outcome c w with ⟨⟨e | a, c'⟩, w'⟩ <;>
    rcases hrv : r'.outcome c v with ⟨result, v'⟩ <;>
    rw [hrw, hrv] at heq hnext <;> cases heq
  · exact ⟨rfl, fun _ h => by cases h⟩
  · exact hf a (hnext a rfl)

/-- Readings that look at no workspace and leave it alone agree. -/
theorem of_same {r : Reading τ α} {r' : Reading σ α}
    (h : ∀ c w v, (r.outcome c w).1 = (r'.outcome c v).1)
    (hw : ∀ c w, (r.outcome c w).2 = w) (hv : ∀ c v, (r'.outcome c v).2 = v) : Agree S r r' := by
  intro c w v hwv
  rw [hw, hv]
  exact ⟨h c w v, fun _ _ => hwv⟩

theorem pure (a : α) : Agree S (Pure.pure a) (Pure.pure a) :=
  of_same (fun _ _ _ => rfl) (fun _ _ => rfl) fun _ _ => rfl

theorem throw (e : LoadError) :
    Agree S (MonadExcept.throw e : Reading τ α) (MonadExcept.throw e) :=
  of_same (fun _ _ _ => rfl) (fun _ _ => rfl) fun _ _ => rfl

theorem ofExcept (result : Except LoadError α) :
    Agree S (MonadExcept.ofExcept result : Reading τ α) (MonadExcept.ofExcept result) := by
  cases result with
  | ok a => exact pure a
  | error e => exact throw e

theorem act {x : Restore τ α} {y : Restore σ α} (h : Restore.Agree S (fun _ => S) x y) :
    Agree S (Reading.act x) (Reading.act y) := by
  intro c w v hwv
  obtain ⟨heq, hnext⟩ := h hwv
  rw [outcome_act, outcome_act]
  exact ⟨congrArg (·, c) heq, hnext⟩

theorem bytes (length : Nat) : Agree S (Reading.bytes length) (Reading.bytes length) := by
  refine of_same (fun c w v => ?_) (fun c w => ?_) fun c v => ?_
  all_goals
    simp only [outcome_bytes]
    split_ifs <;> rfl

theorem line : Agree S Reading.line Reading.line := by
  refine of_same (fun c w v => ?_) (fun c w => ?_) fun c v => ?_
  all_goals
    simp only [outcome_line]
    split_ifs <;> rfl

variable (hS : Lasting S)
include hS

theorem congruence : ReadingCongruence (Agree S) where
  pure := pure
  bind := bind
  offset := of_same (fun _ _ _ => rfl) (fun _ _ => rfl) fun _ _ => rfl
  failAt _ _ := throw _
  bytes := bytes
  line := line
  heap := act (.heap hS.machine_eq)
  exec hx := act (hS.exec hx)

theorem loadWith {persistent : Value → Restore τ Value} {persistent' : Value → Restore σ Value}
    (h : ∀ id, Restore.Agree S (fun _ => S) (persistent id) (persistent' id)) :
    Agree S (loadWith persistent) (loadWith persistent') := by
  refine bind (of_same (fun _ _ _ => rfl) (fun _ _ => rfl) fun _ _ => rfl) fun c => ?_
  exact (congruence hS).run persistent persistent' (fun id => act (h id)) _ _

theorem load : Agree S load load :=
  loadWith hS fun _ => .throw _

end Agree

end Pickle

end ModelGraph
