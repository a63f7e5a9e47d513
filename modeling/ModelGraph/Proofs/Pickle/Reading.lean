import Mathlib.Data.List.TakeWhile
import ModelGraph.Pickle.Load

/-!
# Outcomes of readings

What a reading gives at a cursor and a workspace, by the way it is put together. A reading is local if
its success depends on no byte past the ones it takes, and if fewer bytes make it fail as a pickle.
Locality is kept by sequencing, so a reading is local if its parts are.
-/

namespace ModelGraph.Pickle

variable {τ α β : Type}

namespace Reading

/-- The result of a reading, the place it stops at, and the workspace it leaves. -/
def outcome (r : Reading τ α) (c : Cursor) (w : Workspace τ) :
    (Except LoadError α × Cursor) × Workspace τ := (r.run.run c).run w

@[simp] theorem outcome_pure (a : α) (c : Cursor) (w : Workspace τ) :
    (pure a : Reading τ α).outcome c w = ((.ok a, c), w) := rfl

theorem outcome_bind (r : Reading τ α) (f : α → Reading τ β) (c : Cursor) (w : Workspace τ) :
    (r >>= f).outcome c w =
      match r.outcome c w with
      | ((.ok a, c'), w') => (f a).outcome c' w'
      | ((.error e, c'), w') => ((.error e, c'), w') := by
  have hbind : (r >>= f).outcome c w =
      (match r.outcome c w with
        | ((result, c'), w') => (ExceptT.bindCont f result).run c' w') := rfl
  rw [hbind]
  rcases r.outcome c w with ⟨⟨_ | _, c'⟩, w'⟩ <;> rfl

theorem outcome_bind_ok {r : Reading τ α} {c c' : Cursor} {w w' : Workspace τ} {a : α}
    (h : r.outcome c w = ((.ok a, c'), w')) (f : α → Reading τ β) :
    (r >>= f).outcome c w = (f a).outcome c' w' := by
  rw [outcome_bind, h]

theorem outcome_bind_error {r : Reading τ α} {c c' : Cursor} {w w' : Workspace τ} {e : LoadError}
    (h : r.outcome c w = ((.error e, c'), w')) (f : α → Reading τ β) :
    (r >>= f).outcome c w = ((.error e, c'), w') := by
  rw [outcome_bind, h]

theorem exists_of_outcome_bind {r : Reading τ α} {f : α → Reading τ β} {c c' : Cursor}
    {w w' : Workspace τ} {b : β} (h : (r >>= f).outcome c w = ((.ok b, c'), w')) :
    ∃ a c₁ w₁, r.outcome c w = ((.ok a, c₁), w₁) ∧ (f a).outcome c₁ w₁ = ((.ok b, c'), w') := by
  rw [outcome_bind] at h
  rcases hr : r.outcome c w with ⟨⟨e | a, c₁⟩, w₁⟩ <;> rw [hr] at h
  · cases h
  · exact ⟨a, c₁, w₁, rfl, h⟩

/-- What follows a reading matters only where the reading succeeds. -/
theorem outcome_bind_congr {r : Reading τ α} {f g : α → Reading τ β} {c : Cursor}
    {w : Workspace τ} (h : ∀ a c' w', r.outcome c w = ((.ok a, c'), w') →
      (f a).outcome c' w' = (g a).outcome c' w') :
    (r >>= f).outcome c w = (r >>= g).outcome c w := by
  rw [outcome_bind, outcome_bind]
  rcases hr : r.outcome c w with ⟨⟨_ | a, c'⟩, w'⟩
  · rfl
  · exact h a c' w' hr

@[simp] theorem outcome_cursor (c : Cursor) (w : Workspace τ) :
    (cursor : Reading τ Cursor).outcome c w = ((.ok c, c), w) := rfl

@[simp] theorem outcome_offset (c : Cursor) (w : Workspace τ) :
    (offset : Reading τ Nat).outcome c w = ((.ok c.offset, c), w) := rfl

theorem outcome_ofExcept_ok (a : α) (c : Cursor) (w : Workspace τ) :
    (ofExcept (.ok a : Except LoadError α) : Reading τ α).outcome c w = ((.ok a, c), w) := rfl

/-- An action on the workspace stays at its place. -/
theorem outcome_act (action : Restore τ α) (c : Cursor) (w : Workspace τ) :
    (act action).outcome c w = (((action.run.run w).1, c), (action.run.run w).2) := rfl

theorem outcome_bytes (length : Nat) (c : Cursor) (w : Workspace τ) :
    (bytes length : Reading τ Bytes).outcome c w =
      if c.rest.length < length then ((.error (.pickle c.offset (.endOfData length)), c), w)
      else ((.ok (c.rest.take length), ⟨c.offset + length, c.rest.drop length⟩), w) := by
  unfold bytes
  rw [outcome_bind_ok (outcome_cursor c w)]
  split_ifs <;> rfl

theorem outcome_line (c : Cursor) (w : Workspace τ) :
    (line : Reading τ String).outcome c w =
      let text := c.rest.takeWhile (· != 10)
      if text.length < c.rest.length then
        ((.ok (Text.latin1 text), ⟨c.offset + text.length + 1, c.rest.drop (text.length + 1)⟩), w)
      else ((.error (.pickle c.offset .unterminatedLine), c), w) := by
  unfold line
  rw [outcome_bind_ok (outcome_cursor c w)]
  dsimp only
  split_ifs <;> rfl

/-! ## Locality -/

/-- A failure that a pickle is blamed for. -/
def FailsAsPickle (result : (Except LoadError α × Cursor) × Workspace τ) : Prop :=
  ∃ place fault, result.1.1 = .error (.pickle place fault)

/-- A reading takes just these bytes: it gives the same before any others, and fails on fewer. -/
structure Takes (r : Reading τ α) (taken : Bytes) (start : Nat) (w : Workspace τ) (a : α)
    (w' : Workspace τ) : Prop where
  outcome_append : ∀ others, r.outcome ⟨start, taken ++ others⟩ w =
    ((.ok a, ⟨start + taken.length, others⟩), w')
  fails : ∀ short, short <+: taken → short ≠ taken → FailsAsPickle (r.outcome ⟨start, short⟩ w)

/-- Whenever the reading succeeds, it takes just the bytes it has passed. -/
def Local (r : Reading τ α) : Prop :=
  ∀ ⦃start data w a c w'⦄, r.outcome ⟨start, data⟩ w = ((.ok a, c), w') →
    ∃ taken, data = taken ++ c.rest ∧ r.Takes taken start w a w'

/-- A reading that stays at its place and looks at no byte is local. -/
theorem local_of_stays {r : Reading τ α}
    (h : ∀ start w, ∃ result w', ∀ data, r.outcome ⟨start, data⟩ w = ((result, ⟨start, data⟩), w')) :
    Local r := by
  intro start data w a c w' hsuccess
  obtain ⟨result, w'', hstays⟩ := h start w
  rw [hstays data] at hsuccess
  obtain ⟨hresult, rfl⟩ := Prod.mk.inj hsuccess
  obtain ⟨rfl, rfl⟩ := Prod.mk.inj hresult
  exact ⟨[], rfl, hstays, fun short hstart hne => absurd (List.prefix_nil.mp hstart) hne⟩

theorem local_pure (a : α) : Local (pure a : Reading τ α) :=
  local_of_stays fun _ w => ⟨.ok a, w, fun _ => rfl⟩

theorem local_offset : Local (offset : Reading τ Nat) :=
  local_of_stays fun start w => ⟨.ok start, w, fun _ => rfl⟩

theorem local_failAt (place : Nat) (fault : PickleFault) :
    Local (failAt place fault : Reading τ α) :=
  local_of_stays fun _ w => ⟨.error (.pickle place fault), w, fun _ => rfl⟩

theorem local_act (action : Restore τ α) : Local (act action) :=
  local_of_stays fun _ w => ⟨(action.run.run w).1, (action.run.run w).2, fun _ => rfl⟩

theorem local_bytes (length : Nat) : Local (bytes length : Reading τ Bytes) := by
  intro start data w a c w' h
  rw [outcome_bytes] at h
  split_ifs at h with hlength
  · simp at h
  · simp only [Prod.mk.injEq, Except.ok.injEq] at h
    obtain ⟨⟨rfl, rfl⟩, rfl⟩ := h
    have htake : (data.take length).length = length := by
      rw [List.length_take]
      exact Nat.min_eq_left (Nat.le_of_not_lt hlength)
    refine ⟨data.take length, (List.take_append_drop length data).symm, ?_, ?_⟩
    · intro others
      rw [outcome_bytes, if_neg (by simp [htake])]
      simp [htake, List.take_left' htake, List.drop_left' htake]
    · intro short hstart hne
      have hshort : short.length < length := by
        refine Nat.lt_of_le_of_ne (htake ▸ List.IsPrefix.length_le hstart) fun heq => ?_
        exact hne (List.IsPrefix.eq_of_length hstart (by rw [heq, htake]))
      rw [outcome_bytes, if_pos hshort]
      exact ⟨_, _, rfl⟩

/-- A line that ends somewhere is cut at its first line feed. -/
theorem exists_line {data : Bytes} (h : (data.takeWhile (· != 10)).length < data.length) :
    ∃ text after, data = text ++ 10 :: after ∧ ∀ b ∈ text, (b != 10) = true := by
  have hsplit := List.takeWhile_append_dropWhile (p := fun b : UInt8 => b != 10) (l := data)
  cases hdrop : data.dropWhile (· != 10) with
  | nil =>
      rw [hdrop, List.append_nil] at hsplit
      rw [hsplit] at h
      exact absurd h (Nat.lt_irrefl _)
  | cons b after =>
      have hb : b = 10 := by
        have hhead := List.head_dropWhile_not (fun b : UInt8 => b != 10) (l := data) (by simp [hdrop])
        simpa [hdrop] using hhead
      rw [hb] at hdrop
      rw [hdrop] at hsplit
      exact ⟨_, after, hsplit.symm, fun b hb => List.mem_takeWhile_imp (p := (· != 10)) hb⟩

theorem local_line : Local (line : Reading τ String) := by
  intro start data w a c w' h
  rw [outcome_line] at h
  dsimp only at h
  split_ifs at h with hlength
  · simp only [Prod.mk.injEq, Except.ok.injEq] at h
    obtain ⟨⟨rfl, rfl⟩, rfl⟩ := h
    obtain ⟨text, after, rfl, htext⟩ := exists_line hlength
    have htake : ∀ others, (text ++ 10 :: others).takeWhile (· != 10) = text := by
      intro others
      rw [List.takeWhile_append_of_pos htext]
      simp
    refine ⟨text ++ [10], by simp [htake], ?_, ?_⟩
    · intro others
      rw [outcome_line]
      simp [htake, Nat.add_assoc]
    · intro short hstart hne
      have hshort : short <+: text := (List.prefix_concat_iff.mp hstart).resolve_left hne
      have hall : short.takeWhile (· != 10) = short :=
        List.takeWhile_eq_self_iff.mpr fun b hb => htext b (hshort.subset hb)
      rw [outcome_line]
      simp only [hall, Nat.lt_irrefl, if_false]
      exact ⟨_, _, rfl⟩
  · simp at h

/-- Readings in sequence take their bytes in sequence. -/
theorem local_bind {r : Reading τ α} {f : α → Reading τ β} (hr : Local r)
    (hf : ∀ a, Local (f a)) : Local (r >>= f) := by
  intro start data w b c w' h
  rcases hfirst : r.outcome ⟨start, data⟩ w with ⟨⟨_ | a, ⟨start₁, data₁⟩⟩, w₁⟩
  · rw [outcome_bind_error hfirst] at h
    simp at h
  · rw [outcome_bind_ok hfirst] at h
    obtain ⟨taken, rfl, htaken⟩ := hr hfirst
    have hstart := htaken.outcome_append data₁
    rw [hfirst] at hstart
    obtain ⟨rfl⟩ : start₁ = start + taken.length := by simpa using hstart
    obtain ⟨taken₁, rfl, htaken₁⟩ := hf a h
    refine ⟨taken ++ taken₁, (List.append_assoc _ _ _).symm, ?_, ?_⟩
    · intro others
      rw [List.append_assoc, outcome_bind_ok (htaken.outcome_append _), htaken₁.outcome_append,
        List.length_append, Nat.add_assoc]
    · intro short hstart hne
      -- The bytes end within those of the first part, or after them.
      by_cases hwhole : taken <+: short
      · obtain ⟨short₁, rfl⟩ := hwhole
        rw [outcome_bind_ok (htaken.outcome_append short₁)]
        exact htaken₁.fails short₁ ((List.prefix_append_right_inj taken).mp hstart) (by simpa using hne)
      · have hshort := (List.prefix_or_prefix_of_prefix hstart
          (List.prefix_append taken taken₁)).resolve_right hwhole
        obtain ⟨place, fault, hfails⟩ := htaken.fails short hshort fun h => hwhole (h ▸ hshort)
        rcases houtcome : r.outcome ⟨start, short⟩ w with ⟨⟨_ | _, c'⟩, w'⟩
        · rw [outcome_bind_error houtcome]
          rw [houtcome] at hfails
          exact ⟨place, fault, congrArg Except.error (Except.error.inj hfails)⟩
        · simp [houtcome] at hfails

end Reading

end ModelGraph.Pickle
