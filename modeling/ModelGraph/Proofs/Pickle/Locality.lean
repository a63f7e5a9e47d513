import ModelGraph.Proofs.Pickle.Steps

/-!
# Pickles are read from their own bytes

Every instruction is local, and so is every run of instructions. The bound of a run does not matter
once it is larger than the number of bytes left, since every instruction takes a byte; so loading is
local too.
-/

namespace ModelGraph.Pickle

open Reading

variable {τ : Type}

/-! ## Runs -/

theorem local_congruence : ReadingCongruence (τ := τ) (σ := τ) fun _ r _ => Local r where
  pure := local_pure
  bind := local_bind
  offset := local_offset
  failAt := local_failAt
  bytes := local_bytes
  line := local_line
  heap := local_act _
  exec _ := local_act _

theorem local_step (persistent : Value → Restore τ Value) (offset : Nat) (op : Opcode) (w : Work) :
    Local (step persistent offset op w) :=
  local_congruence.step persistent persistent (fun id => local_act (persistent id)) offset op w

/-- A run with a given bound is local. -/
theorem local_run (persistent : Value → Restore τ Value) (count : Nat) (w : Work) :
    Local (run persistent count w) :=
  local_congruence.run persistent persistent (fun id => local_act (persistent id)) count w

/-- Every instruction takes a byte, so a run ends before its bound if that is larger than the number of
bytes. -/
theorem run_bound (persistent : Value → Restore τ Value) {n m : Nat} (work : Work) {c : Cursor}
    (w : Workspace τ) (hn : c.rest.length < n) (hm : c.rest.length < m) :
    (run persistent n work).outcome c w = (run persistent m work).outcome c w := by
  induction n generalizing m work c w with
  | zero => exact absurd hn (Nat.not_lt_zero _)
  | succ n ih =>
      obtain ⟨m, rfl⟩ := Nat.exists_eq_succ_of_ne_zero (Nat.ne_zero_of_lt hm)
      unfold run
      refine outcome_bind_congr fun start c₁ w₁ hoffset => outcome_bind_congr fun taken c₂ w₂ hbyte => ?_
      have hc₁ : c = c₁ := by simpa using congrArg (·.1.2) hoffset
      have hrest : c₂.rest.length < c.rest.length := by
        rw [outcome_bytes] at hbyte
        split_ifs at hbyte with hlength
        · simp at hbyte
        · rw [hc₁]
          simp only [Prod.mk.injEq] at hbyte
          rw [← hbyte.1.2]
          simp only [List.length_drop]
          omega
      dsimp only
      split
      · rfl
      · rfl
      · refine outcome_bind_congr fun work' c₃ w₃ hstep => ?_
        obtain ⟨bytes, hsplit, -⟩ := local_step persistent _ _ _ hstep
        have hle : c₃.rest.length ≤ c₂.rest.length := by simp [hsplit]
        exact ih work' w₃ (by omega) (by omega)

theorem outcome_loadWith (persistent : Value → Restore τ Value) {n : Nat} {c : Cursor}
    (w : Workspace τ) (hn : c.rest.length < n) :
    (loadWith persistent).outcome c w = (run persistent n {}).outcome c w := by
  unfold loadWith
  rw [outcome_bind_ok (outcome_cursor c w)]
  exact run_bound persistent {} w (Nat.lt_succ_self _) hn

theorem local_loadWith (persistent : Value → Restore τ Value) : Local (loadWith persistent) := by
  intro start data w v c w' h
  rw [outcome_loadWith persistent w (Nat.lt_succ_self _)] at h
  obtain ⟨taken, rfl, -⟩ := local_run persistent _ {} h
  -- For bytes of any length, a bound is taken that is enough for them and for those given.
  have hbound : ∀ others : Bytes, ∃ n, others.length < n ∧
      (run persistent n {}).Takes taken start w v w' := by
    intro others
    let n := (taken ++ c.rest).length + others.length + 1
    have hrun := run_bound persistent {} w (c := ⟨start, taken ++ c.rest⟩) (n := n)
      (Nat.lt_succ_of_le (Nat.le_add_right _ _)) (Nat.lt_succ_self _)
    obtain ⟨taken', htaken', htakes⟩ := local_run persistent n {} (hrun.trans h)
    obtain rfl := List.append_cancel_right htaken'
    exact ⟨n, by omega, htakes⟩
  refine ⟨taken, rfl, fun others => ?_, fun short hstart hne => ?_⟩
  · obtain ⟨n, hn, htakes⟩ := hbound (taken ++ others)
    rw [outcome_loadWith persistent w hn]
    exact htakes.outcome_append others
  · obtain ⟨n, hn, htakes⟩ := hbound short
    rw [outcome_loadWith persistent w hn]
    exact htakes.fails short hstart hne

/-- A pickle is read from exactly its own bytes: whatever follows them changes neither the value, nor
the workspace, nor the place where reading stops, and no shorter part of them is accepted. -/
theorem loadWith_take (persistent : Value → Restore τ Value) {start : Nat} {data : Bytes}
    {w w' : Workspace τ} {v : Value} {c : Cursor}
    (h : (loadWith persistent).outcome ⟨start, data⟩ w = ((.ok v, c), w')) :
    ∃ p ≤ data.length, c = ⟨start + p, data.drop p⟩ ∧
      (∀ suffix, (loadWith persistent).outcome ⟨start, data.take p ++ suffix⟩ w =
        ((.ok v, ⟨start + p, suffix⟩), w')) ∧
      ∀ k < p, FailsAsPickle ((loadWith persistent).outcome ⟨start, data.take k⟩ w) := by
  obtain ⟨taken, rfl, htakes⟩ := local_loadWith persistent h
  have hplace : c.offset = start + taken.length := by
    have hsame := h.symm.trans (htakes.outcome_append c.rest)
    simpa using congrArg (·.1.2.offset) hsame
  refine ⟨taken.length, by simp, ?_, fun suffix => ?_, fun k hk => ?_⟩
  · rw [List.drop_left, ← hplace]
  · rw [List.take_left]
    exact htakes.outcome_append suffix
  · rw [List.take_append_of_le_length (Nat.le_of_lt hk)]
    refine htakes.fails _ (List.take_prefix k taken) fun heq => ?_
    have hlength := congrArg List.length heq
    rw [List.length_take] at hlength
    omega

/-- Answers an outside reference with the reference itself, and counts it. -/
def countReference (id : Value) : Restore Nat Value := do
  modify fun w => { w with table := w.table + 1 }
  return id

/-- A reference in a line, the end of the pickle, and a byte that follows. -/
theorem loadWith_take_reference :
    ∃ p ≤ [0x50, 0x61, 0x0a, 0x2e, 0x07].length,
      (⟨4, [0x07]⟩ : Cursor) = ⟨0 + p, ([0x50, 0x61, 0x0a, 0x2e, 0x07] : Bytes).drop p⟩ ∧
      (∀ suffix, (loadWith countReference).outcome
          ⟨0, ([0x50, 0x61, 0x0a, 0x2e, 0x07] : Bytes).take p ++ suffix⟩ ⟨{ heap := {} }, 0⟩ =
        ((.ok (.str "a"), ⟨0 + p, suffix⟩), ⟨{ heap := {} }, 1⟩)) ∧
      ∀ k < p, FailsAsPickle ((loadWith countReference).outcome
        ⟨0, ([0x50, 0x61, 0x0a, 0x2e, 0x07] : Bytes).take k⟩ ⟨{ heap := {} }, 0⟩) :=
  loadWith_take countReference
    (show (loadWith countReference).outcome ⟨0, [0x50, 0x61, 0x0a, 0x2e, 0x07]⟩ ⟨{ heap := {} }, 0⟩ =
      ((.ok (.str "a"), ⟨4, [0x07]⟩), ⟨{ heap := {} }, 1⟩) by rfl)

end ModelGraph.Pickle
