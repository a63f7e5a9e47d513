import ModelGraph.Proofs.Pickle.Stacks

/-!
# Marks as items of the stack

On a stack with marks between the values, a mark hides what is below it until it is taken away. Loading
keeps the values alone, and the heights of the marks beside them. Both do the same, except for dropping a
mark that has values below: with the heights beside the values, the value below is dropped, and the
mark stays.
-/

namespace ModelGraph.Pickle

open Reading Relation

/-- An item of a stack that marks stand on. -/
inductive StackItem where
  | mark
  | value (v : Value)

namespace StackItem

/-- The values above the last mark. -/
def above : List StackItem → List Value
  | .value v :: rest => v :: above rest
  | _ => []

/-- The items below the last mark. -/
def belowMark? : List StackItem → Option (List StackItem)
  | .value _ :: rest => belowMark? rest
  | .mark :: rest => some rest
  | [] => none

/-- All values, without the marks. -/
def values : List StackItem → List Value
  | .value v :: rest => v :: values rest
  | .mark :: rest => values rest
  | [] => []

/-- The number of values below each mark. -/
def markHeights : List StackItem → List Nat
  | .value _ :: rest => markHeights rest
  | .mark :: rest => (values rest).length :: markHeights rest
  | [] => []

@[simp] theorem values_append (vs : List Value) (rest : List StackItem) :
    values (vs.map .value ++ rest) = vs ++ values rest := by
  induction vs with
  | nil => rfl
  | cons v vs ih => rw [List.map_cons, List.cons_append, values, ih, List.cons_append]

@[simp] theorem markHeights_append (vs : List Value) (rest : List StackItem) :
    markHeights (vs.map .value ++ rest) = markHeights rest := by
  induction vs with
  | nil => rfl
  | cons v vs ih => rw [List.map_cons, List.cons_append, markHeights, ih]

/-- The values above the last mark are on top. -/
theorem exists_append (items : List StackItem) : ∃ rest, items = (above items).map .value ++ rest := by
  induction items with
  | nil => exact ⟨[], rfl⟩
  | cons item items ih =>
      cases item with
      | mark => exact ⟨.mark :: items, rfl⟩
      | value v =>
          obtain ⟨rest, hrest⟩ := ih
          exact ⟨rest, congrArg (StackItem.value v :: ·) hrest⟩

theorem eq_append_of_belowMark? {items rest : List StackItem} (h : belowMark? items = some rest) :
    items = (above items).map .value ++ .mark :: rest := by
  induction items with
  | nil => cases h
  | cons item items ih =>
      cases item with
      | mark =>
          cases h
          rfl
      | value v => exact congrArg (StackItem.value v :: ·) (ih h)

end StackItem

open StackItem

/-- A stack with marks on it, its top first, and the memo. -/
structure Marked where
  items : List StackItem := []
  memo : OrderedMap Nat Value := {}

/-- The operations on a stack with marks on it: values are found above the last mark only. -/
def marked : Operations Marked where
  start := {}
  memo m := m.memo
  setMemo m memo := { m with memo }
  push m v := { m with items := .value v :: m.items }
  pop? m :=
    match m.items with
    | .value v :: rest => .ok (v, { m with items := rest })
    | _ => .error .stackUnderflow
  top? m :=
    match m.items with
    | .value v :: _ => .ok v
    | _ => .error .stackUnderflow
  take? m count fault :=
    if (above m.items).length < count then .error fault
    else .ok (((above m.items).take count).reverse, { m with items := m.items.drop count })
  mark m := { m with items := .mark :: m.items }
  discard m := { m with items := m.items.tail }
  dropToMark? m :=
    match belowMark? m.items with
    | some rest => .ok { m with items := rest }
    | none => .error .noMark
  popToMark? m :=
    match belowMark? m.items with
    | some rest => .ok ((above m.items).reverse, { m with items := rest })
    | none => .error .noMark

namespace Marked

/-- The values, with the heights of the marks beside them. -/
def work (m : Marked) : Work := ⟨values m.items, markHeights m.items, m.memo⟩

/-- A mark on top, with values below. -/
def MarkOverValue (m : Marked) : Prop := ∃ rest, m.items = .mark :: rest ∧ values rest ≠ []

/-! ## Operations -/

theorem work_take? (m : Marked) (count : Nat) (fault : PickleFault) (taken : List Value × Marked)
    (h : marked.take? m count fault = .ok taken) :
    m.work.take? count fault = .ok (taken.map id work) := by
  obtain ⟨items, memo⟩ := m
  simp only [marked] at h
  split_ifs at h with hcount
  cases h
  have hle : count ≤ (above items).length := Nat.le_of_not_lt hcount
  -- All that is taken are values, so the marks and their heights stay.
  obtain ⟨rest, hitems⟩ := exists_append items
  have hvalues : values items = above items ++ values rest :=
    (congrArg values hitems).trans (values_append _ _)
  have hheights : markHeights items = markHeights rest :=
    (congrArg markHeights hitems).trans (markHeights_append _ _)
  have hdrop : items.drop count = ((above items).drop count).map .value ++ rest := by
    conv_lhs => rw [hitems]
    rw [List.drop_append_of_le_length (by simpa using hle), List.map_drop]
  have henough : ¬ (values items).length < count := by
    rw [hvalues, List.length_append]
    omega
  rw [work, Work.take?, if_neg henough]
  simp only [Prod.map, id, work, hdrop, values_append, markHeights_append, hvalues, hheights,
    List.take_append_of_le_length hle, List.drop_append_of_le_length hle]

theorem work_eq_of_belowMark? {items rest : List StackItem} (h : belowMark? items = some rest)
    (memo : OrderedMap Nat Value) :
    work ⟨items, memo⟩ =
      ⟨above items ++ values rest, (values rest).length :: markHeights rest, memo⟩ := by
  conv_lhs => rw [eq_append_of_belowMark? h]
  simp only [work, values_append, markHeights_append, values, markHeights]

theorem work_popToMark? (m : Marked) (taken : List Value × Marked)
    (h : marked.popToMark? m = .ok taken) : m.work.popToMark? = .ok (taken.map id work) := by
  obtain ⟨items, memo⟩ := m
  cases hbelow : belowMark? items with
  | none => simp [marked, hbelow] at h
  | some rest =>
      simp only [marked, hbelow, Except.ok.injEq] at h
      subst h
      have hpop := popToMark?_append (values rest) (markHeights rest) memo (above items).reverse
      rw [List.reverse_reverse, ← work_eq_of_belowMark? hbelow] at hpop
      exact hpop

theorem work_dropToMark? (m m' : Marked) (h : marked.dropToMark? m = .ok m') :
    heights.dropToMark? m.work = .ok m'.work := by
  obtain ⟨items, memo⟩ := m
  cases hbelow : belowMark? items with
  | none => simp [marked, hbelow] at h
  | some rest =>
      simp only [marked, hbelow, Except.ok.injEq] at h
      subst h
      rw [work_eq_of_belowMark? hbelow]
      change Except.ok (Work.truncate ⟨above items ++ values rest, markHeights rest, memo⟩
        (values rest).length) = _
      simp [Work.truncate, work]

/-- Loading keeps the values of the stack and the heights of its marks. -/
theorem views_heights : marked.Views heights work where
  start := rfl
  memo _ := rfl
  setMemo _ _ := rfl
  push _ _ := rfl
  pop? m taken h := by
    obtain ⟨items, memo⟩ := m
    rcases items with _ | ⟨_ | v, rest⟩ <;> cases h
    rfl
  top? m v h := by
    obtain ⟨items, memo⟩ := m
    rcases items with _ | ⟨_ | v, rest⟩ <;> cases h
    rfl
  take? := work_take?
  mark _ := rfl
  dropToMark? := work_dropToMark?
  popToMark? := work_popToMark?

/-- Dropping the top item differs just where that is a mark with values below. -/
theorem work_discard_iff (m : Marked) :
    (marked.discard m).work = heights.discard m.work ↔ ¬ m.MarkOverValue := by
  obtain ⟨items, memo⟩ := m
  rcases items with _ | ⟨_ | v, rest⟩
  · simp [marked, heights, work, Work.discard, MarkOverValue, values, markHeights]
  · -- Below a mark it matters whether the values have run out.
    cases hvalues : values rest with
    | nil => simp [marked, heights, work, Work.discard, MarkOverValue, values, markHeights, hvalues]
    | cons v vs =>
        simp [marked, heights, work, Work.discard, MarkOverValue, values, markHeights, hvalues]
  · simp [marked, heights, work, Work.discard, MarkOverValue, values, markHeights]

end Marked

/-! ## Loading -/

section

variable {τ : Type}

/-- A machine with marks on its stack drops no mark that has values below, as it runs from a place. -/
def DropsFreeMarks (resolver : Resolver τ) (persistent : Value → Restore τ Value) (c : Cursor)
    (w : Workspace τ) : Prop :=
  ∀ s, ReflTransGen (Steps marked resolver persistent) ⟨marked.start, c, w⟩ s →
    s.next? = some .pop → ¬ s.stack.MarkOverValue

variable {resolver : Resolver τ} {persistent : Value → Restore τ Value} {count : Nat} {c c' : Cursor}
  {w w' : Workspace τ} {v : Value}

/-- A pickle that a machine with marks on its stack runs to the end is loaded with the same value,
workspace and place, unless the machine drops a mark that has values below. -/
theorem loadOver_heights_of_marked (hfree : DropsFreeMarks resolver persistent c w)
    (hrun : (runOver marked resolver persistent count marked.start).outcome c w =
      ((.ok v, c'), w')) :
    (loadOver heights resolver persistent).outcome c w = ((.ok v, c'), w') ∧
      (resolver = .standard → (loadWith persistent).outcome c w = ((.ok v, c'), w')) := by
  have hload : (loadOver heights resolver persistent).outcome c w = ((.ok v, c'), w') := by
    unfold loadOver
    rw [outcome_bind_ok (outcome_cursor c w)]
    apply Marked.views_heights.run (s := ⟨marked.start, c, w⟩) _ hrun (Nat.lt_succ_self _)
    intro s hs hnext
    exact s.stack.work_discard_iff.mpr (hfree s hs hnext)
  refine ⟨hload, ?_⟩
  rintro rfl
  rwa [loadOver_heights] at hload

end

/-- Drops a mark with nothing below. -/
def droppedMark : Cursor := ⟨0, [0x28, 0x30, 0x4e, 0x2e]⟩

theorem loadOver_heights_droppedMark :
    DropsFreeMarks .standard refuse droppedMark ⟨default, ()⟩ ∧
    (runOver marked .standard refuse 4 marked.start).outcome droppedMark ⟨default, ()⟩ =
      ((.ok .none, ⟨4, []⟩), ⟨default, ()⟩) ∧
    (loadWith refuse).outcome droppedMark ⟨default, ()⟩ =
      ((.ok .none, ⟨4, []⟩), ⟨default, ()⟩) := by
  have hfree : DropsFreeMarks .standard refuse droppedMark ⟨default, ()⟩ := by
    have hmark : Steps marked .standard refuse ⟨{}, droppedMark, ⟨default, ()⟩⟩
        ⟨⟨[.mark], {}⟩, ⟨1, [0x30, 0x4e, 0x2e]⟩, ⟨default, ()⟩⟩ := ⟨.mark, rfl, by decide, rfl⟩
    have hdrop : Steps marked .standard refuse
        ⟨⟨[.mark], {}⟩, ⟨1, [0x30, 0x4e, 0x2e]⟩, ⟨default, ()⟩⟩
        ⟨{}, ⟨2, [0x4e, 0x2e]⟩, ⟨default, ()⟩⟩ := ⟨.pop, rfl, by decide, rfl⟩
    have hnone : Steps marked .standard refuse ⟨{}, ⟨2, [0x4e, 0x2e]⟩, ⟨default, ()⟩⟩
        ⟨⟨[.value .none], {}⟩, ⟨3, [0x2e]⟩, ⟨default, ()⟩⟩ := ⟨.none, rfl, by decide, rfl⟩
    intro s hs hnext
    rcases hmark.eq_or_reaches hs with rfl | hs
    · exact absurd hnext (by decide)
    rcases hdrop.eq_or_reaches hs with rfl | hs
    · rintro ⟨rest, hitems, hvalues⟩
      cases hitems
      exact hvalues rfl
    rcases hnone.eq_or_reaches hs with rfl | hs
    · exact absurd hnext (by decide)
    obtain rfl := eq_of_reaches_of_stop rfl hs
    exact absurd hnext (by decide)
  have hrun : (runOver marked .standard refuse 4 marked.start).outcome droppedMark ⟨default, ()⟩ =
      ((.ok .none, ⟨4, []⟩), ⟨default, ()⟩) := rfl
  exact ⟨hfree, hrun, (loadOver_heights_of_marked hfree hrun).2 rfl⟩

end ModelGraph.Pickle
