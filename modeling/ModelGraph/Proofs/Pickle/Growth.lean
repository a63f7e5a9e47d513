import Mathlib.Logic.Function.Basic
import Mathlib.Tactic.SplitIfs
import ModelGraph.Proofs.Object.Heap
import ModelGraph.Proofs.Pickle.ObjectGraph

/-!
# Objects met so far

While a graph is read, more and more of its objects are met. What is met newly is in a new place of its
own on the heap and holds what the graph says, with parts that are met too; what was there before stays
as it was. Steps of this kind compose, and the newest object of a graph extends one among the older.
-/

namespace ModelGraph.Pickle

/-! ## Growing what has been met -/

/-- From the objects met first to those met by now: places stay, objects on the heap stay, and what
was met newly is complete and in a new place of its own. -/
structure Grows {n : Nat} (g : ObjectGraph n) (seen seen' : List Nat) (place place' : Nat → Nat)
    (h h' : Heap) : Prop where
  subset : seen ⊆ seen'
  place_eq : ∀ j ∈ seen, place' j = place j
  size_le : h.size ≤ h'.size
  get?_eq : ∀ id < h.size, h'.get? id = h.get? id
  lt_of_new : ∀ j ∈ seen', j ∉ seen → j < n
  new_place : ∀ j ∈ seen', j ∉ seen → h.size ≤ place' j ∧ place' j < h'.size
  new_object : ∀ j ∈ seen', j ∉ seen → h'.get? (place' j) = g.object? place' j
  new_parts : ∀ j ∈ seen', j ∉ seen → g.parts j ⊆ seen'
  distinct : ∀ j ∈ seen', ∀ k ∈ seen', j ∉ seen → k ∉ seen → place' j = place' k → j = k

variable {n : Nat}

/-! Values and objects depend on the places of their parts only. -/

theorem Item.value_congr {place place' : Nat → Nat} (item : Item n)
    (h : ∀ j, item.part? = some j → place' j = place j) : item.value place' = item.value place := by
  cases item with
  | object j => simp [value, h j rfl]
  | _ => rfl

theorem values_congr {place place' : Nat → Nat} (items : List (Item n))
    (h : ∀ j ∈ items.filterMap Item.part?, place' j = place j) :
    items.map (·.value place') = items.map (·.value place) := by
  refine List.map_congr_left fun item hitem => item.value_congr fun j hj => h j ?_
  exact List.mem_filterMap.mpr ⟨item, hitem, hj⟩

theorem Node.object_congr {place place' : Nat → Nat} (node : Node n)
    (h : ∀ j ∈ node.parts, place' j = place j) : node.object place' = node.object place := by
  cases node with
  | bytes data => rfl
  | list items => simp only [object, values_congr items h]
  | tuple items => simp only [object, values_congr items h]
  | dict entries distinct =>
      have hentries : ∀ e ∈ entries, e.2.value place' = e.2.value place := by
        intro e he
        refine e.2.value_congr fun j hj => h j ?_
        exact List.mem_filterMap.mpr ⟨e.2, List.mem_map_of_mem he, hj⟩
      simp only [object]
      congr 2
      exact List.map_congr_left fun e he => by rw [hentries e he]

theorem ObjectGraph.object?_congr {place place' : Nat → Nat} (g : ObjectGraph n) {j : Nat}
    (h : ∀ k ∈ g.parts j, place' k = place k) : g.object? place' j = g.object? place j := by
  induction g with
  | empty => rfl
  | add older newest ih =>
      unfold ObjectGraph.object?
      unfold ObjectGraph.parts at h
      split_ifs at h ⊢ with hj
      · rw [newest.object_congr h]
      · exact ih h

namespace Grows

variable {g : ObjectGraph n} {seen seen₁ seen₂ : List Nat} {place place₁ place₂ : Nat → Nat}
  {h h₁ h₂ : Heap}

theorem refl (g : ObjectGraph n) (seen : List Nat) (place : Nat → Nat) (h : Heap) :
    Grows g seen seen place place h h where
  subset := List.Subset.refl seen
  place_eq _ _ := rfl
  size_le := Nat.le_refl _
  get?_eq _ _ := rfl
  lt_of_new _ hj hnew := absurd hj hnew
  new_place _ hj hnew := absurd hj hnew
  new_object _ hj hnew := absurd hj hnew
  new_parts _ hj hnew := absurd hj hnew
  distinct _ hj _ _ hnew := absurd hj hnew

theorem trans (h₀₁ : Grows g seen seen₁ place place₁ h h₁)
    (h₁₂ : Grows g seen₁ seen₂ place₁ place₂ h₁ h₂) :
    Grows g seen seen₂ place place₂ h h₂ where
  subset := List.Subset.trans h₀₁.subset h₁₂.subset
  place_eq j hj := (h₁₂.place_eq j (h₀₁.subset hj)).trans (h₀₁.place_eq j hj)
  size_le := Nat.le_trans h₀₁.size_le h₁₂.size_le
  get?_eq id hid :=
    (h₁₂.get?_eq id (Nat.lt_of_lt_of_le hid h₀₁.size_le)).trans (h₀₁.get?_eq id hid)
  lt_of_new j hj hnew := by
    by_cases hmet : j ∈ seen₁
    · exact h₀₁.lt_of_new j hmet hnew
    · exact h₁₂.lt_of_new j hj hmet
  new_place j hj hnew := by
    by_cases hmet : j ∈ seen₁
    · have hplace := h₀₁.new_place j hmet hnew
      rw [h₁₂.place_eq j hmet]
      exact ⟨hplace.1, Nat.lt_of_lt_of_le hplace.2 h₁₂.size_le⟩
    · have hplace := h₁₂.new_place j hj hmet
      exact ⟨Nat.le_trans h₀₁.size_le hplace.1, hplace.2⟩
  new_object j hj hnew := by
    by_cases hmet : j ∈ seen₁
    · have hparts := h₀₁.new_parts j hmet hnew
      rw [h₁₂.place_eq j hmet, h₁₂.get?_eq _ (h₀₁.new_place j hmet hnew).2,
        h₀₁.new_object j hmet hnew]
      exact (g.object?_congr fun k hk => h₁₂.place_eq k (hparts hk)).symm
    · exact h₁₂.new_object j hj hmet
  new_parts j hj hnew := by
    by_cases hmet : j ∈ seen₁
    · exact List.Subset.trans (h₀₁.new_parts j hmet hnew) h₁₂.subset
    · exact h₁₂.new_parts j hj hmet
  distinct j hj k hk hnew hnew' hplace := by
    -- What was met earlier lies below what was met later.
    by_cases hmet : j ∈ seen₁ <;> by_cases hmet' : k ∈ seen₁
    · rw [h₁₂.place_eq j hmet, h₁₂.place_eq k hmet'] at hplace
      exact h₀₁.distinct j hmet k hmet' hnew hnew' hplace
    · have hlow := (h₀₁.new_place j hmet hnew).2
      have hhigh := (h₁₂.new_place k hk hmet').1
      rw [h₁₂.place_eq j hmet] at hplace
      omega
    · have hlow := (h₀₁.new_place k hmet' hnew').2
      have hhigh := (h₁₂.new_place j hj hmet).1
      rw [h₁₂.place_eq k hmet'] at hplace
      omega
    · exact h₁₂.distinct j hj k hk hmet hmet' hplace

theorem lt_size {size : Nat} (hgrows : Grows g seen seen₁ place place₁ h h₁) (hn : n ≤ size)
    (hseen : ∀ j ∈ seen, j < size) : ∀ j ∈ seen₁, j < size := by
  intro j hj
  by_cases hmet : j ∈ seen
  · exact hseen j hmet
  · exact Nat.lt_of_lt_of_le (hgrows.lt_of_new j hj hmet) hn

/-- What grows among the older objects grows in the whole graph. -/
theorem lift {older : ObjectGraph n} (newest : Node n)
    (hgrows : Grows older seen seen₁ place place₁ h h₁) :
    Grows (older.add newest) seen seen₁ place place₁ h h₁ where
  subset := hgrows.subset
  place_eq := hgrows.place_eq
  size_le := hgrows.size_le
  get?_eq := hgrows.get?_eq
  lt_of_new j hj hnew := Nat.lt_succ_of_lt (hgrows.lt_of_new j hj hnew)
  new_place := hgrows.new_place
  new_object j hj hnew := by
    rw [hgrows.new_object j hj hnew, ObjectGraph.object?,
      if_neg (Nat.ne_of_lt (hgrows.lt_of_new j hj hnew))]
  new_parts j hj hnew := by
    rw [ObjectGraph.parts, if_neg (Nat.ne_of_lt (hgrows.lt_of_new j hj hnew))]
    exact hgrows.new_parts j hj hnew
  distinct := hgrows.distinct

/-- The newest object is put on the heap, its parts are met, and it is filled with them. -/
theorem fill {older : ObjectGraph n} {newest : Node n} {o : Object} (hseen : n ∉ seen)
    (hgrows : Grows older (n :: seen) seen₁ (Function.update place n h.size) place₁ (h.push o) h₁)
    (hparts : newest.parts ⊆ seen₁) (hfilled : h₁.Updates h.size (newest.object place₁) h₂) :
    Grows (older.add newest) seen seen₁ place place₁ h h₂ := by
  have hsize : h.size < h₁.size := by
    have := hgrows.size_le
    rw [Heap.size_push] at this
    omega
  have hplace : place₁ n = h.size := by
    rw [hgrows.place_eq n (by simp), Function.update_self]
  have hother : ∀ j, j ∉ seen → j ≠ n → j ∉ n :: seen := fun j hnew hne => by
    simp [hne, hnew]
  have habove : ∀ j ∈ seen₁, j ∉ seen → j ≠ n → h.size < place₁ j := by
    intro j hj hnew hne
    have := (hgrows.new_place j hj (hother j hnew hne)).1
    rw [Heap.size_push] at this
    omega
  constructor
  case subset => exact fun j hj => hgrows.subset (List.mem_cons_of_mem _ hj)
  case place_eq =>
    intro j hj
    have hne : j ≠ n := fun heq => hseen (heq ▸ hj)
    rw [hgrows.place_eq j (List.mem_cons_of_mem _ hj), Function.update_of_ne hne]
  case size_le =>
    rw [hfilled.size_eq]
    exact Nat.le_of_lt hsize
  case get?_eq =>
    intro id hid
    rw [hfilled.get?_of_ne id (Nat.ne_of_lt hid),
      hgrows.get?_eq id (by rw [Heap.size_push]; omega), Heap.get?_push_of_lt hid]
  case lt_of_new =>
    intro j hj hnew
    by_cases hne : j = n
    · exact hne ▸ Nat.lt_succ_self n
    · exact Nat.lt_succ_of_lt (hgrows.lt_of_new j hj (hother j hnew hne))
  case new_place =>
    intro j hj hnew
    rw [hfilled.size_eq]
    by_cases hne : j = n
    · rw [hne, hplace]
      exact ⟨Nat.le_refl _, hsize⟩
    · exact ⟨Nat.le_of_lt (habove j hj hnew hne),
        (hgrows.new_place j hj (hother j hnew hne)).2⟩
  case new_object =>
    intro j hj hnew
    rw [ObjectGraph.object?]
    split_ifs with hne
    · rw [hne, hplace, hfilled.get?_self]
    · rw [hfilled.get?_of_ne _ (Nat.ne_of_gt (habove j hj hnew hne)),
        hgrows.new_object j hj (hother j hnew hne)]
  case new_parts =>
    intro j hj hnew
    rw [ObjectGraph.parts]
    split_ifs with hne
    · exact hparts
    · exact hgrows.new_parts j hj (hother j hnew hne)
  case distinct =>
    intro j hj k hk hnew hnew' heq
    by_cases hne : j = n <;> by_cases hne' : k = n
    · rw [hne, hne']
    · have := habove k hk hnew' hne'
      rw [hne, hplace] at heq
      omega
    · have := habove j hj hnew hne
      rw [hne', hplace] at heq
      omega
    · exact hgrows.distinct j hj k hk (hother j hnew hne) (hother k hnew' hne') heq

end Grows

end ModelGraph.Pickle
