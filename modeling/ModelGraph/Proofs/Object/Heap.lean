import ModelGraph.Object.Heap

/-!
# Growth and change of the heap

A new object gets the next number and leaves all others alone; a change touches one object.
-/

namespace ModelGraph.Heap

@[simp] theorem size_push (h : Heap) (o : Object) : (h.push o).size = h.size + 1 :=
  Array.size_push o

@[simp] theorem get?_push_size (h : Heap) (o : Object) : (h.push o).get? h.size = some o :=
  Array.getElem?_push_size

theorem get?_push_of_lt {h : Heap} {id : Nat} (hid : id < h.size) (o : Object) :
    (h.push o).get? id = h.get? id := by
  simp [get?, push, Array.getElem?_push, Nat.ne_of_lt (show id < h.objects.size from hid)]

/-- A value that is an object has a number below the size. -/
theorem exists_ref_of_object {h : Heap} {v : Value} {o : Object} (ho : h.object? v = some o) :
    ∃ id, v = .ref id ∧ id < h.size := by
  cases v with
  | ref id =>
      refine ⟨id, rfl, Nat.lt_of_not_le fun hle => ?_⟩
      have hnone : h.objects[id]? = none := Array.getElem?_eq_none hle
      cases hnone.symm.trans ho
  | _ => cases ho

theorem storage?_eq_some_iff {h : Heap} {v : Value} {s : StorageObject} :
    h.storage? v = some s ↔ ∃ id, v = .ref id ∧ h.get? id = some (.storage s) := by
  constructor
  · intro hs
    cases v with
    | ref id =>
        refine ⟨id, rfl, ?_⟩
        have hobject : h.object? (.ref id) = h.get? id := rfl
        rw [storage?, hobject] at hs
        split at hs <;> cases hs
        assumption
    | _ => cases hs
  · rintro ⟨id, rfl, hid⟩
    have hobject : h.object? (.ref id) = h.get? id := rfl
    rw [storage?, hobject, hid]

/-- The second heap has all objects of the first one as they are. -/
def Extends (h h' : Heap) : Prop := ∀ ⦃id o⦄, h.get? id = some o → h'.get? id = some o

theorem Extends.refl (h : Heap) : h.Extends h := fun _ _ hid => hid

theorem Extends.trans {h₀ h₁ h₂ : Heap} (first : h₀.Extends h₁) (second : h₁.Extends h₂) :
    h₀.Extends h₂ := fun _ _ hid => second (first hid)

theorem extends_push (h : Heap) (o : Object) : h.Extends (h.push o) := by
  intro id o' hid
  obtain ⟨_, hvalue, hlt⟩ := exists_ref_of_object (v := .ref id) hid
  cases hvalue
  rwa [get?_push_of_lt hlt]

/-- The second heap is the first with another object in one place. -/
structure Updates (h : Heap) (id : Nat) (o : Object) (h' : Heap) : Prop where
  size_eq : h'.size = h.size
  get?_self : h'.get? id = some o
  get?_of_ne : ∀ other, other ≠ id → h'.get? other = h.get? other

theorem updates_modify {h : Heap} {id : Nat} {o o' : Object} {change : Object → Object}
    (hid : h.get? id = some o) (hchange : change o = o') :
    h.Updates id o' (h.modify id change) where
  size_eq := Array.size_modify
  get?_self := by
    have hmem : h.objects[id]? = some o := hid
    simp [get?, modify, Array.getElem?_modify, hmem, hchange]
  get?_of_ne other hother := by
    simp [get?, modify, Array.getElem?_modify, Ne.symm hother]

/-- A change of a new object. -/
theorem Extends.updates {h₀ h₁ h₂ : Heap} {id : Nat} {o : Object} (hext : h₀.Extends h₁)
    (hnew : h₀.size ≤ id) (h : h₁.Updates id o h₂) : h₀.Extends h₂ := by
  intro other o' hother
  obtain ⟨_, hvalue, hlt⟩ := exists_ref_of_object (v := .ref other) hother
  cases hvalue
  rw [h.get?_of_ne other (Nat.ne_of_lt (Nat.lt_of_lt_of_le hlt hnew))]
  exact hext hother

theorem updates_setItem {h : Heap} {id : Nat} {d : Dict} (hid : h.get? id = some (.dict d))
    (key value : Value) :
    h.Updates id (.dict (d.insert (.ofValue key) value)) (h.setItem (.ref id) key value) :=
  updates_modify hid rfl

theorem Updates.trans {h₀ h₁ h₂ : Heap} {id : Nat} {o₁ o₂ : Object} (h : h₀.Updates id o₁ h₁)
    (h' : h₁.Updates id o₂ h₂) : h₀.Updates id o₂ h₂ where
  size_eq := h'.size_eq.trans h.size_eq
  get?_self := h'.get?_self
  get?_of_ne other hother := (h'.get?_of_ne other hother).trans (h.get?_of_ne other hother)

end ModelGraph.Heap
