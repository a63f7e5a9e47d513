import Mathlib.Tactic.SplitIfs
import ModelGraph.Object.Scope
import ModelGraph.Proofs.Object.Heap

/-!
# The heap under scripts

Every change that a script makes to the heap leaves the kinds of old objects alone, and with them
tags, storages and functions. The objects it adds have empty tags, and storages among them have no
data. Only tracing writes tags, and only the loading of checkpoints fills storages.
-/

namespace ModelGraph

namespace Object

/-- What no script changes of an object. -/
def frame : Object → Object
  | .list _ => .list []
  | .dict _ => .dict {}
  | .bytes _ => .bytes []
  | .namespace _ => .namespace {}
  | .class c => .class { c with fields := {} }
  | .instance i => .instance { module := "", name := "", tag := i.tag }
  | o => o

/-- The tag of an instance. -/
def tag? : Object → Option Tag
  | .instance i => some i.tag
  | _ => none

@[simp] theorem tag?_frame (o : Object) : o.frame.tag? = o.tag? := by
  cases o <;> rfl

@[simp] theorem frame_mapFields (change : Fields → Fields) (o : Object) :
    (o.mapFields change).frame = o.frame := by
  cases o <;> rfl

/-- What scripts put on the heap; whether definitions are among it, `code` says. -/
def New (code : Prop) : Object → Prop
  | .instance i => i.tag = {}
  | .storage s => s.storage = .declare s.storage.elementType s.storage.size
  | .function _ => code
  | _ => True

theorem new_frame (code : Prop) (o : Object) : o.frame.New code = o.New code := by
  cases o <;> rfl

theorem eq_storage_of_frame {o : Object} {s : StorageObject} (h : o.frame = .storage s) :
    o = .storage s := by
  cases o <;> first | exact h | cases h

theorem eq_function_of_frame {o : Object} {f : FunctionObject} (h : o.frame = .function f) :
    o = .function f := by
  cases o <;> first | exact h | cases h

end Object

namespace Heap

theorem tag?_eq (h : Heap) (id : Nat) : h.tag? id = (h.get? id).bind Object.tag? := by
  unfold tag?
  cases h.get? id with
  | none => rfl
  | some o => cases o <;> rfl

theorem get?_push (h : Heap) (o : Object) (id : Nat) :
    (h.push o).get? id = if id = h.size then some o else h.get? id := by
  rw [get?, push, Array.getElem?_push]
  rfl

theorem tag?_push (h : Heap) (o : Object) (id : Nat) :
    (h.push o).tag? id = if id = h.size then o.tag? else h.tag? id := by
  rw [tag?_eq, tag?_eq, get?_push]
  split_ifs <;> rfl

theorem get?_modify (h : Heap) (id other : Nat) (change : Object → Object) :
    (h.modify id change).get? other =
      if id = other then (h.get? id).map change else h.get? other := by
  simp only [get?, modify, Array.getElem?_modify]
  split_ifs with heq
  · rw [heq]
  · rfl

theorem tag?_modify (h : Heap) (id other : Nat) (change : Object → Object) :
    (h.modify id change).tag? other =
      if id = other then ((h.get? id).map change).bind Object.tag? else h.tag? other := by
  rw [tag?_eq, tag?_eq, get?_modify]
  split_ifs <;> rfl

theorem get?_eq_none_of_le {h : Heap} {id : Nat} (hid : h.size ≤ id) : h.get? id = none :=
  Array.getElem?_eq_none hid

theorem lt_size_of_get? {h : Heap} {id : Nat} {o : Object} (ho : h.get? id = some o) :
    id < h.size := by
  refine Nat.lt_of_not_le fun hle => ?_
  rw [get?_eq_none_of_le hle] at ho
  contradiction

theorem tag?_eq_none_of_le {h : Heap} {id : Nat} (hid : h.size ≤ id) : h.tag? id = none := by
  rw [tag?_eq, get?_eq_none_of_le hid]
  rfl

@[simp] theorem size_modify (h : Heap) (id : Nat) (change : Object → Object) :
    (h.modify id change).size = h.size :=
  Array.size_modify

/-- The second heap has the first one's objects, as far as no script changes them, and further ones
that scripts make. -/
structure Grows (code : Prop) (h h' : Heap) : Prop where
  size_le : h.size ≤ h'.size
  frame_of_lt : ∀ {id}, id < h.size → (h'.get? id).map Object.frame = (h.get? id).map Object.frame
  new : ∀ {id o}, h.size ≤ id → h'.get? id = some o → o.New code

variable {code : Prop}

namespace Grows

variable {h h' h'' : Heap}

theorem refl (h : Heap) : h.Grows code h where
  size_le := Nat.le_refl _
  frame_of_lt _ := rfl
  new hid ho := by
    rw [get?_eq_none_of_le hid] at ho
    contradiction

theorem exists_get? (hgrows : h.Grows code h') {id : Nat} {o : Object} (hid : h.get? id = some o) :
    ∃ o', h'.get? id = some o' ∧ o'.frame = o.frame := by
  have hframe := hgrows.frame_of_lt (lt_size_of_get? hid)
  rw [hid] at hframe
  exact Option.map_eq_some_iff.mp hframe

theorem exists_get?_of_lt (hgrows : h.Grows code h') {id : Nat} {o' : Object} (hlt : id < h.size)
    (hid : h'.get? id = some o') : ∃ o, h.get? id = some o ∧ o.frame = o'.frame := by
  have hframe := hgrows.frame_of_lt hlt
  rw [hid] at hframe
  exact Option.map_eq_some_iff.mp hframe.symm

theorem trans (first : h.Grows code h') (second : h'.Grows code h'') : h.Grows code h'' where
  size_le := Nat.le_trans first.size_le second.size_le
  frame_of_lt hid :=
    (second.frame_of_lt (Nat.lt_of_lt_of_le hid first.size_le)).trans (first.frame_of_lt hid)
  new {id o} hid ho := by
    rcases Nat.lt_or_ge id h'.size with hold | hnew
    · obtain ⟨o', ho', heq⟩ := second.exists_get?_of_lt hold ho
      rw [← Object.new_frame, ← heq, Object.new_frame]
      exact first.new hid ho'
    · exact second.new hnew ho

theorem tag?_of_lt (hgrows : h.Grows code h') {id : Nat} (hid : id < h.size) :
    h'.tag? id = h.tag? id := by
  have htag (h : Heap) : h.tag? id = ((h.get? id).map Object.frame).bind Object.tag? := by
    rw [tag?_eq]
    cases h.get? id <;> simp
  rw [htag, htag, hgrows.frame_of_lt hid]

theorem tag?_new (hgrows : h.Grows code h') {id : Nat} {t : Tag} (hid : h.size ≤ id)
    (ht : h'.tag? id = some t) : t = {} := by
  rw [tag?_eq] at ht
  obtain ⟨o, ho, htag⟩ := Option.bind_eq_some_iff.mp ht
  have hnew := hgrows.new hid ho
  cases o with
  | «instance» i =>
      cases htag
      exact hnew
  | _ => cases htag

/-- Storages stay as they are. -/
theorem get?_storage (hgrows : h.Grows code h') {id : Nat} {s : StorageObject}
    (hid : h.get? id = some (.storage s)) : h'.get? id = some (.storage s) := by
  obtain ⟨o, ho, heq⟩ := hgrows.exists_get? hid
  rw [ho, Object.eq_storage_of_frame heq]

/-- Functions stay as they are, and there are no further ones where no definitions are added. -/
theorem get?_function (hgrows : h.Grows False h') {id : Nat} {f : FunctionObject}
    (hid : h'.get? id = some (.function f)) : h.get? id = some (.function f) := by
  rcases Nat.lt_or_ge id h.size with hold | hnew
  · obtain ⟨o, ho, heq⟩ := hgrows.exists_get?_of_lt hold hid
    rw [ho, Object.eq_function_of_frame heq]
  · exact (hgrows.new hnew hid).elim

end Grows

theorem grows_push (h : Heap) {o : Object} (ho : o.New code) : h.Grows code (h.push o) where
  size_le := by simp
  frame_of_lt hid := by rw [get?_push, if_neg (Nat.ne_of_lt hid)]
  new {id o'} hid ho' := by
    rw [get?_push] at ho'
    split_ifs at ho' with heq
    · cases ho'
      exact ho
    · rw [get?_eq_none_of_le hid] at ho'
      contradiction

theorem grows_modify (h : Heap) (id : Nat) {change : Object → Object}
    (hchange : ∀ o, (change o).frame = o.frame) : h.Grows code (h.modify id change) where
  size_le := by simp
  frame_of_lt {other} _ := by
    rw [get?_modify]
    split_ifs with heq
    · rw [← heq]
      cases h.get? id <;> simp [hchange]
    · rfl
  new {other o} hother ho := by
    have hlt := lt_size_of_get? ho
    rw [size_modify] at hlt
    exact absurd hother (Nat.not_le_of_lt hlt)

theorem grows_setAttribute (h : Heap) (v : Value) (name : String) (value : Value) :
    h.Grows code (h.setAttribute v name value) := by
  cases v with
  | ref id =>
      refine grows_modify h id fun o => ?_
      cases o <;> rfl
  | _ => exact .refl h

theorem grows_setAttributes (h : Heap) (v : Value) (entries : List (String × Value)) :
    h.Grows code (h.setAttributes v entries) := by
  induction entries generalizing h with
  | nil => exact .refl h
  | cons e rest ih => exact (grows_setAttribute h v e.1 e.2).trans (ih _)

theorem grows_setItem (h : Heap) (v index value : Value) :
    h.Grows code (h.setItem v index value) := by
  cases v with
  | ref id =>
      refine grows_modify h id fun o => ?_
      cases o with
      | list items => dsimp only; split <;> rfl
      | dict d => rfl
      | _ => dsimp only; split <;> rfl
  | _ => exact .refl h

theorem grows_assign (h : Heap) (scope : Scope) (name : String) (value : Value) :
    h.Grows code (h.assign scope name value) := by
  cases scope with
  | nil => exact .refl h
  | cons id _ => exact grows_modify h id fun o => o.frame_mapFields _

theorem grows_child (h : Heap) (parent : Value) (name : String) :
    h.Grows code (h.child parent name).2 := by
  unfold child
  split
  · exact .refl h
  · exact (grows_push h (o := .namespace {}) trivial).trans (grows_setAttribute _ _ _ _)

theorem grows_bindPath (h : Heap) (target : Value) (path : List String) (value : Value) :
    h.Grows code (h.bindPath target path value) := by
  induction path generalizing h target with
  | nil => exact .refl h
  | cons name rest ih =>
      cases rest with
      | nil => exact grows_setAttribute h target name value
      | cons next rest => exact (grows_child h target name).trans (ih _ _)

theorem grows_bind (h : Heap) (scope : Scope) (path : List String) (value : Value) :
    h.Grows code (h.bind scope path value) := by
  cases scope with
  | nil => exact .refl h
  | cons id _ => exact grows_bindPath h (.ref id) path value

end Heap

end ModelGraph
