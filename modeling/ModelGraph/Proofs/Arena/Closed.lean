import ModelGraph.Machine.Basic
import ModelGraph.Proofs.OrderedMap
import ModelGraph.Proofs.Object.Frame

/-!
# Closed heaps

A heap is closed if whatever an object refers to is on the heap, and if the scope of every function is
a chain of objects with variables that ends in the root. No change takes an object away or makes another
kind of object of it, so a value that is on the heap once stays there.
-/

namespace ModelGraph

namespace OrderedMap

variable {κ υ : Type} [DecidableEq κ]

theorem mem_insertEntry {key : κ} {value : υ} {entries : List (κ × υ)} {e : κ × υ}
    (h : e ∈ insertEntry key value entries) : e = (key, value) ∨ e ∈ entries := by
  induction entries with
  | nil => simpa [insertEntry] using h
  | cons first rest ih =>
      unfold insertEntry at h
      split_ifs at h
      · exact (List.mem_cons.mp h).imp_right (List.mem_cons_of_mem _)
      · rcases List.mem_cons.mp h with rfl | h
        · exact .inr List.mem_cons_self
        · exact (ih h).imp_right (List.mem_cons_of_mem _)

theorem mem_entries_foldl_insert {added : List (κ × υ)} {m : OrderedMap κ υ} {e : κ × υ}
    (h : e ∈ (added.foldl (fun m e => m.insert e.1 e.2) m).entries) : e ∈ m.entries ∨ e ∈ added := by
  induction added generalizing m with
  | nil => exact .inl h
  | cons first rest ih =>
      rcases ih h with h | h
      · rcases mem_insertEntry h with rfl | h
        · exact .inr List.mem_cons_self
        · exact .inl h
      · exact .inr (List.mem_cons_of_mem _ h)

theorem mem_entries_ofList {entries : List (κ × υ)} {e : κ × υ} (h : e ∈ (ofList entries).entries) :
    e ∈ entries := by
  rw [ofList_eq_foldl] at h
  exact (mem_entries_foldl_insert h).resolve_left List.not_mem_nil

end OrderedMap

/-! ## Kinds and parts -/

inductive ObjectKind where
  | list | dict | bytes | «namespace» | «class» | function | «instance» | storage
  deriving DecidableEq

namespace Object

def kind : Object → ObjectKind
  | .list _ => .list
  | .dict _ => .dict
  | .bytes _ => .bytes
  | .namespace _ => .namespace
  | .class _ => .class
  | .function _ => .function
  | .instance _ => .«instance»
  | .storage _ => .storage

@[simp] theorem kind_mapFields (change : Fields → Fields) (o : Object) :
    (o.mapFields change).kind = o.kind := by
  cases o <;> rfl

/-- The values that an object holds: items, keys, fields, type arguments and the class. -/
def parts : Object → List Value
  | .list items => items
  | .dict d => d.keys.map Key.toValue ++ d.values
  | .namespace n => n.fields.values
  | .class c => (match c.kind with | .generic arguments => arguments | _ => []) ++ c.fields.values
  | .instance i => (i.class?.map Value.ref).toList ++ i.fields.values
  | .bytes _ | .function _ | .storage _ => []

/-- The scope that a definition was made in. -/
def scope? : Object → Option Scope
  | .function { kind := .script _ globals, .. } => some globals
  | _ => none

theorem mem_parts_of_fields {o : Object} {fields : Fields} (h : o.fields? = some fields) {v : Value}
    (hv : v ∈ fields.values) : v ∈ o.parts := by
  cases o <;> cases h
  · exact hv
  · exact List.mem_append_right _ hv
  · exact List.mem_append_right _ hv

end Object

namespace Heap

/-- The value is no object, or one on the heap. -/
def Has (h : Heap) : Value → Prop
  | .ref id => id < h.size
  | _ => True

def HasAll (h : Heap) (values : List Value) : Prop := ∀ v ∈ values, h.Has v

def kind? (h : Heap) (id : Nat) : Option ObjectKind := (h.get? id).map Object.kind

/-- Whether an object can hold the variables of a scope. -/
def holdsVariables (h : Heap) (id : Nat) : Bool :=
  h.kind? id == some .namespace || h.kind? id == some .class

/-- Whether a scope is a chain of objects with variables that ends in the root. -/
def isScope (h : Heap) (scope : Scope) : Bool :=
  rootScope.isSuffixOf scope && scope.all h.holdsVariables

end Heap

/-- All that an object refers to is on the heap. -/
structure Object.Within (h : Heap) (o : Object) : Prop where
  parts : ∀ v ∈ o.parts, h.Has v
  scope : ∀ scope, o.scope? = some scope → h.isScope scope = true

namespace Heap

variable {h h' h'' : Heap} {v : Value}

/-- All objects are within the heap, and the root is a namespace. -/
structure Closed (h : Heap) : Prop where
  within : ∀ {id o}, h.get? id = some o → o.Within h
  root : h.kind? 0 = some .namespace

/-- Every object of the first heap is in the second, of the same kind. -/
def KeepsKinds (h h' : Heap) : Prop := ∀ ⦃id kind⦄, h.kind? id = some kind → h'.kind? id = some kind

theorem kind?_of_get? {id : Nat} {o : Object} (ho : h.get? id = some o) : h.kind? id = some o.kind := by
  rw [kind?, ho]
  rfl

theorem lt_size_of_kind? {id : Nat} {kind : ObjectKind} (hid : h.kind? id = some kind) : id < h.size := by
  obtain ⟨o, ho, -⟩ := Option.map_eq_some_iff.mp hid
  exact lt_size_of_get? ho

namespace KeepsKinds

theorem refl (h : Heap) : h.KeepsKinds h := fun _ _ hid => hid

theorem trans (first : h.KeepsKinds h') (second : h'.KeepsKinds h'') : h.KeepsKinds h'' :=
  fun _ _ hid => second (first hid)

theorem lt_size (hkeeps : h.KeepsKinds h') {id : Nat} (hid : id < h.size) : id < h'.size := by
  have hget : h.get? id = some h.objects[id] := Array.getElem?_eq_getElem hid
  exact lt_size_of_kind? (hkeeps (kind?_of_get? hget))

theorem size_le (hkeeps : h.KeepsKinds h') : h.size ≤ h'.size := by
  by_contra hlt
  exact absurd (hkeeps.lt_size (Nat.lt_of_not_le hlt)) (Nat.lt_irrefl _)

end KeepsKinds

theorem Has.mono (hv : h.Has v) (hkeeps : h.KeepsKinds h') : h'.Has v := by
  cases v with
  | ref id => exact hkeeps.lt_size hv
  | _ => trivial

theorem holdsVariables_mono {id : Nat} (hid : h.holdsVariables id = true) (hkeeps : h.KeepsKinds h') :
    h'.holdsVariables id = true := by
  unfold holdsVariables at hid ⊢
  rw [Bool.or_eq_true, beq_iff_eq, beq_iff_eq] at hid ⊢
  exact hid.imp (@hkeeps id _) (@hkeeps id _)

theorem isScope_iff {scope : Scope} : h.isScope scope = true ↔
    rootScope <:+ scope ∧ ∀ id ∈ scope, h.holdsVariables id = true := by
  rw [isScope, Bool.and_eq_true, List.isSuffixOf_iff_suffix, List.all_eq_true]

theorem isScope_mono {scope : Scope} (hscope : h.isScope scope = true) (hkeeps : h.KeepsKinds h') :
    h'.isScope scope = true := by
  obtain ⟨hroot, hids⟩ := isScope_iff.mp hscope
  exact isScope_iff.mpr ⟨hroot, fun id hid => holdsVariables_mono (hids id hid) hkeeps⟩

theorem isScope_cons {id : Nat} {scope : Scope} (hid : h.holdsVariables id = true)
    (hscope : h.isScope scope = true) : h.isScope (id :: scope) = true := by
  obtain ⟨hroot, hids⟩ := isScope_iff.mp hscope
  exact isScope_iff.mpr ⟨hroot.trans (List.suffix_cons id scope), List.forall_mem_cons.mpr ⟨hid, hids⟩⟩

theorem holdsVariables_of_namespace {id : Nat} (hid : h.kind? id = some .namespace) :
    h.holdsVariables id = true := by
  rw [holdsVariables, hid]
  rfl

theorem holdsVariables_of_class {id : Nat} (hid : h.kind? id = some .class) :
    h.holdsVariables id = true := by
  rw [holdsVariables, hid]
  rfl

theorem has_of_object? {o : Object} (ho : h.object? v = some o) : h.Has v := by
  obtain ⟨id, rfl, hid⟩ := exists_ref_of_object ho
  exact hid

theorem has_of_class? {c : Class} (hc : h.class? v = some c) : h.Has v := by
  unfold class? at hc
  split at hc <;> cases hc
  exact has_of_object? ‹_›

/-! ## Kinds under changes -/

theorem kind?_push (h : Heap) (o : Object) : (h.push o).kind? h.size = some o.kind :=
  kind?_of_get? (get?_push_size h o)

theorem keeps_push (h : Heap) (o : Object) : h.KeepsKinds (h.push o) := by
  intro id kind hid
  rw [kind?, get?_push_of_lt (lt_size_of_kind? hid)]
  exact hid

theorem keeps_modify (id : Nat) {change : Object → Object} (hkind : ∀ o, (change o).kind = o.kind) :
    h.KeepsKinds (h.modify id change) := by
  intro other kind hother
  rw [kind?, get?_modify]
  split_ifs with heq
  · subst heq
    obtain ⟨o, ho, rfl⟩ := Option.map_eq_some_iff.mp hother
    rw [ho]
    exact congrArg some (hkind o)
  · exact hother

end Heap

end ModelGraph
