import Mathlib.Data.List.Forall2
import ModelGraph.Proofs.Graph.Holding

/-!
# Modules without a trace

Next to no trace each module with tensor fields has one node, and the node lists these fields in their
order. Two walks meet here: the nodes come from one that leaves out names with two underscores, and
the tensors from the index, which leaves out compiled models. A field has its tensor where the second
walk has come by any field of the same tensor.
-/

namespace ModelGraph

open Relation

namespace Snapshot

variable {s : Snapshot} {root module id : Nat} {v : Value}

def tensorFields (s : Snapshot) (module : Nat) : List (String × Value) :=
  (s.moduleFields module).filter fun field => s.heap.isTensor field.2

/-- The fields that the index enters, with their modules, in the order of the walk. -/
def indexedFields (s : Snapshot) (root : Nat) : List (Nat × String × Value) :=
  (s.modulesBelow root).flatMap fun module => (s.walkedFields module).map (module, ·)

/-- Some field that the index enters holds the value. -/
def Indexed (s : Snapshot) (root : Nat) (v : Value) : Prop :=
  ∃ module name, ReflTransGen (fun a b => b ∈ s.records (s.walkedFields a)) root module ∧
    (name, v) ∈ s.walkedFields module

def HasStorage (s : Snapshot) (v : Value) : Prop :=
  ∃ tensor storage, s.heap.tensor? v = some tensor ∧
    s.heap.attribute? tensor "storage" = some storage ∧ (s.heap.storage? storage).isSome

/-- The input of a node for a tensor field. -/
inductive ShowsField (s : Snapshot) (root : Nat) (field : String × Value) : Slot → Prop
  | loaded {t : Tensor} (hindexed : s.Indexed root field.2) (ht : s.tensor? field.2 "" = some t) :
      ShowsField s root field (.single field.1 (.ofTensor (some t)))
  | bare (hbare : s.Indexed root field.2 → ¬ s.HasStorage field.2) :
      ShowsField s root field (.single field.1 (.ofTensor none))

theorem visits_modulesBelow (s : Snapshot) (root : Nat) :
    Visits (fun a => s.records (s.walkedFields a)) [root] [root] (s.modulesBelow root) :=
  visits_breadthFirst (fun _ _ h => ModuleTree.lt_size_of_mem_records h)
    (remainingVisits_root s.heap.size root)

theorem mem_indexedFields {field : String × Value} : (module, field) ∈ s.indexedFields root ↔
    ReflTransGen (fun a b => b ∈ s.records (s.walkedFields a)) root module ∧
      field ∈ s.walkedFields module := by
  rw [indexedFields, List.mem_flatMap, ← (s.visits_modulesBelow root).mem_iff]
  constructor
  · rintro ⟨m, hm, hmem⟩
    obtain ⟨f, hf, heq⟩ := List.mem_map.mp hmem
    cases heq
    exact ⟨hm, hf⟩
  · rintro ⟨hm, hf⟩
    exact ⟨module, hm, List.mem_map_of_mem hf⟩

theorem exists_ref_of_isTensor (h : s.heap.isTensor v) : ∃ id, v = .ref id := by
  cases v with
  | ref id => exact ⟨id, rfl⟩
  | _ => cases h

theorem parameters_eq (s : Snapshot) (module : Nat) :
    s.parameters module = (s.tensorFields module).filterMap fun f => f.2.ref?.map (f.1, ·) := by
  rw [parameters, tensorFields, List.filterMap_filter]

theorem tensorFields_ne_nil_iff : s.tensorFields module ≠ [] ↔ s.parameters module ≠ [] := by
  apply not_congr
  rw [parameters_eq]
  constructor
  · intro h
    rw [h, List.filterMap_nil]
  · intro h
    refine List.eq_nil_iff_forall_not_mem.mpr fun field hfield => ?_
    obtain ⟨id, hid⟩ := exists_ref_of_isTensor (List.mem_filter.mp hfield).2
    have hnone := List.filterMap_eq_nil_iff.mp h field hfield
    rw [hid] at hnone
    cases hnone

/-- A tensor is realized exactly where it has a storage. -/
theorem tensor?_isSome_iff (name : String) : (s.tensor? v name).isSome ↔ s.HasStorage v := by
  unfold HasStorage tensor? Heap.realize?
  cases htensor : s.heap.tensor? v with
  | none => simp
  | some tensor =>
      cases hstorage : s.heap.attribute? tensor "storage" with
      | none => simp [hstorage]
      | some storage => cases h : s.heap.storage? storage <;> simp [hstorage, h]

end Snapshot

namespace ModuleTree

variable {s : Snapshot} {constants : List Value} {root module id : Nat}

/-- Enters a field of a module. -/
def enter (s : Snapshot) (t : ModuleTree) (entry : Nat × String × Value) : ModuleTree :=
  t.addField s entry.1 entry.2

theorem ofRoot_eq_foldl (s : Snapshot) (constants : List Value) (root : Nat) :
    ofRoot s constants root = (s.indexedFields root).foldl (enter s) (ofConstants s constants) := by
  rw [Snapshot.indexedFields, List.foldl_flatMap, ofRoot, addBelow]
  congr 1
  funext t m
  rw [List.foldl_map]
  rfl

theorem tensors_addTensor (t : ModuleTree) (v : Value) (id other : Nat) :
    (t.addTensor s module v id).tensors.get? other =
      if other = id then (t.tensors.get? other).or (s.tensor? v "") else t.tensors.get? other := by
  unfold addTensor
  dsimp only
  split_ifs with heq
  · subst heq
    cases hold : t.tensors.get? other with
    | some tensor => simp [hold]
    | none => cases hnew : s.tensor? v "" <;> simp [hold]
  · cases t.tensors.get? id with
    | some tensor => rfl
    | none =>
        cases s.tensor? v "" with
        | none => rfl
        | some tensor => exact OrderedMap.get?_insert_of_ne _ heq _

theorem tensors_enter (t : ModuleTree) (entry : Nat × String × Value)
    (htensor : s.heap.isTensor (.ref id)) : (enter s t entry).tensors.get? id =
      if entry.2.2 = .ref id then (t.tensors.get? id).or (s.tensor? (.ref id) "")
      else t.tensors.get? id := by
  obtain ⟨module, name, v⟩ := entry
  unfold enter addField
  cases v with
  | ref other =>
      by_cases heq : other = id
      · subst heq
        simp [Value.ref?, htensor, tensors_addTensor]
      · have hne : id ≠ other := Ne.symm heq
        by_cases hother : s.heap.isTensor (.ref other)
        · simp [Value.ref?, hother, tensors_addTensor, heq, hne]
        · by_cases hrecord : s.heap.isRecord (.ref other)
          · simp [Value.ref?, hother, hrecord, heq, addModule]
          · simp [Value.ref?, hother, hrecord, heq]
  | _ => simp [Value.ref?]

theorem tensors_foldl_enter (entries : List (Nat × String × Value)) (t : ModuleTree)
    (htensor : s.heap.isTensor (.ref id)) : (entries.foldl (enter s) t).tensors.get? id =
      if .ref id ∈ entries.map (·.2.2) then (t.tensors.get? id).or (s.tensor? (.ref id) "")
      else t.tensors.get? id := by
  induction entries generalizing t with
  | nil => rfl
  | cons entry rest ih =>
      rw [List.foldl_cons, ih, tensors_enter t entry htensor]
      by_cases hhere : entry.2.2 = .ref id
      · simp [hhere, Option.or_assoc]
      · have hrest : .ref id ∈ (entry :: rest).map (·.2.2) ↔ .ref id ∈ rest.map (·.2.2) := by
          simp [Ne.symm hhere]
        rw [if_neg hhere]
        exact (if_congr hrest rfl rfl).symm

theorem tensors_ofConstants (s : Snapshot) (constants : List Value) :
    (ofConstants s constants).tensors = {} := by
  unfold ofConstants
  refine List.foldlRecOn (motive := fun t : ModuleTree => t.tensors = {}) constants _ rfl
    fun t ht v _ => ?_
  split
  · exact ht
  · exact ht

theorem tensors_ofRoot (htensor : s.heap.isTensor (.ref id)) {tensor : Tensor} :
    (ofRoot s constants root).tensors.get? id = some tensor ↔
      s.Indexed root (.ref id) ∧ s.tensor? (.ref id) "" = some tensor := by
  have hindexed : .ref id ∈ (s.indexedFields root).map (·.2.2) ↔ s.Indexed root (.ref id) := by
    rw [List.mem_map]
    constructor
    · rintro ⟨⟨m, name, v⟩, hmem, rfl⟩
      exact ⟨m, name, Snapshot.mem_indexedFields.mp hmem⟩
    · rintro ⟨m, name, hfield⟩
      exact ⟨(m, name, .ref id), Snapshot.mem_indexedFields.mpr hfield, rfl⟩
  have hstart : (ofConstants s constants).tensors.get? id = none := by
    rw [tensors_ofConstants]
    rfl
  rw [ofRoot_eq_foldl, tensors_foldl_enter _ _ htensor, hstart, Option.none_or, ← hindexed]
  split_ifs with h
  · exact (and_iff_right h).symm
  · exact iff_of_false (fun hnone => by cases hnone) fun hboth => h hboth.1

theorem showsField (t? : Option Tensor) {field : String × Value}
    (ht : ∀ tensor, t? = some tensor ↔ s.Indexed root field.2 ∧ s.tensor? field.2 "" = some tensor) :
    s.ShowsField root field (.single field.1 (.ofTensor t?)) := by
  cases t? with
  | some tensor =>
      obtain ⟨hindexed, htensor⟩ := (ht tensor).mp rfl
      exact .loaded hindexed htensor
  | none =>
      apply Snapshot.ShowsField.bare
      intro hindexed hstorage
      obtain ⟨tensor, htensor⟩ :=
        Option.isSome_iff_exists.mp ((Snapshot.tensor?_isSome_iff "").mpr hstorage)
      cases (ht tensor).mpr ⟨hindexed, htensor⟩

theorem showsFields (s : Snapshot) (constants : List Value) (root module : Nat) :
    List.Forall₂ (s.ShowsField root) (s.tensorFields module)
      ((ofRoot s constants root).moduleNode s module).inputs := by
  have hfields : ∀ field ∈ s.tensorFields module, s.heap.isTensor field.2 :=
    fun field hfield => (List.mem_filter.mp hfield).2
  unfold moduleNode
  rw [Snapshot.parameters_eq]
  generalize s.tensorFields module = fields at hfields
  induction fields with
  | nil => exact .nil
  | cons field rest ih =>
      rw [List.forall_mem_cons] at hfields
      obtain ⟨name, v⟩ := field
      obtain ⟨id, rfl⟩ := Snapshot.exists_ref_of_isTensor hfields.1
      apply List.Forall₂.cons
      · exact showsField _ fun tensor => tensors_ofRoot hfields.1
      · exact ih hfields.2

/-- Without a trace the nodes are those of the modules that hold tensors, one for each, and they list
all tensor fields. -/
theorem nodes_ofScript_untraced (s : Snapshot) (constants : List Value) (root : Nat) :
    ∃ owners : List Nat, owners.Nodup ∧
      (∀ module, module ∈ owners ↔
        ReflTransGen (fun a b => b ∈ nextModules s a) root module ∧ s.tensorFields module ≠ []) ∧
      List.Forall₂ (fun module node =>
          List.Forall₂ (s.ShowsField root) (s.tensorFields module) node.inputs)
        owners (Graph.ofScript s constants (.ref root) none).nodes := by
  refine ⟨remaining s root [], nodup_remaining s root [], ?_, ?_⟩
  · intro module
    rw [mem_remaining, Snapshot.tensorFields_ne_nil_iff]
    exact and_iff_left List.not_mem_nil
  · have hnodes : (Graph.ofScript s constants (.ref root) none).nodes =
        (remaining s root []).map ((ofRoot s constants root).moduleNode s) := rfl
    rw [hnodes, List.forall₂_map_right_iff, List.forall₂_same]
    intro module _
    exact showsFields s constants root module

end ModuleTree

end ModelGraph
