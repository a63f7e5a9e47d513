import Mathlib.Data.List.Infix
import ModelGraph.Proofs.Object.Names
import ModelGraph.Proofs.OrderedMap
import ModelGraph.Weights.Find

/-!
# Weights of flat dictionaries

A dictionary from dotted names to tensors holds one set of weights. The layers are named by what stands
before the last dot of a name, and have one state for each of their names.
-/

namespace ModelGraph

/-- A name with a part before its last dot, which does not stand for the type of packed
parameters. -/
structure FlatName where
  layer : String
  parameter : String
  layer_ne : layer ≠ ""
  notMem_parameter : '.' ∉ parameter.toList
  not_packedType : ¬("." ++ packedType).toList <:+ (layer ++ "." ++ parameter).toList

namespace FlatName

def text (n : FlatName) : String := n.layer ++ "." ++ n.parameter

theorem dot_mem_text (n : FlatName) : '.' ∈ n.text.toList := by simp [text, String.toList_append]

end FlatName

theorem beforeSuffix?_eq_none {s suffix : String} (h : ¬suffix.toList <:+ s.toList) :
    beforeSuffix? s suffix = none := by
  unfold beforeSuffix?
  rw [List.suffix_iff_eq_drop] at h
  rw [if_neg fun heq => h heq.symm]

namespace Layer

/-- A layer of the name has the state. -/
def HasState (layers : List Layer) (name : String) (state : WeightState) : Prop :=
  ∃ l ∈ layers, l.name = name ∧ state ∈ l.states

theorem hasState_cons (l : Layer) (layers : List Layer) (name : String) (state : WeightState) :
    HasState (l :: layers) name state ↔
      (l.name = name ∧ state ∈ l.states) ∨ HasState layers name state := by
  simp [HasState]

theorem hasState_update (layers : List Layer) (name other parameter : String)
    (tensors : List (String × Value)) (state : WeightState) :
    HasState (update name (·.addState parameter tensors) layers) other state ↔
      HasState layers other state ∨ (name = other ∧ state = ⟨parameter, tensors⟩) := by
  induction layers with
  | nil => simp [update, HasState, addState]
  | cons l layers ih =>
      unfold update
      split_ifs with hname
      · have hadd : state ∈ (l.addState parameter tensors).states ↔
            state ∈ l.states ∨ state = ⟨parameter, tensors⟩ := by simp [addState]
        have hsame : (l.addState parameter tensors).name = l.name := rfl
        rw [hasState_cons, hasState_cons, hadd, hsame, hname]
        tauto
      · rw [hasState_cons, hasState_cons, ih, or_assoc]

/-- The layers of named values, in the order in which their names first stand. -/
def addFlat (layers : List Layer) (e : FlatName × Value) : List Layer :=
  update e.1.layer (·.addState e.1.parameter [(e.1.text, e.2)]) layers

theorem hasState_foldl_addFlat (entries : List (FlatName × Value)) (layers : List Layer)
    (name : String) (state : WeightState) :
    HasState (entries.foldl addFlat layers) name state ↔ HasState layers name state ∨
      ∃ e ∈ entries, e.1.layer = name ∧ state = ⟨e.1.parameter, [(e.1.text, e.2)]⟩ := by
  induction entries generalizing layers with
  | nil => simp
  | cons e entries ih =>
      rw [List.foldl_cons, ih, addFlat, hasState_update, or_assoc, List.exists_mem_cons_iff]

end Layer

namespace Heap

variable {h : Heap}

/-- A value is a tensor itself. -/
def HoldsTensor (h : Heap) (v : Value) : Prop := ∃ i, h.instance? v = some i ∧ i.isPlainTensor

variable {v : Value} (hv : h.HoldsTensor v)
include hv

theorem HoldsTensor.exists_object : ∃ i, h.object? v = some (.instance i) ∧ i.isPlainTensor := by
  obtain ⟨i, hi, hplain⟩ := hv
  refine ⟨i, ?_, hplain⟩
  unfold instance? at hi
  split at hi <;> cases hi
  assumption

theorem HoldsTensor.isTensor : h.isTensor v := by
  obtain ⟨i, hi, hplain⟩ := hv
  simp [Heap.isTensor, hi, hplain]

theorem HoldsTensor.unwrapped : h.unwrapped v = v := by
  obtain ⟨i, hi, hplain⟩ := hv
  simp [Heap.unwrapped, Heap.tensor?, hi, hplain]

theorem HoldsTensor.items? : h.items? v = none := by
  obtain ⟨i, hi, -⟩ := hv.exists_object
  rw [Heap.items?, hi]

theorem HoldsTensor.isNone : v.isNone = false := by
  obtain ⟨i, hi, -⟩ := hv
  cases v <;> first | rfl | cases hi

theorem flatEntry?_of_holdsTensor (n : FlatName) :
    h.flatEntry? n.text v = some (.tensor n.layer n.parameter n.text v) := by
  have htype : beforeSuffix? n.text ("." ++ packedType) = none := beforeSuffix?_eq_none n.not_packedType
  have hsplit : splitQualified n.text = (n.layer, n.parameter) := splitQualified_append n.notMem_parameter
  unfold flatEntry?
  rw [if_neg (by simp [hv.isNone]), htype, hv.items?]
  simp [hv.isTensor, hsplit]

theorem addFlatEntry_of_holdsTensor (layers : List Layer) (n : FlatName) :
    h.addFlatEntry layers (.tensor n.layer n.parameter n.text v) =
      some (Layer.addFlat layers (n, v)) := by
  have hlayer : n.layer.isEmpty = false := by simpa using n.layer_ne
  simp [addFlatEntry, hlayer, hv.unwrapped, Layer.addFlat]

omit hv

theorem mapM_eq_some_map {α β : Type} {f : α → Option β} {g : α → β} {items : List α}
    (hf : ∀ a ∈ items, f a = some (g a)) : items.mapM f = some (items.map g) := by
  induction items with
  | nil => rfl
  | cons a items ih =>
      obtain ⟨ha, hrest⟩ := List.forall_mem_cons.mp hf
      rw [List.mapM_cons, ha, ih hrest]
      rfl

theorem get?_flat (entries : List (FlatName × Value)) {key : String} (hdot : '.' ∉ key.toList) :
    OrderedMap.get? ⟨entries.map fun e => (Key.str e.1.text, e.2)⟩ (Key.str key) = none := by
  refine List.lookup_eq_none_iff.mpr fun entry hentry => ?_
  obtain ⟨e, -, rfl⟩ := List.mem_map.mp hentry
  simpa using fun heq : key = e.1.text => hdot (heq ▸ e.1.dot_mem_text)

section Flat

variable {root : Nat} {entries : List (FlatName × Value)}
  (hroot : h.get? root = some (.dict ⟨entries.map fun e => (.str e.1.text, e.2)⟩))
  (htensors : ∀ e ∈ entries, h.HoldsTensor e.2)
include hroot

theorem entries?_of_flat :
    h.entries? (.ref root) = some (entries.map fun e => (.str e.1.text, e.2)) := by
  have hobject : h.object? (.ref root) = h.get? root := rfl
  rw [entries?, hobject, hroot]
  simp only [List.map_map]
  rfl

include htensors

theorem flatEntries?_of_flat : h.flatEntries? (.ref root) =
    some (entries.map fun e => .tensor e.1.layer e.1.parameter e.1.text e.2) := by
  have hname (e : FlatName × Value) : (Value.str e.1.text).keyName?.filter (!·.isEmpty) =
      some e.1.text := by
    have hnonempty : e.1.text.isEmpty = false := by simp [FlatName.text]
    simp [Value.keyName?, hnonempty]
  have hkept (e : FlatName × Value) : (e.1.text != "_metadata") = true := by
    have hdot : '.' ∉ "_metadata".toList := by decide
    simpa using fun heq : e.1.text = "_metadata" => hdot (heq ▸ e.1.dot_mem_text)
  have hentry : ∀ e ∈ entries, h.flatEntry? e.1.text e.2 =
      some (.tensor e.1.layer e.1.parameter e.1.text e.2) := fun e he =>
    flatEntry?_of_holdsTensor (htensors e he) e.1
  unfold flatEntries?
  rw [entries?_of_flat hroot]
  simp only [Option.bind_eq_bind, Option.bind_some, List.mapM_map]
  rw [mapM_eq_some_map (g := fun e => (e.1.text, e.2)) fun e _ => by simp [hname]]
  simp only [Option.bind_some, List.filter_map]
  rw [List.filter_eq_self.mpr fun e _ => by simp [hkept], List.mapM_map]
  exact mapM_eq_some_map hentry

theorem flatLayers?_of_flat (hentries : entries ≠ []) :
    h.flatLayers? (.ref root) = some (entries.foldl Layer.addFlat []) := by
  have hfold : ∀ layers, (entries.map fun e =>
      FlatEntry.tensor e.1.layer e.1.parameter e.1.text e.2).foldlM h.addFlatEntry layers =
        some (entries.foldl Layer.addFlat layers) := by
    clear hroot hentries
    induction entries with
    | nil => exact fun _ => rfl
    | cons e entries ih =>
        obtain ⟨he, hrest⟩ := List.forall_mem_cons.mp htensors
        intro layers
        rw [List.map_cons, List.foldlM_cons, addFlatEntry_of_holdsTensor he, List.foldl_cons]
        exact ih hrest _
  have hnonempty : entries.foldl Layer.addFlat [] ≠ [] := by
    obtain ⟨e, he⟩ := List.exists_mem_of_ne_nil entries hentries
    obtain ⟨l, hl, -⟩ := (Layer.hasState_foldl_addFlat entries [] e.1.layer _).mpr
      (.inr ⟨e, he, rfl, rfl⟩)
    exact List.ne_nil_of_mem hl
  unfold flatLayers?
  rw [flatEntries?_of_flat hroot htensors]
  simp [hfold, nonEmpty, hnonempty]

omit htensors

/-- A key without a dot is not there. -/
theorem keyed?_of_flat {key : String} (hne : key ≠ "") (hdot : '.' ∉ key.toList) :
    h.keyed? (.ref root) key = none := by
  have hobject : h.object? (.ref root) = h.get? root := rfl
  have hmissing := get?_flat entries hdot
  have hitem : h.item? (.ref root) (.str key) = none := by
    rw [item?, hobject, hroot]
    exact hmissing
  rw [keyed?, if_neg (by simpa using hne), hitem]
  rfl

/-- A dictionary from dotted names is no tree of modules. -/
theorem moduleTree?_of_flat : h.moduleTree? (.ref root) = none := by
  have hobject : h.object? (.ref root) = h.get? root := rfl
  have hmodules : h.attribute? (.ref root) "_modules" = none := by
    rw [attribute?, ownAttribute?, inheritedAttribute?, hobject, hroot]
    simp only [get?_flat entries (show '.' ∉ "_modules".toList by decide)]
    rfl
  have hempty : h.keyed? (.ref root) "" = some (.ref root) := rfl
  rw [moduleTree?]
  refine List.findSome?_eq_none_iff.mpr fun key hkey => ?_
  rcases List.mem_cons.mp hkey with rfl | hkey
  · simp [hempty, hmodules]
  · have hkeys : ∀ key ∈ ["model", "net"], key ≠ "" ∧ '.' ∉ key.toList := by decide +kernel
    obtain ⟨hne, hdot⟩ := hkeys key hkey
    rw [keyed?_of_flat hroot hne hdot]
    rfl

include htensors

/-- A dictionary from dotted names to at least two tensors holds one set of weights. -/
theorem weights?_of_flat (hlength : 2 ≤ entries.length) :
    h.weights? (.ref root) = some [⟨"", entries.foldl Layer.addFlat []⟩] := by
  have hobject : h.object? (.ref root) = h.get? root := rfl
  have hentries : entries ≠ [] := by
    rintro rfl
    cases hlength
  have hlayers : h.layers? (.ref root) = some (entries.foldl Layer.addFlat []) := by
    have htensor : h.tensorLayers? (.ref root) = none := by
      simp [tensorLayers?, Heap.isTensor, instance?, hobject, hroot]
    have hrecord : h.recordLayers? (.ref root) = none := by
      simp [recordLayers?, Heap.items?, hobject, hroot]
    rw [layers?, List.findSome?_cons, htensor, List.findSome?_cons, hrecord, List.findSome?_cons,
      flatLayers?_of_flat hroot htensors hentries]
  have hcandidates : h.candidateKeys (.ref root) = weightKeys := by
    rw [candidateKeys, entries?_of_flat hroot]
    match entries, hlength with
    | _ :: _ :: _, _ => rfl
  have hkeys : ∀ key ∈ weightKeys.dropLast, key ≠ "" ∧ '.' ∉ key.toList := by decide +kernel
  have hempty : h.keyed? (.ref root) "" = some (.ref root) := rfl
  rw [weights?, hcandidates]
  refine List.findSome?_eq_some_iff.mpr ⟨weightKeys.dropLast, "", [], rfl, ?_, fun key hkey => ?_⟩
  · rw [hempty, Option.bind_some, weightsAt?, hlayers]
  · obtain ⟨hne, hdot⟩ := hkeys key hkey
    rw [keyed?_of_flat hroot hne hdot]
    rfl

end Flat

end Heap

end ModelGraph
