import ModelGraph.Archive.Bundle
import ModelGraph.Proofs.Arena.Tame
import ModelGraph.Proofs.Archive.Storages
import ModelGraph.Proofs.Graph.Elements

/-!
# Tensors of a manifest

Each tensor of a manifest's table becomes one record over a storage of its own. All its objects are new,
and nothing that was there before refers to them: until they are handed out they form an enclave, and no
pickle that is loaded meanwhile can change them.
-/

namespace ModelGraph

open Restore Pickle

/-- The strides of elements that lie one after another: the product of all later dimensions. -/
def rowMajorStrides (dims : List Nat) : List Nat :=
  (List.range dims.length).map fun i => (dims.drop (i + 1)).prod

/-- The value is the integer of a size, and below the limit it is read as that size. -/
def Value.IsSize (v : Value) (n : Nat) : Prop :=
  v = .ofSize n ∧ (n < 0x8000000000000000 → v.size? = some n)

theorem Value.isSize_ofSize (n : Nat) : (Value.ofSize n).IsSize n := ⟨rfl, Value.size?_ofSize⟩

theorem Value.isSize_map_ofSize (sizes : List Nat) :
    List.Forall₂ Value.IsSize (sizes.map Value.ofSize) sizes :=
  List.forall₂_map_left_iff.mpr (List.forall₂_same.mpr fun n _ => Value.isSize_ofSize n)

/-- The classes of storages and tensors have their names. -/
structure Heap.NamesTensors (h : Heap) : Prop where
  storage : ∀ c : StorageClass, h.NamesClass c.package c.name (.native (.storage c.type))
  tensor : ∀ c : StorageClass, h.NamesClass c.package c.tensorName (.native .tensor)

theorem Heap.NamesTensors.extends {h h' : Heap} (hh : h.NamesTensors) (hext : h.Extends h') :
    h'.NamesTensors := ⟨fun c => (hh.storage c).extends hext, fun c => (hh.tensor c).extends hext⟩

namespace ManifestTensor

theorem contiguous_eq_rowMajorStrides (dims : List Nat) : contiguous dims = rowMajorStrides dims := by
  induction dims with
  | nil => rfl
  | cons d dims ih =>
      rw [contiguous_cons, ih, rowMajorStrides, rowMajorStrides, List.length_cons, List.range_succ_eq_map,
        List.map_cons, List.map_map]
      rfl

theorem strides_eq (t : ManifestTensor) : t.strides = t.declaredStrides.getD (rowMajorStrides t.dims) := by
  rw [strides, contiguous_eq_rowMajorStrides]

/-- Every data type that is known has its classes in the package `torch`. -/
theorem exists_storageClass {t : ManifestTensor} {type : String} (htype : t.typePrefix = .ok type) :
    ∃ c : StorageClass, c.package = "torch" ∧ c.element = type := by
  have hclass (element : String) (e : ElementType) (hmem : element ∈ elementNames)
      (he : ElementType.ofStorageName? (element ++ "Storage") = some e) :
      ∃ c : StorageClass, c.package = "torch" ∧ c.element = element :=
    ⟨⟨"torch", element, e, by decide, hmem, he⟩, rfl, rfl⟩
  unfold typePrefix at htype
  split at htype <;> cases htype
  · exact hclass "Float" .float32 (by decide) (by decide)
  · exact hclass "Half" .float16 (by decide) (by decide)
  · exact hclass "Double" .float64 (by decide) (by decide)
  · exact hclass "Char" .int8 (by decide) (by decide)
  · exact hclass "Int" .int32 (by decide) (by decide)
  · exact hclass "Long" .int64 (by decide) (by decide)

/-- The tensor's data type is known and its member is there. -/
structure Given (t : ManifestTensor) (s : Source) (directory : String) (type : String) (data : Bytes) : Prop where
  type : t.typePrefix = .ok type
  member : s.entry? (directory ++ t.key) = some data
  short : data.length < 0x8000000000000000

/-- Four objects show the tensor: its record of the tensor class with its layout alone, a storage of its
member's bytes, and the lists of its dimensions and strides. -/
structure Laid (t : ManifestTensor) (type : String) (data : Bytes) (h : Heap)
    (record storage size stride : Nat) : Prop where
  record : ∃ class? offset, offset.IsSize t.offset ∧ h.get? record = some (.instance
    { module := "torch", name := type ++ "Tensor", class?, fields := ⟨[("storage", .ref storage),
      ("storage_offset", offset), ("size", .ref size), ("stride", .ref stride)]⟩ })
  storage : ∃ element, ElementType.ofStorageName? (type ++ "Storage") = some element ∧
    h.get? storage = some (.storage ⟨"torch", type ++ "Storage",
      { elementType := element, size := data.length / element.width, data := some data, offset := 0 }⟩)
  size : ∃ items, h.get? size = some (.list items) ∧ List.Forall₂ Value.IsSize items t.dims
  stride : ∃ items, h.get? stride = some (.list items) ∧
    List.Forall₂ Value.IsSize items (t.declaredStrides.getD (rowMajorStrides t.dims))

theorem Laid.congr {t : ManifestTensor} {type : String} {data : Bytes} {h h' : Heap}
    {record storage size stride : Nat} (hlaid : t.Laid type data h record storage size stride)
    (hsame : ∀ id ∈ [record, storage, size, stride], h'.get? id = h.get? id) :
    t.Laid type data h' record storage size stride := by
  simp only [List.mem_cons, List.not_mem_nil, or_false, forall_eq_or_imp, forall_eq] at hsame
  obtain ⟨hrecord, hstorage, hsize, hstride⟩ := hsame
  exact ⟨hrecord ▸ hlaid.record, hstorage ▸ hlaid.storage, hsize ▸ hlaid.size, hstride ▸ hlaid.stride⟩

theorem Laid.exists_get? {t : ManifestTensor} {type : String} {data : Bytes} {h : Heap}
    {record storage size stride : Nat} (hlaid : t.Laid type data h record storage size stride) :
    ∀ id ∈ [record, storage, size, stride], ∃ o, h.get? id = some o := by
  obtain ⟨⟨_, _, _, hrecord⟩, ⟨_, _, hstorage⟩, ⟨_, hsize, _⟩, ⟨_, hstride, _⟩⟩ := hlaid
  simp [hrecord, hstorage, hsize, hstride]

/-! ## Making -/

theorem outcome_entry {s : Source} {name : String} {data : Bytes} (h : s.entry? name = some data)
    (w : Workspace Unit) : (ofExcept (s.entry name) : Restore Unit Bytes).outcome w = (.ok data, w) := by
  rw [Source.entry, h]
  exact outcome_ofExcept_ok data w

theorem qualified_torch (element suffix : String) :
    "torch." ++ element ++ suffix = "torch" ++ "." ++ (element ++ suffix) := by
  rw [String.append_assoc]
  rfl

def storageObject (c : StorageClass) (data : Bytes) : StorageObject :=
  ⟨"torch", c.name, { elementType := c.type, size := data.length / c.type.width, data := some data, offset := 0 }⟩

/-- A storage is made and gets its bytes while it is the last object. -/
theorem exists_outcome_storage {w : Workspace Unit} {c : StorageClass} (hw : w.machine.heap.NamesTensors)
    (hpackage : c.package = "torch") {data : Bytes} (hshort : data.length < 0x8000000000000000) :
    ∃ declared h', (newStorage (.str ("torch." ++ c.element ++ "Storage")) (data.length / c.type.width)).outcome w =
        (.ok (.ref w.machine.heap.size), withHeap w (w.machine.heap.push (.storage declared))) ∧
      (fillStorage (.ref w.machine.heap.size) data).outcome
        (withHeap w (w.machine.heap.push (.storage declared))) = (.ok (), withHeap w h') ∧
      w.machine.heap.Extends h' ∧ h'.size = w.machine.heap.size + 1 ∧
      h'.get? w.machine.heap.size = some (.storage (storageObject c data)) := by
  have hname := hw.storage c
  rw [hpackage] at hname
  have hcount := Nat.lt_of_le_of_lt (Nat.div_le_self data.length c.type.width) hshort
  let declared : StorageObject := ⟨"torch", c.name, .declare c.type (data.length / c.type.width)⟩
  let h := w.machine.heap.push (.storage declared)
  have hfill : h.Updates w.machine.heap.size (.storage (storageObject c data))
      (h.modify w.machine.heap.size (onStorage (·.fill data))) :=
    Heap.updates_modify (Heap.get?_push_size _ _) rfl
  refine ⟨declared, _, ?_, outcome_fillStorage _ _ _, ?_, ?_, hfill.get?_self⟩
  · rw [qualified_torch]
    exact outcome_newStorage hname hcount
  · exact (Heap.extends_push _ _).updates (Nat.le_refl _) hfill
  · exact hfill.size_eq.trans (Heap.size_push _ _)

/-- A new record is laid out over its storage by the list of its parts, which is made after it. -/
theorem laid_state (t : ManifestTensor) {h : Heap} {c : StorageClass} {data : Bytes} {storage : Nat}
    (hstorage : h.get? storage = some (.storage (storageObject c data))) (class? : Option Nat) (state : List Value) :
    let h₁ := h.push (.instance { module := "torch", name := c.tensorName, class? })
    let h₂ := h₁.push (.list (t.dims.map .ofSize))
    let h₃ := h₂.push (.list (t.strides.map .ofSize))
    let h₄ := (h₃.push (.list state)).setAttributes (.ref h.size) [("storage", .ref storage),
      ("storage_offset", .ofSize t.offset), ("size", .ref h₁.size), ("stride", .ref h₂.size)]
    h.Extends h₄ ∧ h₄.size = h.size + 4 ∧ t.Laid c.element data h₄ h.size storage h₁.size h₂.size := by
  intro h₁ h₂ h₃ h₄
  have hlast : h₂.Extends (h₃.push (.list state)) := (Heap.extends_push _ _).trans (Heap.extends_push _ _)
  have hpushes : h₁.Extends (h₃.push (.list state)) := (Heap.extends_push _ _).trans hlast
  have hid := hpushes (Heap.get?_push_size h (.instance { module := "torch", name := c.tensorName, class? }))
  have hset := Heap.updates_setAttributes [("storage", .ref storage),
    ("storage_offset", .ofSize t.offset), ("size", .ref h₁.size), ("stride", .ref h₂.size)] hid
  have hext : h.Extends h₄ := ((Heap.extends_push _ _).trans hpushes).updates (Nat.le_refl _) hset
  have hsize : h₁.size = h.size + 1 := Heap.size_push _ _
  have hsize₂ : h₂.size = h.size + 2 := (Heap.size_push _ _).trans (congrArg (· + 1) hsize)
  have hstrides := Value.isSize_map_ofSize t.strides
  nth_rewrite 2 [t.strides_eq] at hstrides
  refine ⟨hext, ?_, ⟨class?, _, Value.isSize_ofSize _, hset.get?_self⟩, ⟨c.type, c.type_eq, hext hstorage⟩,
    ⟨_, ?_, Value.isSize_map_ofSize _⟩, ⟨_, ?_, hstrides⟩⟩
  · rw [hset.size_eq, Heap.size_push, Heap.size_push, hsize₂]
  · rw [hset.get?_of_ne _ (by omega)]
    exact hlast (Heap.get?_push_size h₁ _)
  · rw [hset.get?_of_ne _ (by omega)]
    exact Heap.extends_push _ _ (Heap.get?_push_size h₂ _)

/-- The first of the objects made for a tensor is the storage; the others follow. -/
theorem exists_outcome_buildTensor {t : ManifestTensor} {s : Source} {directory type : String} {data : Bytes}
    {w : Workspace Unit} (hw : w.machine.heap.NamesTensors) (hgiven : t.Given s directory type data) : ∃ h',
      (Bundle.buildTensor s directory t).outcome w =
        (.ok (.ref (w.machine.heap.size + 1)), withHeap w h') ∧
      w.machine.heap.Extends h' ∧ h'.size = w.machine.heap.size + 5 ∧
      t.Laid type data h' (w.machine.heap.size + 1) w.machine.heap.size (w.machine.heap.size + 2)
        (w.machine.heap.size + 3) := by
  obtain ⟨c, hpackage, rfl⟩ := exists_storageClass hgiven.type
  obtain ⟨declared, h, hmake, hfill, hext, hsize, hstorage⟩ := exists_outcome_storage hw hpackage hgiven.short
  have hname := (hw.extends hext).tensor c
  rw [hpackage] at hname
  obtain ⟨id, class_, hid, hkind, hinvoke⟩ := Exec.exists_outcome_invoke_tensor (m := w.machine.withHeap h) hname
  let h₁ := h.push (.instance { module := "torch", name := c.tensorName, class? := some id })
  have hcall : (exec (Exec.invoke ("torch." ++ c.element ++ "Tensor") []) : Restore Unit Value).outcome
      (withHeap w h) = (.ok (.ref h.size), withHeap w h₁) := by
    rw [qualified_torch]
    exact outcome_exec_ok (w := withHeap w h) hinvoke
  let h₂ := h₁.push (.list (t.dims.map .ofSize))
  let h₃ := h₂.push (.list (t.strides.map .ofSize))
  let state : List Value := [.ref w.machine.heap.size, .ofSize t.offset, .ref h₁.size, .ref h₂.size]
  let h₄ := h₃.push (.list state)
  have hpushes : h₁.Extends h₄ :=
    ((Heap.extends_push _ _).trans (Heap.extends_push _ _)).trans (Heap.extends_push _ _)
  have hclass : h₄.class? (.ref id) = some class_ := by
    have hid' := hpushes (Heap.extends_push _ _ hid)
    simp [Heap.class?, Heap.object?, Value.ref?, hid']
  have hstate : h₄.items? (.ref h₃.size) = some state := by
    simp [Heap.items?, Heap.object?, Value.ref?, h₄]
  have hset := Exec.outcome_setState_tensor (m := w.machine.withHeap h₄)
    (hpushes (Heap.get?_push_size h _)) hclass hkind hstate
  obtain ⟨hextends, hsize₄, hlaid⟩ := t.laid_state hstorage (some id) state
  have hwidth : ((ElementType.ofStorageName? (c.element ++ "Storage")).map (·.width)).getD 1 = c.type.width := by
    rw [c.type_eq]
    rfl
  have hsize₁ : h₁.size = w.machine.heap.size + 2 := (Heap.size_push _ _).trans (congrArg (· + 1) hsize)
  have hsize₂ : h₂.size = w.machine.heap.size + 3 := (Heap.size_push _ _).trans (congrArg (· + 1) hsize₁)
  rw [← hsize, ← hsize₁, ← hsize₂]
  refine ⟨_, ?_, hext.trans hextends, ?_, hlaid⟩
  · unfold Bundle.buildTensor
    rw [hgiven.type, outcome_bind_ok (outcome_ofExcept_ok _ w), outcome_bind_ok (outcome_entry hgiven.member w),
      hwidth]
    dsimp only
    rw [outcome_bind_ok hmake, outcome_bind_ok hfill, outcome_bind_ok hcall, outcome_bind_ok (outcome_list _ w h₁),
      outcome_bind_ok (outcome_list _ w h₂), outcome_bind_ok (outcome_list _ w h₃),
      outcome_bind_ok (outcome_exec_ok (w := withHeap w h₄) hset)]
    rfl
  · rw [hsize₄, hsize]

/-- The value is the record of the tensor, made of the tensor's member; its objects are none of the first
ones. -/
def Made (t : ManifestTensor) (s : Source) (directory : String) (old : Nat) (h : Heap) (v : Value) : Prop :=
  ∃ type data record storage size stride, t.Given s directory type data ∧ v = .ref record ∧
    (∀ id ∈ [record, storage, size, stride], old ≤ id) ∧ t.Laid type data h record storage size stride

section

variable {t : ManifestTensor} {s : Source} {directory : String} {old : Nat} {h h' : Heap} {v : Value}

theorem Made.congr (hmade : t.Made s directory old h v)
    (hsame : ∀ id o, old ≤ id → h.get? id = some o → h'.get? id = some o) :
    t.Made s directory old h' v := by
  obtain ⟨type, data, record, storage, size, stride, hgiven, rfl, hold, hlaid⟩ := hmade
  refine ⟨type, data, record, storage, size, stride, hgiven, rfl, hold, hlaid.congr fun id hid => ?_⟩
  obtain ⟨o, ho⟩ := hlaid.exists_get? id hid
  rw [ho, hsame id o (hold id hid) ho]

theorem Made.older {old' : Nat} (hmade : t.Made s directory old h v) (hle : old' ≤ old) :
    t.Made s directory old' h v := by
  obtain ⟨type, data, record, storage, size, stride, hgiven, heq, hold, hlaid⟩ := hmade
  exact ⟨type, data, record, storage, size, stride, hgiven, heq,
    fun id hid => Nat.le_trans hle (hold id hid), hlaid⟩

end

theorem le_of_mem_made {s : Source} {directory : String} {old record : Nat} {h : Heap}
    {tensors : List ManifestTensor} {made : List Value}
    (hall : List.Forall₂ (fun t v => t.Made s directory old h v) tensors made) (hmem : .ref record ∈ made) :
    old ≤ record := by
  induction hall with
  | nil => cases hmem
  | cons hfirst _ ih =>
      rcases List.mem_cons.mp hmem with heq | hmem
      · obtain ⟨_, _, _, _, _, _, _, rfl, hold, _⟩ := hfirst
        cases heq
        exact hold _ List.mem_cons_self
      · exact ih hmem

theorem exists_outcome_tensors {s : Source} {directory : String} {w : Workspace Unit}
    (tensors : List ManifestTensor) (hw : w.machine.heap.NamesTensors)
    (hgiven : ∀ t ∈ tensors, ∃ type data, t.Given s directory type data) : ∃ made h',
      (tensors.mapM (Bundle.buildTensor s directory)).outcome w = (.ok made, withHeap w h') ∧
      w.machine.heap.Extends h' ∧ w.machine.heap.size ≤ h'.size ∧
      List.Forall₂ (fun t v => t.Made s directory w.machine.heap.size h' v) tensors made ∧ made.Nodup := by
  induction tensors generalizing w with
  | nil => exact ⟨[], w.machine.heap, rfl, .refl _, Nat.le_refl _, .nil, List.nodup_nil⟩
  | cons t tensors ih =>
      obtain ⟨⟨type, data, ht⟩, hrest⟩ := List.forall_mem_cons.mp hgiven
      obtain ⟨h₁, hfirst, hext, hsize, hlaid⟩ := exists_outcome_buildTensor hw ht
      obtain ⟨made, h₂, hmade, hext', hle, hall, hnodup⟩ := ih (w := withHeap w h₁) (hw.extends hext) hrest
      have hrecord : t.Made s directory w.machine.heap.size h₁ (.ref (w.machine.heap.size + 1)) :=
        ⟨type, data, _, _, _, _, ht, rfl, by simp, hlaid⟩
      have hle₁ : w.machine.heap.size + 5 ≤ h₂.size := hsize ▸ hle
      refine ⟨.ref (w.machine.heap.size + 1) :: made, h₂, ?_, hext.trans hext', by omega, .cons ?_ ?_, ?_⟩
      · rw [List.mapM_cons, outcome_bind_ok hfirst, outcome_bind_ok hmade]
        rfl
      · exact hrecord.congr fun id o _ ho => hext' ho
      · exact hall.imp fun t v hv => hv.older (by simp only [heap_withHeap]; omega)
      · refine List.nodup_cons.mpr ⟨fun hmem => ?_, hnodup⟩
        -- The objects of the other tensors come after all objects of the first one.
        have hlater := le_of_mem_made hall hmem
        simp only [heap_withHeap] at hlater
        omega

end ManifestTensor

/-! ## What the tensors' objects are apart from -/

/-- The objects that the second heap has beyond the first. -/
def Enclave.between (h h' : Heap) : Enclave := { inside := fun id => h.size ≤ id ∧ id < h'.size, heap := h' }

/-- Objects that have been added to a well-formed machine are apart from all others. -/
theorem Machine.WellFormed.between {m : Machine} (hm : m.WellFormed) {h' : Heap} (hext : m.heap.Extends h') :
    (Enclave.between m.heap h').WellFormed (m.withHeap h') := by
  have hkeeps : m.heap.KeepsKinds h' := fun id kind hid => by
    obtain ⟨o, ho, rfl⟩ := Option.map_eq_some_iff.mp hid
    exact Heap.kind?_of_get? (hext ho)
  have houtside {id : Nat} (hid : id < m.heap.size) : ¬ (Enclave.between m.heap h').inside id :=
    fun hin => absurd hid (Nat.not_lt.mpr hin.1)
  have hisA {id : Nat} {kind : ObjectKind} (hid : m.heap.kind? id = some kind) :
      (Enclave.between m.heap h').IsA kind h' id := ⟨hkeeps hid, houtside (Heap.lt_size_of_kind? hid)⟩
  refine ⟨⟨fun {id o} hid ho => ?_, hisA hm.closed.root, fun hin => ⟨hin.2, rfl⟩⟩,
    fun e he => hisA (hm.packages e he)⟩
  have hlt : id < m.heap.size := Nat.lt_of_not_le fun hle => hid ⟨hle, Heap.lt_size_of_get? ho⟩
  have hold : m.heap.get? id = some m.heap.objects[id] := Array.getElem?_eq_getElem hlt
  rw [heap_withHeap, hext hold] at ho
  cases ho
  have hwithin := hm.closed.within hold
  refine ⟨fun v hv => ?_, fun scope hscope => ⟨Heap.isScope_mono (hwithin.scope scope hscope) hkeeps, ?_⟩⟩
  · cases v with
    | ref other => exact ⟨hkeeps.lt_size (hwithin.parts _ hv), houtside (hwithin.parts _ hv)⟩
    | _ => trivial
  · intro other hother
    have hholds := (Heap.isScope_iff.mp (hwithin.scope scope hscope)).2 other hother
    rw [Heap.holdsVariables, Bool.or_eq_true, beq_iff_eq, beq_iff_eq] at hholds
    exact houtside (hholds.elim Heap.lt_size_of_kind? Heap.lt_size_of_kind?)

end ModelGraph
