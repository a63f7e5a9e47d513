import ModelGraph.Proofs.Archive.Storages
import ModelGraph.Proofs.Weights.Flat

/-!
# Saved storages and tensors

What layouts save in their own ways: storages of native classes with the bytes of their elements, and
tensors by their place and shape over a storage; and how these stand on the heap once they are restored.
-/

namespace ModelGraph

namespace StorageClass

variable (c : StorageClass)

theorem oneLine_package : Pickle.OneLine c.package := by
  have hpackages : ∀ package ∈ ["torch", "torch.cuda"],
      Text.latin1 (Text.utf8 package) = package ∧ 10 ∉ Text.utf8 package := by decide +kernel
  obtain ⟨hlatin, hline⟩ := hpackages c.package c.package_mem
  exact ⟨hlatin, hline⟩

theorem oneLine_name : Pickle.OneLine c.name := by
  have hnames : ∀ element ∈ elementNames, Text.latin1 (Text.utf8 (element ++ "Storage")) =
      element ++ "Storage" ∧ 10 ∉ Text.utf8 (element ++ "Storage") := by decide +kernel
  obtain ⟨hlatin, hline⟩ := hnames c.element c.element_mem
  exact ⟨hlatin, hline⟩

/-- The name of the class of the tensors over a storage is made from that of the storage's class. -/
theorem tensorName_eq (storage : Storage) :
    (⟨c.package, c.name, storage⟩ : StorageObject).tensorName = c.tensorName := by
  have hnames : ∀ element ∈ elementNames,
      Text.replace "Storage" "Tensor" (element ++ "Storage") = element ++ "Tensor" := by decide +kernel
  exact hnames c.element c.element_mem

theorem endsWith_tensorName : c.tensorName.endsWith "Tensor" := by
  have hnames : ∀ element ∈ elementNames, (element ++ "Tensor").endsWith "Tensor" := by decide +kernel
  exact hnames c.element c.element_mem

end StorageClass

/-! ## Storages -/

/-- A storage of a native class under a key, with the bytes of its elements. -/
structure SavedStorage where
  key : Pickle.ShortText
  type : StorageClass
  count : Nat
  data : Bytes
  length_eq : data.length = count * type.type.width
  short : data.length < 0x8000000000000000

namespace SavedStorage

variable (s : SavedStorage)

/-- The storage before it has its bytes. -/
def declared : StorageObject := ⟨s.type.package, s.type.name, .declare s.type.type s.count⟩

/-- The storage as it stands on the heap. -/
def object : StorageObject :=
  ⟨s.type.package, s.type.name, (Storage.declare s.type.type s.count).fill s.data⟩

theorem count_lt : s.count < 0x8000000000000000 := by
  have hwidth := s.type.type.width_pos
  have hcount : s.count ≤ s.data.length := s.length_eq ▸ Nat.le_mul_of_pos_right s.count hwidth
  exact Nat.lt_of_le_of_lt hcount s.short

theorem byteLength?_declared : s.declared.storage.byteLength? = some s.data.length := by
  have hshort := s.short
  change (Storage.declare s.type.type s.count).byteLength? = _
  rw [Storage.byteLength?, checkedMul, checkedSize, s.length_eq, if_pos]
  · rfl
  · rw [Storage.declare, ← s.length_eq, sizeLimit]
    omega

/-- A storage shows the bytes that were saved. -/
theorem bytes?_object : s.object.storage.bytes? = some s.data := by
  have hwhole : ((Storage.declare s.type.type s.count).refill (some s.data)).Whole := by
    refine Storage.whole_refill rfl fun {data} heq => ?_
    cases heq
    have hshort := s.short
    exact ⟨s.length_eq, by rw [maxSize, sizeLimit]; omega⟩
  exact hwhole.bytes?_eq

/-- A new storage, and the same one when it has its bytes. -/
theorem updates_fill (h : Heap) : (h.push (.storage s.declared)).Updates h.size (.storage s.object)
    ((h.push (.storage s.declared)).modify h.size (Restore.onStorage (·.fill s.data))) :=
  Heap.updates_modify (Heap.get?_push_size h _) rfl

theorem outcome_newStorage {τ : Type} {w : Workspace τ}
    (hw : Heap.standard.Extends w.machine.heap) :
    (Restore.newStorage (.str (s.type.package ++ "." ++ s.type.name)) s.count).outcome w =
      (.ok (.ref w.machine.heap.size),
        Pickle.withHeap w (w.machine.heap.push (.storage s.declared))) :=
  Restore.outcome_newStorage (s.type.namesClass_name.extends hw) s.count_lt

end SavedStorage

/-! ## Tensors -/

/-- Everything but dictionaries stands where it stood. -/
def Heap.Keeps (h h' : Heap) : Prop :=
  ∀ ⦃id o⦄, h.get? id = some o → (∀ d, o ≠ .dict d) → h'.get? id = some o

theorem Heap.Updates.keeps {h h' : Heap} {root : Nat} {d : Dict} {o : Object}
    (hset : h.Updates root o h') (hroot : h.get? root = some (.dict d)) : h.Keeps h' := by
  intro id o' hid hdict
  have hne : id ≠ root := by
    rintro rfl
    rw [hroot] at hid
    exact hdict d (Option.some.inj hid).symm
  exact (hset.get?_of_ne _ hne).trans hid

/-- Where the elements of a tensor stand in its storage. -/
structure TensorLayout where
  shape : List Int64
  stride : List Int64
  offset : Int64

namespace TensorLayout

variable (t : TensorLayout)

/-- The object is a tensor of the class that belongs to the storage's, with this layout. -/
def Laid (type : StorageClass) (storage id : Nat) (h : Heap) : Prop :=
  ∃ i size stride, h.get? id = some (.instance i) ∧ i.module = type.package ∧
    i.name = type.tensorName ∧ i.fields.get? "storage" = some (.ref storage) ∧
    i.fields.get? "storage_offset" = some (.int t.offset) ∧
    i.fields.get? "size" = some (.ref size) ∧ i.fields.get? "stride" = some (.ref stride) ∧
    h.get? size = some (.list (t.shape.map .int)) ∧ h.get? stride = some (.list (t.stride.map .int))

variable {t} {type : StorageClass} {storage id size stride : Nat} {h h' : Heap}

theorem Laid.keeps (hlaid : t.Laid type storage id h) (hkeeps : h.Keeps h') :
    t.Laid type storage id h' := by
  obtain ⟨i, size, stride, hi, hmodule, hname, hstorage, hoffset, hsize, hstride, hdims, hsteps⟩ := hlaid
  exact ⟨i, size, stride, hkeeps hi nofun, hmodule, hname, hstorage, hoffset, hsize, hstride,
    hkeeps hdims nofun, hkeeps hsteps nofun⟩

theorem Laid.extends (hlaid : t.Laid type storage id h) (hext : h.Extends h') :
    t.Laid type storage id h' := hlaid.keeps fun _ _ hid _ => hext hid

/-- A new instance is laid out by its attributes, whose lists are on the heap. -/
theorem laid_setAttributes {i : Instance} (hid : h.get? id = some (.instance i))
    (hmodule : i.module = type.package) (hname : i.name = type.tensorName) (hfields : i.fields = {})
    (hsize : h.get? size = some (.list (t.shape.map .int)))
    (hstride : h.get? stride = some (.list (t.stride.map .int))) (further : List (String × Value))
    (hdistinct : (["storage", "storage_offset", "size", "stride"] ++ further.map (·.1)).Nodup) :
    t.Laid type storage id (h.setAttributes (.ref id) ([("storage", .ref storage),
      ("storage_offset", .int t.offset), ("size", .ref size), ("stride", .ref stride)] ++ further)) := by
  have hset := Heap.updates_setAttributes ([("storage", .ref storage),
    ("storage_offset", .int t.offset), ("size", .ref size), ("stride", .ref stride)] ++ further) hid
  have hother {other : Nat} {items : List Value} (ho : h.get? other = some (.list items)) :
      other ≠ id := by
    rintro rfl
    rw [hid] at ho
    cases ho
  rw [hfields, OrderedMap.foldl_insert _ _ (by simpa using hdistinct)] at hset
  exact ⟨_, size, stride, hset.get?_self, hmodule, hname, rfl, rfl, rfl, rfl,
    (hset.get?_of_ne _ (hother hsize)).trans hsize, (hset.get?_of_ne _ (hother hstride)).trans hstride⟩

/-- A tensor is rebuilt over its storage from the lists of its dimensions and strides. -/
theorem outcome_rebuild {τ : Type} {w : Workspace τ} {s : SavedStorage}
    (hw : Heap.standard.Extends w.machine.heap)
    (hstorage : w.machine.heap.get? storage = some (.storage s.object))
    (hsize : w.machine.heap.get? size = some (.list (t.shape.map .int)))
    (hstride : w.machine.heap.get? stride = some (.list (t.stride.map .int))) : ∃ h',
      (Pickle.callValue (.str "torch._utils._rebuild_tensor_v2") [.ref storage, .int t.offset,
        .ref size, .ref stride, .bool false, .none] : Restore τ Value).outcome w =
          (.ok (.ref w.machine.heap.size), Pickle.withHeap w h') ∧
      w.machine.heap.Extends h' ∧ t.Laid s.type storage w.machine.heap.size h' := by
  have hfound : w.machine.heap.storage? (.ref storage) = some s.object :=
    Heap.storage?_eq_some_iff.mpr ⟨storage, rfl, hstorage⟩
  have hinvoke := Exec.outcome_invoke_rebuildTensor (Heap.namesFunction_rebuildTensor.extends hw)
    hfound (.int t.offset) (.ref size) (.ref stride) (.bool false) .none
  have hname : s.object.tensorName = s.type.tensorName := s.type.tensorName_eq _
  have hpush := Heap.extends_push w.machine.heap
    (.instance { module := s.object.module, name := s.object.tensorName })
  have hinstance := Heap.get?_push_size w.machine.heap
    (.instance { module := s.object.module, name := s.object.tensorName })
  have hcall := Restore.outcome_exec_ok hinvoke
  refine ⟨_, hcall, hpush.updates (Nat.le_refl _) (Heap.updates_setAttributes _ hinstance), ?_⟩
  exact laid_setAttributes hinstance rfl hname rfl (hpush hsize) (hpush hstride) _ (by decide)

/-- What is laid out as a tensor is taken for one. -/
theorem Laid.holdsTensor (hlaid : t.Laid type storage id h) : h.HoldsTensor (.ref id) := by
  obtain ⟨i, -, -, hi, hmodule, hname, -⟩ := hlaid
  have hobject : h.object? (.ref id) = some (.instance i) := hi
  have hpackage := type.package_mem
  simp only [List.mem_cons, List.not_mem_nil, or_false] at hpackage
  refine ⟨i, by rw [Heap.instance?, hobject], ?_⟩
  simp [Instance.isPlainTensor, hmodule, hname, hpackage, type.endsWith_tensorName]

end TensorLayout

end ModelGraph
