import ModelGraph.Proofs.OrderedMap
import ModelGraph.Proofs.Weights.Partition
import ModelGraph.Weights.Find

/-!
# Weights without tensors

An object that leads to no tensor is not taken for weights, with one exception: a mapping whose
entries all have the names of packed parameters is a flat dictionary, whatever it holds under them.
The layers that are found then have no tensors.
-/

namespace ModelGraph

theorem one_lt_length_filterMap_iff {α β : Type} {f : α → Option β} {items : List α} :
    1 < (items.filterMap f).length ↔ ∃ a b, [a, b].Sublist items ∧ (f a).isSome ∧ (f b).isSome := by
  induction items with
  | nil => simp
  | cons x items ih =>
      cases hx : f x with
      | none =>
          rw [List.filterMap_cons_none hx, ih]
          refine exists_congr fun a => exists_congr fun b => and_congr_left fun ⟨ha, _⟩ => ?_
          have hne : a ≠ x := by
            rintro rfl
            simp [hx] at ha
          simp [List.sublist_cons_iff, hne]
      | some y =>
          have hrest : 0 < (items.filterMap f).length ↔ ∃ b ∈ items, (f b).isSome := by
            simp only [List.length_pos_iff_exists_mem, List.mem_filterMap, Option.isSome_iff_exists]
            exact ⟨fun ⟨c, b, hb, hc⟩ => ⟨b, hb, c, hc⟩, fun ⟨b, hb, c, hc⟩ => ⟨c, b, hb, hc⟩⟩
          rw [List.filterMap_cons_some hx, List.length_cons, Nat.lt_add_left_iff_pos, hrest]
          constructor
          · rintro ⟨b, hb, hsome⟩
            exact ⟨x, b, (List.singleton_sublist.mpr hb).cons_cons x, by simp [hx], hsome⟩
          · rintro ⟨a, b, hsub, -, hsome⟩
            exact ⟨b, List.singleton_sublist.mp hsub.tail, hsome⟩

theorem LayerPart.eq_state_of_state? {part : LayerPart} {s : WeightState}
    (hs : part.state? = some s) : part = .state s := by
  cases part with
  | scalar name value => cases hs
  | state s' =>
      cases hs
      rfl

namespace Heap

/-- What can be reached from a value: items of lists, values of mappings, own fields of objects. -/
inductive Leads (h : Heap) (root : Value) : Value → Prop
  | root : Leads h root root
  | item {v w : Value} {items : List Value} (hv : Leads h root v) (hitems : h.items? v = some items)
      (hw : w ∈ items) : Leads h root w
  | entry {v : Value} {entries : List (Value × Value)} {e : Value × Value} (hv : Leads h root v)
      (hentries : h.entries? v = some entries) (he : e ∈ entries) : Leads h root e.2

/-- No tensor can be reached. -/
def TensorFree (h : Heap) (root : Value) : Prop := ∀ v, h.Leads root v → h.isTensor v = false

/-- A value under a name of packed parameters: any value for the type, no tensors in the list. -/
def PackedEntry (h : Heap) (key : String) (v : Value) : Prop :=
  (v ≠ .none ∧ ∃ layer, key = layer ++ "." ++ packedType) ∨
    (h.items? v = some [] ∧ ∃ layer, key = layer ++ "." ++ packedTensors)

/-- A mapping with packed parameters and nothing else but metadata. -/
def PackedAlone (h : Heap) (v : Value) : Prop :=
  ∃ entries, h.entries? v = some entries ∧
    (∀ e ∈ entries, ∃ key, e.1.keyName? = some key ∧ key ≠ "" ∧
      (key = "_metadata" ∨ h.PackedEntry key e.2)) ∧
    ∃ e ∈ entries, e.1.keyName? ≠ some "_metadata"

/-- Packed parameters alone are found at a value, or under two of its names. -/
def HoldsPacked (h : Heap) (v : Value) : Prop :=
  h.PackedAlone v ∨ ∃ a b, [a, b].Sublist ((h.entries? v).getD []) ∧
    ∀ e ∈ [a, b], e.1.keyName?.isSome ∧ h.PackedAlone e.2

variable {h : Heap} {root v w : Value}

theorem Leads.trans (first : h.Leads root v) (second : h.Leads v w) : h.Leads root w := by
  induction second with
  | root => exact first
  | item _ hitems hw ih => exact ih.item hitems hw
  | entry _ hentries he ih => exact ih.entry hentries he

/-- What stands under a text stands in an entry. -/
theorem exists_entry_of_item? {key : String} (hw : h.item? v (.str key) = some w) :
    ∃ entries, h.entries? v = some entries ∧ ∃ e ∈ entries, e.2 = w := by
  have hfields {fields : Fields} (hget : fields.get? key = some w) :
      ∃ e ∈ fields.entries.map (fun e => (Value.str e.1, e.2)), e.2 = w :=
    ⟨_, List.mem_map_of_mem (OrderedMap.mem_entries_of_get? hget), rfl⟩
  unfold item? at hw
  unfold entries?
  split at hw
  next => cases hw
  next d ho =>
    rw [ho]
    exact ⟨_, rfl, _, List.mem_map_of_mem (OrderedMap.mem_entries_of_get? hw), rfl⟩
  next => cases hw
  next o _ hdict _ ho =>
    obtain ⟨name, hname, hw⟩ := Option.bind_eq_some_iff.mp hw
    obtain ⟨fields, hown, hget⟩ := Option.bind_eq_some_iff.mp hw
    cases hname
    rw [ho]
    cases o with
    | dict d => exact absurd rfl (hdict d)
    | _ => exact ⟨_, congrArg (Option.map _) hown, hfields hget⟩
  next => cases hw

/-! ## Sets of weights -/

/-- The set of weights that an entry names. -/
def weightSet? (h : Heap) (e : Value × Value) : Option WeightSet := do
  return ⟨← e.1.keyName?, ← h.layers? e.2⟩

theorem weightsAt?_of_layers? {layers : List Layer} (hlayers : h.layers? v = some layers) :
    h.weightsAt? v = some [⟨"", layers⟩] := by
  rw [weightsAt?, hlayers]

theorem weightsAt?_of_no_layers (hlayers : h.layers? v = none) :
    h.weightsAt? v = if 1 < (((h.entries? v).getD []).filterMap h.weightSet?).length
      then some (((h.entries? v).getD []).filterMap h.weightSet?) else none := by
  rw [weightsAt?, hlayers]
  rfl

namespace TensorFree

variable (hfree : h.TensorFree v)
include hfree

theorem isTensor_eq_false : h.isTensor v = false := hfree v .root

theorem of_leads (hw : h.Leads v w) : h.TensorFree w := fun x hx => hfree x (hw.trans hx)

theorem item {items : List Value} (hitems : h.items? v = some items) (hw : w ∈ items) :
    h.TensorFree w := hfree.of_leads (.item .root hitems hw)

theorem entry {entries : List (Value × Value)} {e : Value × Value}
    (hentries : h.entries? v = some entries) (he : e ∈ entries) : h.TensorFree e.2 :=
  hfree.of_leads (.entry .root hentries he)

theorem keyed {key : String} (hw : h.keyed? v key = some w) : h.TensorFree w := by
  unfold keyed? at hw
  split_ifs at hw
  · cases hw
    exact hfree
  · obtain ⟨hitem, -⟩ := Option.filter_eq_some_iff.mp hw
    obtain ⟨entries, hentries, e, he, rfl⟩ := exists_entry_of_item? hitem
    exact hfree.entry hentries he

/-! ## The shapes that need tensors -/

theorem tensorLayers?_eq_none : h.tensorLayers? v = none := by
  rw [tensorLayers?, if_neg (by simp [hfree.isTensor_eq_false])]

theorem states_recordLayer {i : Instance} (hi : h.instance? v = some i) :
    (h.recordLayer i).states = [] := by
  have hentries : h.entries? v = some (i.fields.entries.map fun e => (.str e.1, e.2)) := by
    unfold instance? at hi
    unfold entries?
    split at hi <;> cases hi
    next ho =>
      rw [ho]
      rfl
  have hplain : ∀ e ∈ i.fields.entries, h.isTensor e.2 = false := fun e he =>
    (hfree.entry hentries (List.mem_map_of_mem he)).isTensor_eq_false
  unfold recordLayer
  refine List.foldlRecOn (motive := fun l : Layer => l.states = []) i.fields.entries _ rfl ?_
  intro l hl e he
  simp only [hplain e he]
  exact hl

theorem recordLayers?_eq_none : h.recordLayers? v = none := by
  refine Option.eq_none_iff_forall_ne_some.mpr fun layers hlayers => ?_
  obtain ⟨items, hitems, hlayers⟩ := Option.bind_eq_some_iff.mp hlayers
  obtain ⟨made, hmade, hlayers⟩ := Option.bind_eq_some_iff.mp hlayers
  obtain ⟨-, rfl⟩ := mapM_eq_some_iff.mp hmade
  split_ifs at hlayers with hany
  obtain ⟨l, hl, hstates⟩ := List.any_eq_true.mp hany
  obtain ⟨item, hitem, hrecord⟩ := List.mem_filterMap.mp hl
  obtain ⟨i, hi, rfl⟩ := Option.map_eq_some_iff.mp hrecord
  simp [(hfree.item hitems hitem).states_recordLayer hi] at hstates

omit hfree in
theorem states_addGroupMember {name : String} {l l' : Layer} {e : Value × Value}
    (he : h.isTensor e.2 = false) (hadd : h.addGroupMember name l e = some l') :
    l'.states = l.states := by
  obtain ⟨key, -, hadd⟩ := Option.bind_eq_some_iff.mp hadd
  rw [he] at hadd
  simp only [Bool.false_eq_true, if_false] at hadd
  split_ifs at hadd <;> cases hadd <;> rfl

omit hfree in
theorem states_foldlM_addGroupMember {name : String} {l l' : Layer}
    {members : List (Value × Value)} (hmembers : ∀ e ∈ members, h.isTensor e.2 = false)
    (hfold : members.foldlM (h.addGroupMember name) l = some l') : l'.states = l.states := by
  induction members generalizing l with
  | nil =>
      cases hfold
      rfl
  | cons e members ih =>
      obtain ⟨he, hmembers⟩ := List.forall_mem_cons.mp hmembers
      rw [List.foldlM_cons] at hfold
      obtain ⟨next, hnext, hfold⟩ := Option.bind_eq_some_iff.mp hfold
      rw [ih hmembers hfold, states_addGroupMember he hnext]

theorem groupLayer?_eq_none (group : Value) : h.groupLayer? group v = none := by
  refine Option.eq_none_iff_forall_ne_some.mpr fun layer hlayer => ?_
  obtain ⟨name, hname, hlayer⟩ := Option.bind_eq_some_iff.mp hlayer
  obtain ⟨members, hmembers, hlayer⟩ := Option.bind_eq_some_iff.mp hlayer
  obtain ⟨filled, hfilled, hlayer⟩ := Option.bind_eq_some_iff.mp hlayer
  have hplain : ∀ e ∈ members, h.isTensor e.2 = false := fun e he =>
    (hfree.entry hmembers he).isTensor_eq_false
  have hstates : filled.states = [] := states_foldlM_addGroupMember hplain hfilled
  simp [hstates] at hlayer

theorem groupLayers?_eq_none : h.groupLayers? v = none := by
  refine Option.eq_none_iff_forall_ne_some.mpr fun layers hlayers => ?_
  obtain ⟨groups, hgroups, hlayers⟩ := Option.bind_eq_some_iff.mp hlayers
  obtain ⟨made, hmade, hlayers⟩ := Option.bind_eq_some_iff.mp hlayers
  obtain ⟨-, hmade⟩ := mapM_eq_some_iff.mp hmade
  have hempty : made = [] := by
    rw [← hmade]
    refine List.filterMap_eq_nil_iff.mpr fun e he => ?_
    exact (hfree.entry hgroups he).groupLayer?_eq_none e.1
  simp [hempty, nonEmpty] at hlayers

theorem layers?_eq : h.layers? v = h.flatLayers? v := by
  rw [layers?, List.findSome?_cons, hfree.tensorLayers?_eq_none, List.findSome?_cons,
    hfree.recordLayers?_eq_none, List.findSome?_cons]
  cases h.flatLayers? v with
  | some layers => rfl
  | none => rw [List.findSome?_singleton, hfree.groupLayers?_eq_none]

/-! ## Flat dictionaries -/

theorem places {key : String} {p : String × LayerPart} (hp : h.Places key v p) :
    h.PackedEntry key v ∧ ∀ s, p.2 = .state s → s.tensors = [] := by
  cases hp with
  | packedType layer hkey hv => exact ⟨.inl ⟨hv, layer, hkey⟩, nofun⟩
  | packedTensors layer items hkey hitems htensors =>
      have hempty : items = [] := List.eq_nil_iff_forall_not_mem.mpr fun t ht => by
        have htensor := htensors t ht
        rw [(hfree.item hitems ht).isTensor_eq_false] at htensor
        cases htensor
      subst hempty
      refine ⟨.inr ⟨hitems, layer, hkey⟩, fun s hs => ?_⟩
      cases hs
      rfl
  | tensor layer name hkey hname htype htensor =>
      rw [hfree.isTensor_eq_false] at htensor
      cases htensor
  | undotted hkey htensor =>
      rw [hfree.isTensor_eq_false] at htensor
      cases htensor

theorem isSome_flat?_iff {key : String} :
    ( h.flatEntry? key v).isSome ↔ h.PackedEntry key v := by
  constructor
  · intro hsome
    obtain ⟨e, he⟩ := Option.isSome_iff_exists.mp hsome
    exact (hfree.places (places_of_flat? he)).1
  · have hsome {p : String × LayerPart} (hp : h.Places key v p) : ( h.flatEntry? key v).isSome := by
      obtain ⟨e, he, -⟩ := flat?_of_places hp
      rw [he]
      rfl
    rintro (⟨hv, layer, hkey⟩ | ⟨hitems, layer, hkey⟩)
    · exact hsome (.packedType layer hkey hv)
    · exact hsome (.packedTensors layer [] hkey hitems nofun)

/-- Every entry that is taken in adds to the layers without fail. -/
theorem exists_addFlatEntry {key : String} {e : FlatEntry} (he : h.flatEntry? key v = some e)
    (layers : List Layer) : ∃ layers', h.addFlatEntry layers e = some layers' := by
  have hplaced := (hfree.places (places_of_flat? he)).2
  cases e with
  | packedType layer v => exact ⟨_, rfl⟩
  | packedTensors layer items => exact ⟨_, rfl⟩
  | tensor layer name key v => cases hplaced _ rfl

omit hfree

theorem exists_foldlM {flat : List FlatEntry}
    (hflat : ∀ e ∈ flat, ∃ key w, h.TensorFree w ∧ h.flatEntry? key w = some e)
    (layers : List Layer) : ∃ layers', flat.foldlM h.addFlatEntry layers = some layers' := by
  induction flat generalizing layers with
  | nil => exact ⟨layers, rfl⟩
  | cons e flat ih =>
      obtain ⟨⟨key, w, hw, he⟩, hrest⟩ := List.forall_mem_cons.mp hflat
      obtain ⟨next, hnext⟩ := hw.exists_addFlatEntry he layers
      rw [List.foldlM_cons, hnext]
      exact ih hrest next

include hfree

theorem exists_of_taken? {entries : List (Value × Value)}
    (hentries : h.entries? v = some entries) : ∀ e ∈ entries.filterMap h.taken?,
      ∃ key w, h.TensorFree w ∧ h.flatEntry? key w = some e := by
  intro e he
  obtain ⟨entry, hentry, htaken⟩ := List.mem_filterMap.mp he
  obtain ⟨key, -, htaken⟩ := Option.bind_eq_some_iff.mp htaken
  split_ifs at htaken
  exact ⟨key, entry.2, hfree.entry hentries hentry, htaken⟩

theorem isSome_flatLayers?_iff : (h.flatLayers? v).isSome ↔ h.PackedAlone v := by
  rw [Option.isSome_iff_exists]
  simp only [flatLayers?_eq_some_iff, flatEntries?_eq_some_iff]
  constructor
  · rintro ⟨layers, _, ⟨entries, hentries, hall, rfl⟩, hmade, hne⟩
    refine ⟨entries, hentries, fun e he => ?_, ?_⟩
    · obtain ⟨key, hkey, hnamed, htaken⟩ := hall e he
      rw [(hfree.entry hentries he).isSome_flat?_iff] at htaken
      exact ⟨key, hkey, hnamed, htaken⟩
    · by_contra! hmeta
      rw [List.filterMap_eq_nil_iff.mpr fun e he => by simp [taken?, hmeta e he]] at hmade
      exact hne (Option.some.inj hmade).symm
  · rintro ⟨entries, hentries, hall, e, he, hmeta⟩
    have htaken := hfree.exists_of_taken? hentries
    obtain ⟨layers, hmade⟩ := exists_foldlM htaken []
    refine ⟨layers, _, ⟨entries, hentries, fun e he => ?_, rfl⟩, hmade, ?_⟩
    · obtain ⟨key, hkey, hnamed, hpacked⟩ := hall e he
      rw [← (hfree.entry hentries he).isSome_flat?_iff] at hpacked
      exact ⟨key, hkey, hnamed, hpacked⟩
    · rintro rfl
      have hnothing := List.nil_perm.mp (holds_foldlM Layer.holds_nil hmade).perm
      rw [List.nil_append, List.map_eq_nil_iff, List.filterMap_eq_nil_iff] at hnothing
      obtain ⟨key, hkey, -, hpacked⟩ := hall e he
      have hne : key ≠ "_metadata" := fun heq => hmeta (heq ▸ hkey)
      have hsome := (hfree.entry hentries he).isSome_flat?_iff.mpr (hpacked.resolve_left hne)
      have hnone := hnothing e he
      rw [taken?, hkey, Option.bind_some, if_neg hne] at hnone
      rw [hnone] at hsome
      cases hsome

theorem tensors_eq_nil {layers : List Layer} (hlayers : h.layers? v = some layers) :
    ∀ l ∈ layers, ∀ s ∈ l.states, s.tensors = [] := by
  rw [hfree.layers?_eq] at hlayers
  obtain ⟨_, hflat, hmade, -⟩ := flatLayers?_eq_some_iff.mp hlayers
  obtain ⟨entries, hentries, -, rfl⟩ := flatEntries?_eq_some_iff.mp hflat
  intro l hl s hs
  rw [(holds_foldlM Layer.holds_nil hmade).states l hl] at hs
  obtain ⟨part, hpart, hstate⟩ := List.mem_filterMap.mp hs
  obtain ⟨p, hp, rfl⟩ := List.mem_map.mp hpart
  obtain ⟨e, he, rfl⟩ := List.mem_map.mp (List.mem_filter.mp hp).1
  obtain ⟨key, w, hw, hfound⟩ := hfree.exists_of_taken? hentries e he
  exact (hw.places (places_of_flat? hfound)).2 s (LayerPart.eq_state_of_state? hstate)

/-! ## Finding -/

theorem isSome_layers?_iff : (h.layers? v).isSome ↔ h.PackedAlone v := by
  rw [hfree.layers?_eq, hfree.isSome_flatLayers?_iff]

theorem entry_getD {e : Value × Value} (he : e ∈ (h.entries? v).getD []) : h.TensorFree e.2 := by
  cases hentries : h.entries? v with
  | none => simp [hentries] at he
  | some entries => exact hfree.entry hentries (by simpa [hentries] using he)

theorem isSome_weightSet?_iff {e : Value × Value} (he : e ∈ (h.entries? v).getD []) :
    (h.weightSet? e).isSome ↔ e.1.keyName?.isSome ∧ h.PackedAlone e.2 := by
  rw [← (hfree.entry_getD he).isSome_layers?_iff, weightSet?]
  cases e.1.keyName? <;> cases h.layers? e.2 <;> simp

theorem isSome_weightsAt?_iff : (h.weightsAt? v).isSome ↔ h.HoldsPacked v := by
  rw [HoldsPacked, ← hfree.isSome_layers?_iff]
  cases hlayers : h.layers? v with
  | some layers => simp [weightsAt?_of_layers? hlayers]
  | none =>
      rw [weightsAt?_of_no_layers hlayers, Option.isSome_ite, one_lt_length_filterMap_iff]
      simp only [Option.isSome_none, Bool.false_eq_true, false_or, List.forall_mem_cons,
        List.not_mem_nil, false_imp_iff, implies_true, and_true]
      refine exists_congr fun a => exists_congr fun b => and_congr_right fun hsub => ?_
      rw [hfree.isSome_weightSet?_iff (hsub.mem List.mem_cons_self),
        hfree.isSome_weightSet?_iff (hsub.mem (by simp))]

theorem tensors_weightsAt? {sets : List WeightSet} (hsets : h.weightsAt? v = some sets) :
    ∀ set ∈ sets, ∀ l ∈ set.layers, ∀ s ∈ l.states, s.tensors = [] := by
  intro set hset
  cases hlayers : h.layers? v with
  | some layers =>
      rw [weightsAt?_of_layers? hlayers] at hsets
      cases hsets
      cases List.mem_singleton.mp hset
      exact hfree.tensors_eq_nil hlayers
  | none =>
      rw [weightsAt?_of_no_layers hlayers] at hsets
      split_ifs at hsets
      cases hsets
      obtain ⟨e, he, hfound⟩ := List.mem_filterMap.mp hset
      obtain ⟨name, -, hfound⟩ := Option.bind_eq_some_iff.mp hfound
      obtain ⟨layers, hlayers, hfound⟩ := Option.bind_eq_some_iff.mp hfound
      cases hfound
      exact (hfree.entry_getD he).tensors_eq_nil hlayers

end TensorFree

/-- Where no tensor can be reached, weights are found only where some object has entries named like
packed parameters and no others, or two of its entries do; and what is found has no tensors. -/
theorem weights?_of_tensorFree (hfree : h.TensorFree root) :
    ((h.weights? root).isSome ↔
      ∃ key ∈ h.candidateKeys root, ∃ v, h.keyed? root key = some v ∧ h.HoldsPacked v) ∧
    ∀ sets, h.weights? root = some sets → ∀ set ∈ sets, ∀ l ∈ set.layers, ∀ s ∈ l.states,
      s.tensors = [] := by
  constructor
  · rw [weights?, List.findSome?_isSome_iff]
    refine exists_congr fun key => and_congr_right fun _ => ?_
    cases hkeyed : h.keyed? root key with
    | none => simp
    | some v => simp [(hfree.keyed hkeyed).isSome_weightsAt?_iff]
  · intro sets hsets
    obtain ⟨key, hkey, hfound⟩ := List.exists_of_findSome?_eq_some hsets
    obtain ⟨v, hv, hat⟩ := Option.bind_eq_some_iff.mp hfound
    exact (hfree.keyed hv).tensors_weightsAt? hat

namespace Settings

/-- A dictionary with one number, under the name of a type of packed parameters. -/
def heap : Heap where
  objects := #[.dict ⟨[(.str "fc._packed_params.dtype", .int 12)]⟩]

theorem tensorFree : heap.TensorFree (.ref 0) := by
  have hleads (v : Value) (hv : heap.Leads (.ref 0) v) : v = .ref 0 ∨ v = .int 12 := by
    induction hv with
    | root => exact .inl rfl
    | item _ hitems _ ih => rcases ih with rfl | rfl <;> cases hitems
    | entry _ hentries he ih =>
        rcases ih with rfl | rfl <;> cases hentries
        cases List.mem_singleton.mp he
        exact .inr rfl
  intro v hv
  rcases hleads v hv with rfl | rfl <;> rfl

end Settings

/-- A number alone is found as weights. -/
theorem weights?_of_settings : Settings.heap.TensorFree (.ref 0) ∧
    Settings.heap.weights? (.ref 0) =
      some [⟨"", [{ name := "fc", attributes := [(packedType, .int 12)] }]⟩] ∧
    ((Settings.heap.weights? (.ref 0)).isSome ↔ ∃ key ∈ Settings.heap.candidateKeys (.ref 0), ∃ v,
      Settings.heap.keyed? (.ref 0) key = some v ∧ Settings.heap.HoldsPacked v) ∧
    ∀ sets, Settings.heap.weights? (.ref 0) = some sets → ∀ set ∈ sets, ∀ l ∈ set.layers,
      ∀ s ∈ l.states, s.tensors = [] :=
  ⟨Settings.tensorFree, by decide +kernel, weights?_of_tensorFree Settings.tensorFree⟩

end Heap

end ModelGraph
