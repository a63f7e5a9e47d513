import Mathlib.Data.List.Nodup
import ModelGraph.Proofs.Object.Names
import ModelGraph.Weights.Layer

/-!
# Flat dictionaries are split without loss

Every entry of a flat dictionary has a place: the layer that it belongs to and what it is there. The
layers hold what was placed in them, each entry once, in the order of the entries, and nothing else.
-/

namespace ModelGraph

/-- A list is mapped where every item is. -/
theorem mapM_eq_some_iff {α β : Type} {f : α → Option β} {items : List α} {results : List β} :
    items.mapM f = some results ↔ (∀ a ∈ items, (f a).isSome) ∧ items.filterMap f = results := by
  induction items generalizing results with
  | nil => simp
  | cons a items ih =>
      rw [List.mapM_cons]
      cases ha : f a with
      | none => simp [ha]
      | some b =>
          cases hrest : items.mapM f with
          | none =>
              have hnone : ¬∀ a ∈ items, (f a).isSome := fun hall => by
                rw [ih.mpr ⟨hall, rfl⟩] at hrest
                cases hrest
              simp [ha, hnone]
          | some rest =>
              obtain ⟨hall, hrest⟩ := ih.mp hrest
              have hsome : ∀ a' ∈ a :: items, (f a').isSome :=
                List.forall_mem_cons.mpr ⟨by rw [ha]; rfl, hall⟩
              rw [List.filterMap_cons_some ha, hrest]
              exact ⟨fun heq => ⟨hsome, Option.some.inj heq⟩, fun heq => congrArg some heq.2⟩

theorem beforeSuffix?_eq_some_iff {s suffix start : String} :
    beforeSuffix? s suffix = some start ↔ s = start ++ suffix := by
  simp only [beforeSuffix?]
  constructor
  · intro h
    split_ifs at h with hdrop
    have hstart : s.toList.take (s.length - suffix.length) = start.toList := by
      rw [← Option.some.inj h, String.toList_ofList]
    apply String.toList_injective
    rw [String.toList_append, ← hstart, ← hdrop, List.take_append_drop]
  · rintro rfl
    have hlength : (start ++ suffix).length - suffix.length = start.toList.length := by
      rw [String.length_append, String.length_toList, Nat.add_sub_cancel]
    rw [hlength, String.toList_append, List.drop_left, List.take_left, if_pos rfl,
      String.ofList_toList]

theorem beforeSuffix?_dot_eq_some_iff {key name start : String} :
    beforeSuffix? key ("." ++ name) = some start ↔ key = start ++ "." ++ name := by
  rw [beforeSuffix?_eq_some_iff, String.append_assoc]

theorem beforeSuffix?_dot_eq_none_iff {key name : String} :
    beforeSuffix? key ("." ++ name) = none ↔ ∀ start, key ≠ start ++ "." ++ name := by
  simp only [Option.eq_none_iff_forall_ne_some, ne_eq, beforeSuffix?_dot_eq_some_iff]

/-- What an entry is in its layer. -/
inductive LayerPart where
  | scalar (name : String) (value : Value)
  | state (state : WeightState)

namespace LayerPart

def attribute? : LayerPart → Option (String × Value)
  | .scalar name value => some (name, value)
  | .state _ => none

def state? : LayerPart → Option WeightState
  | .scalar .. => none
  | .state s => some s

end LayerPart

namespace Layer

def add (l : Layer) : LayerPart → Layer
  | .scalar name value => l.addAttribute name value
  | .state s => l.addState s.name s.tensors

/-- All that a layer holds. -/
def parts (l : Layer) : List LayerPart :=
  l.attributes.map (fun a => .scalar a.1 a.2) ++ l.states.map .state

@[simp] theorem name_add (l : Layer) (part : LayerPart) : (l.add part).name = l.name := by
  cases part <;> rfl

@[simp] theorem type_add (l : Layer) (part : LayerPart) : (l.add part).type = l.type := by
  cases part <;> rfl

theorem states_add (l : Layer) (part : LayerPart) :
    (l.add part).states = l.states ++ part.state?.toList := by
  cases part with
  | scalar name value => exact (List.append_nil _).symm
  | state s => rfl

theorem attributes_add (l : Layer) (part : LayerPart) :
    (l.add part).attributes = l.attributes ++ part.attribute?.toList := by
  cases part with
  | scalar name value => rfl
  | state s => exact (List.append_nil _).symm

theorem parts_add (l : Layer) (part : LayerPart) : (l.add part).parts.Perm (part :: l.parts) := by
  rw [parts, attributes_add, states_add, List.map_append, List.map_append]
  cases part with
  | scalar name value =>
      rw [LayerPart.attribute?, LayerPart.state?, List.append_assoc]
      exact (List.append_nil _ ▸ List.perm_middle)
  | state s =>
      rw [LayerPart.attribute?, LayerPart.state?]
      simp only [Option.toList_none, List.map_nil, List.append_nil, ← List.append_assoc]
      exact List.perm_append_singleton _ _

/-! ## Changing one layer -/

theorem names_update (name : String) (part : LayerPart) (layers : List Layer) :
    (update name (·.add part) layers).map (·.name) = if name ∈ layers.map (·.name)
      then layers.map (·.name) else layers.map (·.name) ++ [name] := by
  induction layers with
  | nil => simp [update]
  | cons l layers ih =>
      unfold update
      by_cases hname : l.name = name
      · simp [hname]
      · rw [if_neg hname, List.map_cons, ih]
        by_cases hmem : name ∈ layers.map (·.name) <;> simp [hmem, Ne.symm hname]

/-- Where names are distinct, the layer of the name is changed, or made, and no other. -/
theorem mem_update {name : String} {part : LayerPart} {layers : List Layer}
    (hnodup : (layers.map (·.name)).Nodup) {l : Layer} (hl : l ∈ update name (·.add part) layers) :
    (l.name ≠ name ∧ l ∈ layers) ∨ (∃ l₀ ∈ layers, l₀.name = name ∧ l = l₀.add part) ∨
      (name ∉ layers.map (·.name) ∧ l = add { name } part) := by
  induction layers with
  | nil => exact .inr (.inr ⟨List.not_mem_nil, by simpa [update] using hl⟩)
  | cons first layers ih =>
      obtain ⟨hfirst, hrest⟩ := List.nodup_cons.mp hnodup
      unfold update at hl
      by_cases hname : first.name = name
      · rw [if_pos hname] at hl
        rcases List.mem_cons.mp hl with rfl | hl
        · exact .inr (.inl ⟨first, List.mem_cons_self, hname, rfl⟩)
        · refine .inl ⟨fun heq => hfirst ?_, List.mem_cons_of_mem _ hl⟩
          exact List.mem_map.mpr ⟨l, hl, heq.trans hname.symm⟩
      · rw [if_neg hname] at hl
        rcases List.mem_cons.mp hl with rfl | hl
        · exact .inl ⟨hname, List.mem_cons_self⟩
        · rcases ih hrest hl with ⟨hne, hmem⟩ | ⟨l₀, hmem, heq⟩ | ⟨hnew, heq⟩
          · exact .inl ⟨hne, List.mem_cons_of_mem _ hmem⟩
          · exact .inr (.inl ⟨l₀, List.mem_cons_of_mem _ hmem, heq⟩)
          · refine .inr (.inr ⟨?_, heq⟩)
            simpa [Ne.symm hname] using hnew

/-- All that some layers hold, with the names of the layers. -/
def contents (layers : List Layer) : List (String × LayerPart) :=
  layers.flatMap fun l => l.parts.map (l.name, ·)

theorem contents_update (name : String) (part : LayerPart) (layers : List Layer) :
    (contents (update name (·.add part) layers)).Perm ((name, part) :: contents layers) := by
  have hadded (l : Layer) : ((l.add part).parts.map ((l.add part).name, ·)).Perm
      ((l.name, part) :: l.parts.map (l.name, ·)) := by
    rw [name_add]
    exact (parts_add l part).map _
  induction layers with
  | nil => exact (hadded { name }).append_right []
  | cons l layers ih =>
      unfold update
      by_cases hname : l.name = name
      · rw [if_pos hname]
        subst hname
        exact (hadded l).append_right _
      · rw [if_neg hname]
        exact (ih.append_left _).trans List.perm_middle

/-! ## Layers of what was placed -/

/-- The parts placed in a layer, in order. -/
def placedIn (name : String) (placed : List (String × LayerPart)) : List LayerPart :=
  (placed.filter (·.1 = name)).map (·.2)

theorem placedIn_concat (name : String) (placed : List (String × LayerPart))
    (p : String × LayerPart) : placedIn name (placed ++ [p]) =
      placedIn name placed ++ if p.1 = name then [p.2] else [] := by
  by_cases h : p.1 = name <;> simp [placedIn, h]

theorem placedIn_eq_nil {name : String} {placed : List (String × LayerPart)}
    (h : name ∉ placed.map (·.1)) : placedIn name placed = [] := by
  have hnone : ∀ p ∈ placed, ¬p.1 = name := fun p hp heq =>
    h (List.mem_map.mpr ⟨p, hp, heq⟩)
  rw [placedIn, List.filter_eq_nil_iff.mpr (by simpa using hnone), List.map_nil]

/-- The layers hold what was placed in layers of their names, and nothing else. -/
structure Holds (placed : List (String × LayerPart)) (layers : List Layer) : Prop where
  /-- A layer for each name, in the order in which the names first stand. -/
  names : layers.map (·.name) = (placed.map (·.1)).eraseDups
  nodup : (layers.map (·.name)).Nodup
  /-- Everything placed is in one layer, once. -/
  perm : (contents layers).Perm placed
  states : ∀ l ∈ layers, l.states = (placedIn l.name placed).filterMap LayerPart.state?
  attributes : ∀ l ∈ layers, l.attributes = (placedIn l.name placed).filterMap LayerPart.attribute?
  untyped : ∀ l ∈ layers, l.type = none

theorem holds_nil : Holds [] [] where
  names := rfl
  nodup := List.nodup_nil
  perm := List.Perm.nil
  states := nofun
  attributes := nofun
  untyped := nofun

theorem Holds.mem_names_iff {placed : List (String × LayerPart)} {layers : List Layer}
    (h : Holds placed layers) {name : String} :
    name ∈ layers.map (·.name) ↔ name ∈ placed.map (·.1) := by
  rw [h.names, List.mem_eraseDups]

theorem Holds.update {placed : List (String × LayerPart)} {layers : List Layer}
    (h : Holds placed layers) (p : String × LayerPart) :
    Holds (placed ++ [p]) (Layer.update p.1 (·.add p.2) layers) := by
  obtain ⟨name, part⟩ := p
  -- An invariant of a layer and what is placed there holds of the changed layers too.
  have hlayers (good : Layer → List LayerPart → Prop)
      (hgood : ∀ l ∈ layers, good l (placedIn l.name placed)) (hempty : good { name } [])
      (hadd : ∀ l parts, good l parts → good (l.add part) (parts ++ [part])) :
      ∀ l ∈ Layer.update name (·.add part) layers,
        good l (placedIn l.name (placed ++ [(name, part)])) := by
    intro l hl
    rw [placedIn_concat]
    rcases mem_update h.nodup hl with ⟨hne, hmem⟩ | ⟨l₀, hmem, hname, rfl⟩ | ⟨hnew, rfl⟩
    · rw [if_neg (Ne.symm hne), List.append_nil]
      exact hgood l hmem
    · rw [name_add, if_pos hname.symm]
      exact hadd l₀ _ (hgood l₀ hmem)
    · rw [name_add, if_pos rfl, placedIn_eq_nil (mt h.mem_names_iff.mpr hnew)]
      exact hadd _ _ hempty
  have hnames := names_update name part layers
  refine ⟨?_, ?_, ?_, ?_, ?_, ?_⟩
  · have hmem : name ∈ layers.map (·.name) ↔ name ∈ placed.map (·.1) := h.mem_names_iff
    rw [hnames, List.map_append, List.map_singleton, List.eraseDups_append, ← h.names]
    by_cases hold : name ∈ placed.map (·.1)
    · rw [if_pos (hmem.mpr hold)]
      simp [List.removeAll, hold]
    · rw [if_neg (mt hmem.mp hold)]
      simp [List.removeAll, hold, List.eraseDups_cons]
  · rw [hnames]
    split_ifs with hold
    · exact h.nodup
    · exact List.nodup_append.mpr ⟨h.nodup, List.nodup_singleton name, by grind⟩
  · refine (contents_update name part layers).trans ?_
    exact (h.perm.cons _).trans (List.perm_append_singleton _ _).symm
  · refine hlayers (fun l parts => l.states = parts.filterMap LayerPart.state?) h.states rfl ?_
    intro l parts hl
    rw [states_add, hl, List.filterMap_append]
    cases part <;> rfl
  · refine hlayers (fun l parts => l.attributes = parts.filterMap LayerPart.attribute?)
      h.attributes rfl ?_
    intro l parts hl
    rw [attributes_add, hl, List.filterMap_append]
    cases part <;> rfl
  · exact hlayers (fun l _ => l.type = none) h.untyped rfl fun l _ hl => by rw [type_add, hl]

end Layer

/-! ## Entries and their places -/

namespace FlatEntry

def layer : FlatEntry → String
  | .packedType layer _ => layer
  | .packedTensors layer _ => layer
  | .tensor layer _ _ _ => layer

def part (h : Heap) : FlatEntry → LayerPart
  | .packedType _ v => .scalar ModelGraph.packedType v
  | .packedTensors _ items => .state ⟨ModelGraph.packedTensors, items.map ("", ·)⟩
  | .tensor _ name key v => .state ⟨name, [(key, h.unwrapped v)]⟩

end FlatEntry

namespace Heap

/-- Where a value under a key belongs: the name of the layer and what the value is there. -/
inductive Places (h : Heap) (key : String) (v : Value) : String × LayerPart → Prop
  | packedType (layer : String) (hkey : key = layer ++ "." ++ packedType) (hv : v ≠ .none) :
      Places h key v (layer, .scalar packedType v)
  | packedTensors (layer : String) (items : List Value)
      (hkey : key = layer ++ "." ++ packedTensors) (hitems : h.items? v = some items)
      (htensors : ∀ t ∈ items, h.isTensor t) :
      Places h key v (layer, .state ⟨packedTensors, items.map ("", ·)⟩)
  /-- Any other key is cut at its last dot. -/
  | tensor (layer name : String) (hkey : key = layer ++ "." ++ name) (hname : '.' ∉ name.toList)
      (htype : ∀ start, key ≠ start ++ "." ++ ModelGraph.packedType) (htensor : h.isTensor v) :
      Places h key v (layer, .state ⟨name, [(key, h.unwrapped v)]⟩)
  | undotted (hkey : '.' ∉ key.toList) (htensor : h.isTensor v) :
      Places h key v ("", .state ⟨key, [(key, h.unwrapped v)]⟩)

variable {h : Heap} {v : Value}

theorem isNone_of_isTensor (hv : h.isTensor v) : v.isNone = false := by
  cases v <;> first | rfl | cases hv

theorem items?_of_isTensor (hv : h.isTensor v) : h.items? v = none := by
  unfold isTensor instance? at hv
  unfold items?
  split at hv
  next ho => rw [ho]
  next => cases hv

theorem flat?_of_isTensor {key : String} (hv : h.isTensor v)
    (htype : ∀ start, key ≠ start ++ "." ++ packedType) : h.flatEntry? key v =
      some (.tensor (splitQualified key).1 (splitQualified key).2 key v) := by
  rw [ flatEntry?, if_neg (by simp [isNone_of_isTensor hv]),
    beforeSuffix?_dot_eq_none_iff.mpr htype, items?_of_isTensor hv]
  simp [hv]

theorem places_of_flat? {key : String} {e : FlatEntry} (he : h.flatEntry? key v = some e) :
    h.Places key v (e.layer, e.part h) := by
  unfold flatEntry? at he
  by_cases hnone : v.isNone
  · rw [if_pos hnone] at he
    cases he
  rw [if_neg hnone] at he
  split at he
  next layer hkey =>
    cases he
    refine .packedType layer (beforeSuffix?_dot_eq_some_iff.mp hkey) ?_
    rintro rfl
    exact hnone rfl
  next layer items _ hkey hitems =>
    split_ifs at he with hall
    cases he
    exact .packedTensors layer items (beforeSuffix?_dot_eq_some_iff.mp hkey) hitems
      (List.all_eq_true.mp hall)
  next htype _ =>
    split_ifs at he with hv
    rcases splitQualified_cases key with ⟨hdot, hsplit⟩ | ⟨layer, name, hkey, hname, hsplit⟩
    · rw [hsplit] at he
      cases he
      exact .undotted hdot hv
    · rw [hsplit] at he
      cases he
      exact .tensor layer name hkey hname (beforeSuffix?_dot_eq_none_iff.mp htype) hv

theorem flat?_of_places {key : String} {p : String × LayerPart} (hp : h.Places key v p) :
    ∃ e, h.flatEntry? key v = some e ∧ p = (e.layer, e.part h) := by
  cases hp with
  | packedType layer hkey hv =>
      refine ⟨.packedType layer v, ?_, rfl⟩
      rw [ flatEntry?, if_neg (by cases v <;> simp_all [Value.isNone]),
        beforeSuffix?_dot_eq_some_iff.mpr hkey]
  | packedTensors layer items hkey hitems htensors =>
      have htype : ∀ start, key ≠ start ++ "." ++ packedType := fun start heq => by
        have hlast := congrArg (·.toList.getLast?) (hkey.symm.trans heq)
        simp [packedType, packedTensors] at hlast
      have hpresent : v.isNone = false := by cases v <;> first | rfl | cases hitems
      refine ⟨.packedTensors layer items, ?_, rfl⟩
      rw [ flatEntry?, if_neg (by simp [hpresent]), beforeSuffix?_dot_eq_none_iff.mpr htype,
        beforeSuffix?_dot_eq_some_iff.mpr hkey, hitems]
      simp [List.all_eq_true.mpr htensors]
  | tensor layer name hkey hname htype htensor =>
      have hsplit : splitQualified key = (layer, name) := hkey ▸ splitQualified_append hname
      refine ⟨_, flat?_of_isTensor htensor htype, ?_⟩
      rw [hsplit]
      rfl
  | undotted hkey htensor =>
      rcases splitQualified_cases key with ⟨-, hsplit⟩ | ⟨layer, name, hdot, -⟩
      · refine ⟨_, flat?_of_isTensor htensor fun start heq => hkey (by simp [heq]), ?_⟩
        rw [hsplit]
        rfl
      · exact absurd (by simp [hdot]) hkey

/-- An entry has one place. -/
theorem places_iff {key : String} {e : FlatEntry} (he : h.flatEntry? key v = some e)
    (p : String × LayerPart) : h.Places key v p ↔ p = (e.layer, e.part h) := by
  constructor
  · intro hp
    obtain ⟨e', he', rfl⟩ := flat?_of_places hp
    cases he.symm.trans he'
    rfl
  · rintro rfl
    exact places_of_flat? he

theorem addFlatEntry_eq {layers layers' : List Layer} {e : FlatEntry}
    (he : h.addFlatEntry layers e = some layers') :
    layers' = Layer.update e.layer (·.add (e.part h)) layers := by
  cases e with
  | packedType layer v => exact (Option.some.inj he).symm
  | packedTensors layer items => exact (Option.some.inj he).symm
  | tensor layer name key v =>
      unfold addFlatEntry at he
      simp only at he
      split_ifs at he
      exact (Option.some.inj he).symm

/-- One entry after the other is placed. -/
theorem holds_foldlM {entries : List FlatEntry} {placed : List (String × LayerPart)}
    {layers layers' : List Layer} (hholds : Layer.Holds placed layers)
    (hfold : entries.foldlM h.addFlatEntry layers = some layers') :
    Layer.Holds (placed ++ entries.map fun e => (e.layer, e.part h)) layers' := by
  induction entries generalizing placed layers with
  | nil =>
      cases hfold
      rwa [List.map_nil, List.append_nil]
  | cons e entries ih =>
      rw [List.foldlM_cons] at hfold
      obtain ⟨next, hnext, hrest⟩ := Option.bind_eq_some_iff.mp hfold
      rw [addFlatEntry_eq hnext] at hrest
      rw [List.map_cons, List.append_cons]
      exact ih (hholds.update (e.layer, e.part h)) hrest

/-- The name and the value of an entry. -/
def named? (e : Value × Value) : Option (String × Value) :=
  (e.1.keyName?.filter (!·.isEmpty)).map fun name => (name, e.2)

theorem named?_eq_some_iff {e : Value × Value} {n : String × Value} :
    named? e = some n ↔ e.1.keyName? = some n.1 ∧ n.1 ≠ "" ∧ n.2 = e.2 := by
  simp only [named?, Option.map_eq_some_iff, Option.filter_eq_some_iff]
  constructor
  · rintro ⟨key, ⟨hkey, hne⟩, rfl⟩
    exact ⟨hkey, by simpa using hne, rfl⟩
  · rintro ⟨hkey, hne, hv⟩
    exact ⟨n.1, ⟨hkey, by simpa using hne⟩, by rw [← hv]⟩

theorem isSome_named?_iff {e : Value × Value} :
    (named? e).isSome ↔ ∃ key, e.1.keyName? = some key ∧ key ≠ "" := by
  simp only [Option.isSome_iff_exists, named?_eq_some_iff]
  constructor
  · rintro ⟨n, hkey, hne, -⟩
    exact ⟨n.1, hkey, hne⟩
  · rintro ⟨key, hkey, hne⟩
    exact ⟨(key, e.2), hkey, hne, rfl⟩

/-- What a flat dictionary has for an entry: nothing for the metadata. -/
def taken? (h : Heap) (e : Value × Value) : Option FlatEntry :=
  e.1.keyName?.bind fun key => if key = "_metadata" then none else h.flatEntry? key e.2

theorem filterMap_taken? {entries : List (Value × Value)}
    (hnamed : ∀ e ∈ entries, (named? e).isSome) : entries.filterMap h.taken? =
      ((entries.filterMap named?).filter (·.1 != "_metadata")).filterMap fun n =>
        h.flatEntry? n.1 n.2 := by
  rw [List.filterMap_filter, List.filterMap_filterMap]
  refine List.filterMap_congr fun e he => ?_
  obtain ⟨n, hn⟩ := Option.isSome_iff_exists.mp (hnamed e he)
  obtain ⟨hkey, -, hv⟩ := named?_eq_some_iff.mp hn
  rw [hn, taken?, hkey, ← hv]
  by_cases hmeta : n.1 = "_metadata" <;> simp [hmeta]

theorem flatEntries?_eq_some_iff {flat : List FlatEntry} :
    h.flatEntries? v = some flat ↔ ∃ entries, h.entries? v = some entries ∧
      (∀ e ∈ entries, ∃ key, e.1.keyName? = some key ∧ key ≠ "" ∧
        (key = "_metadata" ∨ ( h.flatEntry? key e.2).isSome)) ∧
      entries.filterMap h.taken? = flat := by
  have hunfold : h.flatEntries? v = (h.entries? v).bind fun entries =>
      (entries.mapM named?).bind fun named =>
        (named.filter (·.1 != "_metadata")).mapM fun n => h.flatEntry? n.1 n.2 := rfl
  simp only [hunfold, Option.bind_eq_some_iff, mapM_eq_some_iff, and_assoc, exists_and_left,
    exists_eq_left']
  refine exists_congr fun entries => and_congr_right fun _ => ?_
  constructor
  · rintro ⟨hnamed, hflat, heq⟩
    refine ⟨fun e he => ?_, (filterMap_taken? hnamed).trans heq⟩
    obtain ⟨key, hkey, hne⟩ := isSome_named?_iff.mp (hnamed e he)
    refine ⟨key, hkey, hne, or_iff_not_imp_left.mpr fun hmeta => ?_⟩
    have hmem : (key, e.2) ∈ entries.filterMap named? :=
      List.mem_filterMap.mpr ⟨e, he, named?_eq_some_iff.mpr ⟨hkey, hne, rfl⟩⟩
    exact hflat _ (List.mem_filter.mpr ⟨hmem, by simpa using hmeta⟩)
  · rintro ⟨hall, heq⟩
    have hnamed : ∀ e ∈ entries, (named? e).isSome := fun e he => by
      obtain ⟨key, hkey, hne, -⟩ := hall e he
      exact isSome_named?_iff.mpr ⟨key, hkey, hne⟩
    refine ⟨hnamed, fun n hn => ?_, (filterMap_taken? hnamed).symm.trans heq⟩
    obtain ⟨hn, hmeta⟩ := List.mem_filter.mp hn
    obtain ⟨e, he, hen⟩ := List.mem_filterMap.mp hn
    obtain ⟨hkey, -, hv⟩ := named?_eq_some_iff.mp hen
    obtain ⟨key, hkey', -, htaken⟩ := hall e he
    cases hkey.symm.trans hkey'
    rw [hv]
    exact htaken.resolve_left (by simpa using hmeta)

theorem forall₂_places {entries : List (Value × Value)}
    (hentries : ∀ e ∈ entries, ∃ key, e.1.keyName? = some key ∧ key ≠ "" ∧
      (key = "_metadata" ∨ ( h.flatEntry? key e.2).isSome)) :
    List.Forall₂ (fun e p => ∃ key, e.1.keyName? = some key ∧ ∀ q, h.Places key e.2 q ↔ q = p)
      (entries.filter (·.1.keyName? ≠ some "_metadata"))
      ((entries.filterMap h.taken?).map fun e => (e.layer, e.part h)) := by
  induction entries with
  | nil => exact .nil
  | cons e entries ih =>
      obtain ⟨⟨key, hkey, -, he⟩, hrest⟩ := List.forall_mem_cons.mp hentries
      by_cases hmeta : key = "_metadata"
      · rw [List.filter_cons_of_neg (by simp [hkey, hmeta]),
          List.filterMap_cons_none (by simp [taken?, hkey, hmeta])]
        exact ih hrest
      · obtain ⟨first, hfirst⟩ := Option.isSome_iff_exists.mp (he.resolve_left hmeta)
        have hsome : h.taken? e = some first := by
          rw [taken?, hkey, Option.bind_some, if_neg hmeta, hfirst]
        rw [List.filter_cons_of_pos (by simp [hkey, hmeta]), List.filterMap_cons_some hsome,
          List.map_cons]
        exact .cons ⟨key, hkey, places_iff hfirst⟩ (ih hrest)

theorem flatLayers?_eq_some_iff {layers : List Layer} :
    h.flatLayers? v = some layers ↔ ∃ flat, h.flatEntries? v = some flat ∧
      flat.foldlM h.addFlatEntry [] = some layers ∧ layers ≠ [] := by
  have hnonempty {made : List Layer} :
      nonEmpty made = some layers ↔ made = layers ∧ layers ≠ [] := by
    unfold nonEmpty
    constructor
    · intro heq
      split_ifs at heq with hempty
      cases heq
      exact ⟨rfl, by simpa using hempty⟩
    · rintro ⟨rfl, hne⟩
      rw [if_neg (by simpa using hne)]
  have hunfold : h.flatLayers? v = (h.flatEntries? v).bind fun flat =>
      (flat.foldlM h.addFlatEntry []).bind nonEmpty := rfl
  simp only [hunfold, Option.bind_eq_some_iff, hnonempty]
  exact exists_congr fun flat => and_congr_right fun _ =>
    ⟨fun ⟨_, hmade, heq, hne⟩ => ⟨heq ▸ hmade, hne⟩, fun ⟨hmade, hne⟩ => ⟨_, hmade, rfl, hne⟩⟩

/-- A flat dictionary is split without loss: each entry but the metadata has one place, and the
layers hold what was placed and nothing else. -/
theorem flatLayers?_holds {layers : List Layer} (hlayers : h.flatLayers? v = some layers) :
    ∃ entries placed, h.entries? v = some entries ∧
      List.Forall₂ (fun e p => ∃ key, e.1.keyName? = some key ∧ ∀ q, h.Places key e.2 q ↔ q = p)
        (entries.filter (·.1.keyName? ≠ some "_metadata")) placed ∧
      Layer.Holds placed layers := by
  obtain ⟨flat, hflat, hmade, -⟩ := flatLayers?_eq_some_iff.mp hlayers
  obtain ⟨entries, hentries, hall, rfl⟩ := flatEntries?_eq_some_iff.mp hflat
  exact ⟨entries, _, hentries, forall₂_places hall, holds_foldlM Layer.holds_nil hmade⟩

namespace Quantized

/-- A tensor, a parameter that has it as data, and a dictionary with entries of every kind. -/
def heap : Heap where
  objects := #[.instance { module := "torch", name := "FloatTensor" },
    .instance { module := "torch.nn.parameter", name := "Parameter",
                fields := ⟨[("data", .ref 0)]⟩ },
    .list [.ref 0, .ref 1],
    .dict ⟨[(.str "fc._packed_params.dtype", .int 12), (.str "conv.weight", .ref 0),
      (.str "_metadata", .none), (.str "fc._packed_params._packed_params", .ref 2),
      (.str "conv.bias", .ref 1), (.int 7, .ref 0)]⟩]

def layers : List Layer :=
  [{ name := "fc", states := [⟨packedTensors, [("", .ref 0), ("", .ref 1)]⟩],
     attributes := [(packedType, .int 12)] },
   { name := "conv", states := [⟨"weight", [("conv.weight", .ref 0)]⟩,
       ⟨"bias", [("conv.bias", .ref 0)]⟩] },
   { name := "", states := [⟨"7", [("7", .ref 0)]⟩] }]

theorem flatLayers?_dict : heap.flatLayers? (.ref 3) = some layers := by decide +kernel

end Quantized

theorem flatLayers?_holds_quantized : Quantized.heap.flatLayers? (.ref 3) = some Quantized.layers ∧
    ∃ entries placed, Quantized.heap.entries? (.ref 3) = some entries ∧
      List.Forall₂ (fun e p => ∃ key, e.1.keyName? = some key ∧
          ∀ q, Quantized.heap.Places key e.2 q ↔ q = p)
        (entries.filter (·.1.keyName? ≠ some "_metadata")) placed ∧
      Layer.Holds placed Quantized.layers :=
  ⟨Quantized.flatLayers?_dict, flatLayers?_holds Quantized.flatLayers?_dict⟩

end Heap

end ModelGraph
