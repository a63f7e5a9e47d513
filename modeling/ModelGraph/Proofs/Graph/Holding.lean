import ModelGraph.Proofs.Graph.Elision
import ModelGraph.Proofs.OrderedMap

/-!
# Who holds what

The index of the modules below a root names a holder for each tensor in their fields, and knows the
tensors that are used once by name. Where no tensor is held twice and no two have one name, a call that
takes no constants stands for a module exactly if it uses the module's tensors, all that are no
counters, and no other module's.
-/

namespace ModelGraph

open Relation

namespace Snapshot

def tensorOf? (s : Snapshot) (field : String × Value) : Option Nat :=
  if s.heap.isTensor field.2 then field.2.ref? else none

def tensorsIn (s : Snapshot) (module : Nat) (fields : List (String × Value)) : List (Nat × Nat) :=
  (fields.filterMap s.tensorOf?).map (module, ·)

/-- The tensors that the modules below a root hold, with these modules. -/
def heldTensors (s : Snapshot) (root : Nat) : List (Nat × Nat) :=
  (s.modulesBelow root).flatMap fun module => s.tensorsIn module (s.walkedFields module)

/-- The name that a tensor is known by: that of its value, if it is used once. -/
def usedOnce? (s : Snapshot) (id : Nat) : Option String :=
  ((s.heap.tag? id).filter (·.count = 1)).bind (·.name?)

end Snapshot

namespace ModuleTree

variable {s : Snapshot} {constants t : ModuleTree} {module : Nat} {held : List (Nat × Nat)}

/-! ## The index of the modules -/

/-- What an index says of the tensors that were entered. -/
structure Indexes (s : Snapshot) (constants : ModuleTree) (held : List (Nat × Nat))
    (t : ModuleTree) : Prop where
  held_of_owner : ∀ {id module}, t.owners.get? id = some module → s.heap.isTensor (.ref id) →
    (module, id) ∈ held
  owner_isSome : ∀ {id module}, (module, id) ∈ held → (t.owners.get? id).isSome
  held_of_known : ∀ {name known}, t.known.get? name = some known →
    constants.known.get? name = some known ∨
      s.usedOnce? known.object = some name ∧ ∃ module, (module, known.object) ∈ held
  known_of_held : ∀ {id module name}, (module, id) ∈ held → s.usedOnce? id = some name →
    ∃ known, t.known.get? name = some known ∧ s.usedOnce? known.object = some name ∧
      ∃ module, (module, known.object) ∈ held

namespace Indexes

theorem start (h : constants.owners = {}) : Indexes s constants [] constants where
  held_of_owner howner := by
    rw [h] at howner
    cases howner
  owner_isSome hheld := absurd hheld List.not_mem_nil
  held_of_known hknown := .inl hknown
  known_of_held hheld := absurd hheld List.not_mem_nil

theorem known_addTensor (s : Snapshot) (module : Nat) (t : ModuleTree) (v : Value) (id : Nat) :
    ∃ tensor?, (t.addTensor s module v id).known =
      match s.usedOnce? id with
      | some name => t.known.insert name ⟨id, tensor?⟩
      | none => t.known := by
  refine ⟨(t.addTensor s module v id).tensors.get? id, ?_⟩
  unfold addTensor Snapshot.usedOnce?
  dsimp only
  cases (s.heap.tag? id).filter (·.count = 1) with
  | none => rfl
  | some tag =>
      obtain ⟨_ | name, count, origin?⟩ := tag
      · rfl
      · rfl

theorem addTensor (h : Indexes s constants held t) (module : Nat) (v : Value) (id : Nat) :
    Indexes s constants (held ++ [(module, id)]) (t.addTensor s module v id) := by
  obtain ⟨tensor?, hadded⟩ := known_addTensor s module t v id
  have hold {m i : Nat} (hheld : (m, i) ∈ held) : (m, i) ∈ held ++ [(module, id)] :=
    List.mem_append_left _ hheld
  have hnew : (module, id) ∈ held ++ [(module, id)] := by simp
  have howners : (t.addTensor s module v id).owners = t.owners.insert id module := rfl
  have hknown {name : String} : (t.addTensor s module v id).known.get? name =
      if s.usedOnce? id = some name then some ⟨id, tensor?⟩ else t.known.get? name := by
    rw [hadded]
    cases honce : s.usedOnce? id with
    | none => simp
    | some other => simp [OrderedMap.get?_insert, eq_comm]
  refine ⟨?_, ?_, ?_, ?_⟩
  · intro i m howner htensor
    rw [howners, OrderedMap.get?_insert] at howner
    split_ifs at howner with heq
    · cases howner
      rwa [heq]
    · exact hold (h.held_of_owner howner htensor)
  · intro i m hheld
    rw [howners, OrderedMap.get?_insert]
    split_ifs with heq
    · rfl
    · have hmem : (m, i) ∈ held := by simpa [heq] using hheld
      exact h.owner_isSome hmem
  · intro name known hget
    rw [hknown] at hget
    split_ifs at hget with honce
    · cases hget
      exact .inr ⟨honce, module, hnew⟩
    · obtain hconstant | ⟨honce, m, hheld⟩ := h.held_of_known hget
      · exact .inl hconstant
      · exact .inr ⟨honce, m, hold hheld⟩
  · intro i m name hheld honce
    rw [hknown]
    split_ifs with hself
    · exact ⟨_, rfl, hself, module, hnew⟩
    · have hne : i ≠ id := fun heq => hself (heq ▸ honce)
      have hmem : (m, i) ∈ held := by simpa [hne] using hheld
      obtain ⟨known, hget, honce', m', hheld'⟩ := h.known_of_held hmem honce
      exact ⟨known, hget, honce', m', hold hheld'⟩

/-- A module is no tensor: entering one changes nothing for tensors. -/
theorem addModule (h : Indexes s constants held t) (module : Nat) (name : String) {id : Nat}
    (hid : s.heap.isTensor (.ref id) = false) : Indexes s constants held (t.addModule module name id) where
  held_of_owner {i m} howner htensor := by
    refine h.held_of_owner ?_ htensor
    have hne : i ≠ id := by
      rintro rfl
      rw [hid] at htensor
      cases htensor
    rwa [ModuleTree.addModule, OrderedMap.get?_insert_of_ne _ hne] at howner
  owner_isSome {i m} hheld := by
    rw [ModuleTree.addModule, OrderedMap.get?_insert]
    split_ifs
    · rfl
    · exact h.owner_isSome hheld
  held_of_known := h.held_of_known
  known_of_held := h.known_of_held

theorem addField (h : Indexes s constants held t) (module : Nat) (field : String × Value) :
    Indexes s constants (held ++ s.tensorsIn module [field]) (addField s module t field) := by
  obtain ⟨name, v⟩ := field
  unfold ModuleTree.addField Snapshot.tensorsIn Snapshot.tensorOf?
  cases v with
  | ref id =>
      by_cases htensor : s.heap.isTensor (.ref id)
      · simpa [htensor, Value.ref?] using h.addTensor module (.ref id) id
      · have hnone : s.heap.isTensor (.ref id) = false := by simpa using htensor
        by_cases hrecord : s.heap.isRecord (.ref id)
        · simpa [hnone, hrecord, Value.ref?] using h.addModule module name hnone
        · simpa [hnone, hrecord, Value.ref?] using h
  | _ => simpa [Value.ref?] using h

theorem addFields (h : Indexes s constants held t) (module : Nat) (fields : List (String × Value)) :
    Indexes s constants (held ++ s.tensorsIn module fields)
      (fields.foldl (ModuleTree.addField s module) t) := by
  induction fields generalizing held t with
  | nil => simpa [Snapshot.tensorsIn] using h
  | cons field rest ih =>
      have hrest := ih (h.addField module field)
      rwa [List.append_assoc, Snapshot.tensorsIn, Snapshot.tensorsIn, ← List.map_append,
        ← List.filterMap_append] at hrest

theorem addModules (h : Indexes s constants held t) (modules : List Nat) :
    Indexes s constants
      (held ++ modules.flatMap fun module => s.tensorsIn module (s.walkedFields module))
      (modules.foldl
        (fun t module => (s.walkedFields module).foldl (ModuleTree.addField s module) t) t) := by
  induction modules generalizing held t with
  | nil => simpa using h
  | cons module rest ih =>
      have hrest := ih (h.addFields module (s.walkedFields module))
      rwa [List.append_assoc] at hrest

end Indexes

theorem owners_ofConstants (s : Snapshot) (constants : List Value) :
    (ofConstants s constants).owners = {} := by
  unfold ofConstants
  refine List.foldlRecOn (motive := fun t : ModuleTree => t.owners = {}) constants _ rfl
    fun t ht v _ => ?_
  split
  · exact ht
  · exact ht

theorem indexes_ofRoot (s : Snapshot) (constants : List Value) (root : Nat) :
    Indexes s (ofConstants s constants) (s.heldTensors root) (ofRoot s constants root) :=
  (Indexes.start (owners_ofConstants s constants)).addModules (s.modulesBelow root)

/-! ## Calls and the modules they use up -/

def Uses (s : Snapshot) (call : TracedCall) (id : Nat) : Prop :=
  ∃ v ∈ call.consumed, s.usedOnce? id = some v.name

/-- A call uses all tensors of a module that are no counters, and no other tensors of modules. -/
structure UsesUp (s : Snapshot) (root : Nat) (call : TracedCall) (module : Nat) : Prop where
  all : ∀ p ∈ s.parameters module, p.1 ≠ updateCounter → Uses s call p.2
  others : ∀ {other id}, (other, id) ∈ s.heldTensors root → Uses s call id → other = module

/-- The tensors of the modules below a root are held once, and have names of their own. -/
structure Apart (s : Snapshot) (root : Nat) : Prop where
  held_once : ((s.heldTensors root).map (·.2)).Nodup
  name_injective : ∀ {m m' id id' name}, (m, id) ∈ s.heldTensors root →
    (m', id') ∈ s.heldTensors root → s.usedOnce? id = some name → s.usedOnce? id' = some name →
    id = id'

theorem Apart.holder_unique {root m m' id : Nat} (h : Apart s root)
    (hm : (m, id) ∈ s.heldTensors root) (hm' : (m', id) ∈ s.heldTensors root) : m = m' :=
  (Prod.ext_iff.mp (List.inj_on_of_nodup_map h.held_once hm hm' rfl)).1

def TakesNoConstant (s : Snapshot) (constants : List Value) (call : TracedCall) : Prop :=
  ∀ v ∈ call.consumed,
    v.name.startsWith constantStem = false ∧ (ofConstants s constants).known.get? v.name = none

def TakesOnce (s : Snapshot) (call : TracedCall) : Prop :=
  ∀ {id name}, s.usedOnce? id = some name → (call.consumed.map (·.name)).count name ≤ 1

variable {root : Nat} {constants : List Value} {call : TracedCall} {v : TracedValue}

theorem owner_of_held (h : Apart s root) {id : Nat} (hheld : (module, id) ∈ s.heldTensors root)
    (htensor : s.heap.isTensor (.ref id)) :
    (ofRoot s constants root).owners.get? id = some module := by
  have hindex := indexes_ofRoot s constants root
  obtain ⟨owner, howner⟩ := Option.isSome_iff_exists.mp (hindex.owner_isSome hheld)
  rw [howner, h.holder_unique (hindex.held_of_owner howner htensor) hheld]

theorem isTensor_of_held {id : Nat} (h : (module, id) ∈ s.heldTensors root) :
    s.heap.isTensor (.ref id) := by
  obtain ⟨m, -, hmem⟩ := List.mem_flatMap.mp h
  obtain ⟨i, hi, heq⟩ := List.mem_map.mp hmem
  obtain ⟨⟨name, v⟩, -, hv⟩ := List.mem_filterMap.mp hi
  cases heq
  unfold Snapshot.tensorOf? at hv
  split_ifs at hv with htensor
  cases v with
  | ref i =>
      cases hv
      exact htensor
  | _ => cases hv

theorem held_of_takesNoConstant (hcall : TakesNoConstant s constants call) (hv : v ∈ call.consumed)
    {known : KnownTensor} (hget : (ofRoot s constants root).known.get? v.name = some known) :
    s.usedOnce? known.object = some v.name ∧ ∃ m, (m, known.object) ∈ s.heldTensors root := by
  obtain hconstant | hheld := (indexes_ofRoot s constants root).held_of_known hget
  · rw [(hcall v hv).2] at hconstant
    cases hconstant
  · exact hheld

theorem mem_knownValues (hcall : TakesNoConstant s constants call) :
    v ∈ (ofRoot s constants root).knownValues call ↔
      v ∈ call.consumed ∧ ∃ m id, (m, id) ∈ s.heldTensors root ∧ s.usedOnce? id = some v.name := by
  have hindex := indexes_ofRoot s constants root
  unfold knownValues
  rw [List.mem_filter]
  apply and_congr_right
  intro hv
  constructor
  · intro hknown
    obtain ⟨known, hget⟩ := Option.isSome_iff_exists.mp hknown
    obtain ⟨honce, m, hheld⟩ := held_of_takesNoConstant hcall hv hget
    exact ⟨m, known.object, hheld, honce⟩
  · rintro ⟨m, id, hheld, honce⟩
    obtain ⟨known, hget, -⟩ := hindex.known_of_held hheld honce
    unfold OrderedMap.contains
    rw [hget]
    rfl

theorem owner?_eq_some_iff (h : Apart s root) (hcall : TakesNoConstant s constants call)
    (hv : v ∈ call.consumed) : (ofRoot s constants root).owner? v = some module ↔
      ∃ id, (module, id) ∈ s.heldTensors root ∧ s.usedOnce? id = some v.name := by
  have hindex := indexes_ofRoot s constants root
  unfold owner?
  rw [Option.bind_eq_some_iff]
  constructor
  · rintro ⟨known, hget, howner⟩
    obtain ⟨honce, m, hheld⟩ := held_of_takesNoConstant hcall hv hget
    exact ⟨known.object, hindex.held_of_owner howner (isTensor_of_held hheld), honce⟩
  · rintro ⟨id, hheld, honce⟩
    obtain ⟨known, hget, honce', m, hheld'⟩ := hindex.known_of_held hheld honce
    obtain rfl : known.object = id := h.name_injective hheld' hheld honce' honce
    exact ⟨known, hget, owner_of_held h hheld (isTensor_of_held hheld)⟩

/-- A module with fields that the index enters. -/
structure Entered (s : Snapshot) (root module : Nat) : Prop where
  below : ReflTransGen (fun a b => b ∈ s.records (s.walkedFields a)) root module
  not_compilation : s.heap.typeName? (.ref module) ≠ some compilationType

theorem tensorsIn_moduleFields (s : Snapshot) (module : Nat) :
    s.tensorsIn module (s.moduleFields module) = (s.parameters module).map fun p => (module, p.2) := by
  unfold Snapshot.tensorsIn Snapshot.parameters
  rw [List.map_filterMap, List.map_filterMap]
  congr 1
  funext ⟨name, v⟩
  unfold Snapshot.tensorOf?
  by_cases htensor : s.heap.isTensor v
  · simp [htensor, Function.comp_def]
  · simp [htensor]

theorem Entered.mem_modulesBelow (h : Entered s root module) : module ∈ s.modulesBelow root := by
  have hvisits : Visits (fun a => s.records (s.walkedFields a)) [root] [root]
      (s.modulesBelow root) :=
    visits_breadthFirst (fun _ _ hmem => lt_size_of_mem_records hmem)
      (remainingVisits_root s.heap.size root)
  exact hvisits.mem_iff.mpr h.below

theorem Entered.walkedFields_eq (h : Entered s root module) :
    s.walkedFields module = s.moduleFields module :=
  if_neg h.not_compilation

theorem Entered.mem_held (h : Entered s root module) {p : String × Nat} (hp : p ∈ s.parameters module) :
    (module, p.2) ∈ s.heldTensors root := by
  refine List.mem_flatMap.mpr ⟨module, h.mem_modulesBelow, ?_⟩
  rw [h.walkedFields_eq, tensorsIn_moduleFields]
  exact List.mem_map_of_mem hp

theorem mem_parameters_of_held {id : Nat} (h : (module, id) ∈ s.heldTensors root) :
    ∃ name, (name, id) ∈ s.parameters module := by
  obtain ⟨m, -, hmem⟩ := List.mem_flatMap.mp h
  obtain rfl : m = module := by
    obtain ⟨i, -, heq⟩ := List.mem_map.mp hmem
    cases heq
    rfl
  have hfields : (m, id) ∈ s.tensorsIn m (s.moduleFields m) := by
    unfold Snapshot.walkedFields at hmem
    split_ifs at hmem
    · cases hmem
    · exact hmem
  rw [tensorsIn_moduleFields] at hfields
  obtain ⟨⟨name, i⟩, hp, heq⟩ := List.mem_map.mp hfields
  cases heq
  exact ⟨name, hp⟩

theorem Apart.nodup_parameters (h : Apart s root) (hmodule : Entered s root module) :
    ((s.parameters module).map (·.2)).Nodup := by
  have hall := h.held_once
  unfold Snapshot.heldTensors at hall
  rw [List.map_flatMap, List.nodup_flatMap] at hall
  have hone := hall.1 module hmodule.mem_modulesBelow
  rw [hmodule.walkedFields_eq, tensorsIn_moduleFields, List.map_map] at hone
  exact hone

def claimableNames (s : Snapshot) (module : Nat) : List (Option String) :=
  ((s.parameters module).filter (·.1 != updateCounter)).map fun p => s.usedOnce? p.2

theorem mem_claimableNames {name : String} : some name ∈ claimableNames s module ↔
    ∃ p ∈ s.parameters module, p.1 ≠ updateCounter ∧ s.usedOnce? p.2 = some name := by
  simp [claimableNames, and_assoc]

def knownNames (t : ModuleTree) (call : TracedCall) : List (Option String) :=
  (t.knownValues call).map fun v => some v.name

theorem nodup_knownNames (root : Nat) (honce : TakesOnce s call) (hcall : TakesNoConstant s constants call) :
    ((ofRoot s constants root).knownNames call).Nodup := by
  have hnames : (((ofRoot s constants root).knownValues call).map (·.name)).Nodup := by
    rw [List.nodup_iff_count_le_one]
    intro name
    by_cases hmem : name ∈ ((ofRoot s constants root).knownValues call).map (·.name)
    · obtain ⟨v, hv, rfl⟩ := List.mem_map.mp hmem
      obtain ⟨-, m, id, -, hid⟩ := (mem_knownValues hcall).mp hv
      exact (List.Sublist.count_le v.name (List.filter_sublist.map _)).trans (honce hid)
    · rw [List.count_eq_zero_of_not_mem hmem]
      exact Nat.zero_le 1
  have hsome := hnames.map (Option.some_injective String)
  rwa [List.map_map] at hsome

theorem Apart.nodup_claimableNames (h : Apart s root) (hmodule : Entered s root module)
    (hused : ∀ p ∈ s.parameters module, p.1 ≠ updateCounter → Uses s call p.2) :
    (claimableNames s module).Nodup := by
  have hnodup := h.nodup_parameters hmodule
  apply List.Nodup.map_on
  · intro p hp q hq heq
    obtain ⟨hp, hcounter⟩ := List.mem_filter.mp hp
    obtain ⟨hq, -⟩ := List.mem_filter.mp hq
    obtain ⟨v, -, hv⟩ := hused p hp (by simpa using hcounter)
    apply List.inj_on_of_nodup_map hnodup hp hq
    exact h.name_injective (hmodule.mem_held hp) (hmodule.mem_held hq) hv (heq ▸ hv)
  · exact hnodup.of_map.filter _

/-- A module with tensors to use, and a call that takes neither constants nor the module's counter, in
a model whose tensors are held apart. -/
structure Ordinary (s : Snapshot) (constants : List Value) (root : Nat) (call : TracedCall)
    (module : Nat) : Prop where
  apart : Apart s root
  entered : Entered s root module
  claimable_ne : claimable s module ≠ 0
  takesOnce : TakesOnce s call
  takesNoConstant : TakesNoConstant s constants call
  takesNoCounter : ∀ p ∈ s.parameters module, p.1 = updateCounter → ¬ Uses s call p.2

namespace Ordinary

theorem mem_claimableNames (h : Ordinary s constants root call module)
    (hv : v ∈ (ofRoot s constants root).knownValues call)
    (howner : (ofRoot s constants root).owner? v = some module) :
    some v.name ∈ claimableNames s module := by
  have hconsumed := ((mem_knownValues h.takesNoConstant).mp hv).1
  obtain ⟨id, hheld, hname⟩ :=
    (owner?_eq_some_iff h.apart h.takesNoConstant hconsumed).mp howner
  obtain ⟨name, hp⟩ := mem_parameters_of_held hheld
  rw [ModuleTree.mem_claimableNames]
  refine ⟨(name, id), hp, ?_, hname⟩
  intro heq
  exact h.takesNoCounter (name, id) hp heq ⟨v, hconsumed, hname⟩

theorem length_claimableNames (s : Snapshot) (module : Nat) :
    (claimableNames s module).length = claimable s module := List.length_map _

theorem length_knownNames (t : ModuleTree) (call : TracedCall) :
    (t.knownNames call).length = (t.knownValues call).length := List.length_map _

/-- All names are known, because no name is known twice and there are as many. -/
theorem usesUp (h : Ordinary s constants root call module)
    (hstands : (ofRoot s constants root).StandsFor s call module) :
    UsesUp s root call module := by
  have hcall := h.takesNoConstant
  have howner {v : TracedValue} (hv : v ∈ (ofRoot s constants root).knownValues call) :
      (ofRoot s constants root).owner? v = some module := by
    apply (hstands.fits v hv).resolve_right
    intro hconstant
    rw [(hcall v ((mem_knownValues hcall).mp hv).1).1] at hconstant
    cases hconstant
  have hsubset : (ofRoot s constants root).knownNames call ⊆ claimableNames s module := by
    intro name hname
    obtain ⟨v, hv, rfl⟩ := List.mem_map.mp hname
    exact h.mem_claimableNames hv (howner hv)
  have hnodup := nodup_knownNames root h.takesOnce hcall
  have hperm := (List.subperm_of_subset hnodup hsubset).perm_of_length_le
    (by rw [length_claimableNames, length_knownNames, hstands.count])
  constructor
  · intro p hp hne
    have hmem : s.usedOnce? p.2 ∈ claimableNames s module :=
      List.mem_map_of_mem (List.mem_filter.mpr ⟨hp, by simpa using hne⟩)
    obtain ⟨v, hv, hname⟩ := List.mem_map.mp (hperm.mem_iff.mpr hmem)
    exact ⟨v, ((mem_knownValues hcall).mp hv).1, hname.symm⟩
  · rintro other id hheld ⟨v, hv, hname⟩
    have hknown := (mem_knownValues hcall).mpr ⟨hv, other, id, hheld, hname⟩
    have hother := (owner?_eq_some_iff h.apart hcall hv).mpr ⟨id, hheld, hname⟩
    exact Option.some.inj (hother.symm.trans (howner hknown))

theorem standsFor (h : Ordinary s constants root call module)
    (hused : UsesUp s root call module) : (ofRoot s constants root).StandsFor s call module := by
  have hcall := h.takesNoConstant
  have howner {v : TracedValue} (hv : v ∈ (ofRoot s constants root).knownValues call) :
      (ofRoot s constants root).owner? v = some module := by
    obtain ⟨hconsumed, m, id, hheld, hname⟩ := (mem_knownValues hcall).mp hv
    obtain rfl := hused.others hheld ⟨v, hconsumed, hname⟩
    exact (owner?_eq_some_iff h.apart hcall hconsumed).mpr ⟨id, hheld, hname⟩
  have hperm : ((ofRoot s constants root).knownNames call).Perm (claimableNames s module) := by
    rw [List.perm_ext_iff_of_nodup (nodup_knownNames root h.takesOnce hcall)
      (h.apart.nodup_claimableNames h.entered hused.all)]
    intro name
    constructor
    · intro hname
      obtain ⟨v, hv, rfl⟩ := List.mem_map.mp hname
      exact h.mem_claimableNames hv (howner hv)
    · intro hname
      obtain ⟨p, hp, rfl⟩ := List.mem_map.mp hname
      obtain ⟨hp, hne⟩ := List.mem_filter.mp hp
      obtain ⟨v, hv, hname⟩ := hused.all p hp (by simpa using hne)
      rw [hname]
      exact List.mem_map_of_mem
        ((mem_knownValues hcall).mpr ⟨hv, module, p.2, h.entered.mem_held hp, hname⟩)
  have hcount : ((ofRoot s constants root).knownValues call).length = claimable s module := by
    rw [← length_claimableNames, ← length_knownNames, hperm.length_eq]
  refine ⟨?_, fun v hv => .inl (howner hv), hcount⟩
  cases hknown : (ofRoot s constants root).knownValues call with
  | nil =>
      rw [hknown] at hcount
      exact absurd hcount.symm h.claimable_ne
  | cons v rest => rw [List.findSome?_cons, howner (hknown ▸ List.mem_cons_self)]

theorem standsFor_iff (h : Ordinary s constants root call module) :
    (ofRoot s constants root).StandsFor s call module ↔ UsesUp s root call module :=
  ⟨h.usesUp, h.standsFor⟩

end Ordinary

/-- A module that holds tensors keeps a node of its own as long as no call uses them up. -/
theorem shown_iff_not_usesUp {trace : Trace} (hmodule : HoldsTensors s root module)
    (h : ∀ call ∈ trace.calls, Ordinary s constants root call module) :
    module ∈ shownModules s constants root trace ↔
      ∀ call ∈ trace.calls, ¬ UsesUp s root call module := by
  rw [mem_shownModules, and_iff_right hmodule]
  exact forall₂_congr fun call hcall => not_congr (h call hcall).standsFor_iff

namespace Layer

theorem holdsTensors : HoldsTensors snapshot 0 1 := by
  refine ⟨.single ?_, ?_⟩
  · decide +kernel
  · decide +kernel

theorem heldTensors_eq : snapshot.heldTensors 0 = [(1, 2), (1, 3)] := by decide +kernel

theorem apart : Apart snapshot 0 where
  held_once := by
    rw [heldTensors_eq]
    decide
  name_injective {m m' id id' name} hm hm' hname hname' := by
    rw [heldTensors_eq] at hm hm'
    have hweight : snapshot.usedOnce? 2 = some "1" := rfl
    have hbias : snapshot.usedOnce? 3 = some "2" := rfl
    simp only [List.mem_cons, Prod.mk.injEq, List.not_mem_nil, or_false] at hm hm'
    obtain ⟨-, rfl⟩ | ⟨-, rfl⟩ := hm <;> obtain ⟨-, rfl⟩ | ⟨-, rfl⟩ := hm' <;> simp_all

theorem consumed_linear (names : List String) :
    (linear names).consumed = names.map fun name => ⟨name, 0⟩ := by
  induction names with
  | nil => rfl
  | cons name rest ih => exact congrArg (_ :: ·) ih

theorem ordinary {names : List String} (hnodup : names.Nodup)
    (hconstant : ∀ name ∈ names, name.startsWith constantStem = false) :
    Ordinary snapshot [] 0 (linear names) 1 where
  apart := apart
  entered := ⟨.single (by decide +kernel), by decide +kernel⟩
  claimable_ne := by decide +kernel
  takesOnce {_ name} _ := by
    rw [consumed_linear, List.map_map]
    exact List.nodup_iff_count_le_one.mp (by simpa [Function.comp_def] using hnodup) name
  takesNoConstant v hv := by
    rw [consumed_linear] at hv
    obtain ⟨name, hname, rfl⟩ := List.mem_map.mp hv
    exact ⟨hconstant name hname, rfl⟩
  takesNoCounter p hp hcounter := by
    have hnone : ∀ p ∈ snapshot.parameters 1, p.1 ≠ updateCounter := by decide +kernel
    exact absurd hcounter (hnone p hp)

end Layer

theorem shown_iff_not_usesUp_layer : HoldsTensors Layer.snapshot 0 1 ∧
    ∀ names : List String, names.Nodup → (∀ name ∈ names, name.startsWith constantStem = false) →
      (1 ∈ shownModules Layer.snapshot [] 0 (Layer.trace names) ↔
        ¬ UsesUp Layer.snapshot 0 (Layer.linear names) 1) := by
  refine ⟨Layer.holdsTensors, ?_⟩
  intro names hnodup hconstant
  rw [shown_iff_not_usesUp Layer.holdsTensors]
  · simp [Layer.trace]
  · intro call hcall
    obtain rfl : call = Layer.linear names := by simpa [Layer.trace] using hcall
    exact Layer.ordinary hnodup hconstant

end ModuleTree

end ModelGraph
