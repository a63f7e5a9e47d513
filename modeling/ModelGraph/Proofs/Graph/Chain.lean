import Mathlib.Data.Finset.Card
import Mathlib.Data.List.Chain
import ModelGraph.Proofs.Graph.Leaves

/-!
# Chains of sequences

Below a sequence that holds further sequences and layers, the walk makes one chain of all layers: each
takes the name of the one before, however many sequences open and close between the two. Sequences
without layers, and entries that are none, pass on what they are given.
-/

namespace ModelGraph

/-- What a sequence holds, by its keys: entries that are none, layers, and sequences. -/
inductive Forest where
  | nil
  | absent (key : String) (rest : Forest)
  | layer (key : String) (module : Value) (rest : Forest)
  | sequence (key : String) (id : Nat) (held rest : Forest)

namespace Forest

def entries : Forest → List (String × Value)
  | nil => []
  | absent key rest => (key, .none) :: rest.entries
  | layer key v rest => (key, v) :: rest.entries
  | sequence key id _ rest => (key, .ref id) :: rest.entries

/-- The layers from left to right, with the keys of the sequences around them. -/
def places (groups : List String) : Forest → List Snapshot.Place
  | nil => []
  | absent _ rest => rest.places groups
  | layer key v rest => ⟨groups, key, v⟩ :: rest.places groups
  | sequence key _ held rest => held.places (groups ++ [key]) ++ rest.places groups

/-- How deep sequences are nested. -/
def depth : Forest → Nat
  | nil => 0
  | absent _ rest => rest.depth
  | layer _ _ rest => rest.depth
  | sequence _ _ held rest => max (held.depth + 1) rest.depth

/-- The objects that are sequences. -/
def sequences : Forest → Finset Nat
  | nil => ∅
  | absent _ rest => rest.sequences
  | layer _ _ rest => rest.sequences
  | sequence _ id held rest => insert id (held.sequences ∪ rest.sequences)

end Forest

namespace Snapshot

variable {s : Snapshot} {root v : Value} {f : Forest}

/-- A sequence whose dictionary of modules has the entries of a forest. -/
structure SequenceOf (s : Snapshot) (v : Value) (f : Forest) : Prop where
  isSequence : s.IsSequence v
  modules : ∃ id d, s.heap.attribute? v "_modules" = some (.ref id) ∧
    s.heap.get? id = some (.dict d) ∧ d.entries = f.entries.map fun e => (.str e.1, e.2)

/-- The sequences hold what the forest says, its layers are no sequences, and no key is empty. -/
def Grown (s : Snapshot) : Forest → Prop
  | .nil => True
  | .absent key rest => key ≠ "" ∧ s.Grown rest
  | .layer key v rest => key ≠ "" ∧ v.isNone = false ∧ s.isSequential v = false ∧ s.Grown rest
  | .sequence key id held rest =>
    key ≠ "" ∧ s.SequenceOf (.ref id) held ∧ s.Grown held ∧ s.Grown rest

theorem SequenceOf.submodules? (h : s.SequenceOf v f) : s.submodules? v = some f.entries := by
  obtain ⟨id, d, hmodules, hd, hentries⟩ := h.modules
  have hobject : s.heap.entries? (.ref id) = some (f.entries.map fun e => (.str e.1, e.2)) := by
    have hget : s.heap.object? (.ref id) = some (.dict d) := hd
    rw [Heap.entries?, hget]
    simp [hentries, Key.toValue]
  have hkeys : (f.entries.map fun e => (Value.str e.1, e.2)).map
      (fun e => (s.keyText e.1, e.2)) = f.entries := by
    rw [List.map_map]
    exact List.map_id f.entries
  have hfilter : (some (Value.ref id)).filter (fun w => !w.isNone) = some (.ref id) := rfl
  rw [Snapshot.submodules?, hmodules, hfilter]
  change ((s.heap.entries? (.ref id)).bind fun entries =>
    some (entries.map fun e => (s.keyText e.1, e.2))) = _
  rw [hobject, Option.bind_some, hkeys]

theorem SequenceOf.not_isLeaf (h : s.SequenceOf v f) : s.isLeaf v = false := by
  have htype : s.heap.typeName? v = some (containerPackage, "Sequential") := h.isSequence
  simp [isLeaf, htype]

/-! ## Depth -/

/-- The heap determines what a sequence holds. -/
theorem Grown.eq_of_entries {g : Forest} (hf : s.Grown f) (hg : s.Grown g)
    (h : f.entries = g.entries) : f = g := by
  induction f generalizing g with
  | nil => cases g <;> simp_all [Forest.entries]
  | absent key rest ih =>
      cases g with
      | nil => cases h
      | absent key' rest' =>
          obtain ⟨hhead, hrest⟩ := List.cons.inj h
          cases hhead
          rw [ih hf.2 hg.2 hrest]
      | layer key' v rest' =>
          obtain ⟨hhead, -⟩ := List.cons.inj h
          cases hhead
          cases hg.2.1
      | sequence key' id held rest' => cases (List.cons.inj h).1
  | layer key v rest ih =>
      cases g with
      | nil => cases h
      | absent key' rest' =>
          obtain ⟨hhead, -⟩ := List.cons.inj h
          cases hhead
          cases hf.2.1
      | layer key' v' rest' =>
          obtain ⟨hhead, hrest⟩ := List.cons.inj h
          cases hhead
          rw [ih hf.2.2.2 hg.2.2.2 hrest]
      | sequence key' id held rest' =>
          obtain ⟨hhead, -⟩ := List.cons.inj h
          cases hhead
          exact absurd hf.2.2.1 (by rw [hg.2.1.isSequence.isSequential]; decide)
  | sequence key id held rest ihheld ihrest =>
      cases g with
      | nil => cases h
      | absent key' rest' => cases (List.cons.inj h).1
      | layer key' v' rest' =>
          obtain ⟨hhead, -⟩ := List.cons.inj h
          cases hhead
          exact absurd hg.2.2.1 (by rw [hf.2.1.isSequence.isSequential]; decide)
      | sequence key' id' held' rest' =>
          obtain ⟨hhead, hrest⟩ := List.cons.inj h
          cases hhead
          have hheld : held.entries = held'.entries :=
            Option.some.inj (hf.2.1.submodules?.symm.trans hg.2.1.submodules?)
          rw [ihheld hf.2.2.1 hg.2.2.1 hheld, ihrest hf.2.2.2 hg.2.2.2 hrest]

theorem Grown.exists_of_mem {id : Nat} (hf : s.Grown f) (hid : id ∈ f.sequences) :
    ∃ g, s.SequenceOf (.ref id) g ∧ s.Grown g ∧ g.depth < f.depth := by
  induction f with
  | nil => simp [Forest.sequences] at hid
  | absent key rest ih => exact ih hf.2 hid
  | layer key v rest ih => exact ih hf.2.2.2 hid
  | sequence key other held rest ihheld ihrest =>
      obtain ⟨-, hsequence, hheld, hrest⟩ := hf
      simp only [Forest.sequences, Finset.mem_insert, Finset.mem_union] at hid
      simp only [Forest.depth]
      obtain rfl | hid | hid := hid
      · exact ⟨held, hsequence, hheld, by omega⟩
      · obtain ⟨g, hg, hgrown, hlt⟩ := ihheld hheld hid
        exact ⟨g, hg, hgrown, by omega⟩
      · obtain ⟨g, hg, hgrown, hlt⟩ := ihrest hrest hid
        exact ⟨g, hg, hgrown, by omega⟩

theorem Grown.depth_le_card (hf : s.Grown f) : f.depth ≤ f.sequences.card := by
  induction f with
  | nil => exact Nat.zero_le _
  | absent key rest ih => exact ih hf.2
  | layer key v rest ih => exact ih hf.2.2.2
  | sequence key id held rest ihheld ihrest =>
      obtain ⟨-, hsequence, hheld, hrest⟩ := hf
      -- A sequence is not among those that it holds, as these hold less.
      have hnew : id ∉ held.sequences := by
        intro hid
        obtain ⟨g, hg, hgrown, hlt⟩ := hheld.exists_of_mem hid
        have hentries := Option.some.inj (hg.submodules?.symm.trans hsequence.submodules?)
        rw [hgrown.eq_of_entries hheld hentries] at hlt
        exact Nat.lt_irrefl _ hlt
      have hdown : held.depth + 1 ≤ (insert id held.sequences).card := by
        rw [Finset.card_insert_of_notMem hnew]
        exact Nat.succ_le_succ (ihheld hheld)
      have hleft : insert id held.sequences ⊆ (Forest.sequence key id held rest).sequences :=
        Finset.insert_subset_insert _ Finset.subset_union_left
      have hright : rest.sequences ⊆ (Forest.sequence key id held rest).sequences :=
        Finset.subset_union_right.trans (Finset.subset_insert _ _)
      exact max_le (hdown.trans (Finset.card_le_card hleft))
        ((ihrest hrest).trans (Finset.card_le_card hright))

/-- Sequences are not nested deeper than there are objects. -/
theorem Grown.depth_le_size (hf : s.Grown f) : f.depth ≤ s.heap.size := by
  have hsubset : f.sequences ⊆ Finset.range s.heap.size := by
    intro id hid
    obtain ⟨g, hg, -⟩ := hf.exists_of_mem hid
    obtain ⟨other, heq, hlt⟩ := exists_ref_of_typeName hg.isSequence
    cases heq
    exact Finset.mem_range.mpr hlt
  calc f.depth ≤ f.sequences.card := hf.depth_le_card
    _ ≤ (Finset.range s.heap.size).card := Finset.card_le_card hsubset
    _ = s.heap.size := Finset.card_range _

/-! ## The walk of a sequence -/

/-- The nodes at places in a row, each with the name of the one before as its first input, and the
name of the last. -/
def chain (s : Snapshot) : (carried : List String) → List Place → Walked
  | carried, [] => { carried }
  | carried, p :: rest =>
    let node := s.moduleNode p.groups p.key p.module carried true
    let others := chain s [node.name] rest
    { others with nodes := node :: others.nodes }

theorem chain_append (carried : List String) (ps qs : List Place) :
    s.chain carried (ps ++ qs) =
      { s.chain (s.chain carried ps).carried qs with
        nodes := (s.chain carried ps).nodes ++ (s.chain (s.chain carried ps).carried qs).nodes } := by
  induction ps generalizing carried with
  | nil => rfl
  | cons p ps ih => simp only [List.cons_append, chain, ih]

/-- The visit of a child of a sequence. -/
def visitLink (s : Snapshot) (levels : Nat) (groups : List String) (key : String) (v : Value)
    (carried : List String) : Except NoSubmodules Walked :=
  if s.isSequential v then s.walk levels (groups ++ [key]) v carried
  else
    let node := s.moduleNode groups key v carried true
    .ok { nodes := [node], carried := [node.name] }

theorem walk_of_sequenceOf (h : s.SequenceOf v f) (levels : Nat) (groups carried : List String) :
    s.walk (levels + 1) groups v carried =
      walkChildren true (s.visitLink levels groups) f.entries carried := by
  rw [walk, h.not_isLeaf, h.submodules?, h.isSequence.isSequential]
  rfl

theorem walkChildren_of_grown {levels : Nat} (hf : s.Grown f) (hdepth : f.depth ≤ levels)
    (groups carried : List String) :
    walkChildren true (s.visitLink levels groups) f.entries carried =
      .ok (s.chain carried (f.places groups)) := by
  induction f generalizing levels groups carried with
  | nil => rfl
  | absent key rest ih => exact ih hf.2 hdepth groups carried
  | layer key v rest ih =>
      obtain ⟨-, hsome, hplain, hrest⟩ := hf
      rw [Forest.entries, walkChildren, hsome, visitLink, hplain]
      change (walkChildren true (s.visitLink levels groups) rest.entries _ >>= _) = _
      rw [ih hrest hdepth]
      rfl
  | sequence key id held rest ihheld ihrest =>
      obtain ⟨-, hsequence, hheld, hrest⟩ := hf
      obtain ⟨hdeep, hwide⟩ := max_le_iff.mp hdepth
      obtain ⟨inner, rfl⟩ : ∃ inner, levels = inner + 1 := ⟨levels - 1, by omega⟩
      have hchild : s.visitLink (inner + 1) groups key (.ref id) carried =
          .ok (s.chain carried (held.places (groups ++ [key]))) := by
        rw [visitLink, hsequence.isSequence.isSequential, if_pos rfl, walk_of_sequenceOf hsequence]
        exact ihheld hheld (by omega) _ _
      have hsome : (Value.ref id).isNone = false := rfl
      rw [Forest.entries, walkChildren, hsome, if_neg Bool.false_ne_true, if_pos rfl, hchild]
      change (walkChildren true (s.visitLink (inner + 1) groups) rest.entries _ >>= _) = _
      rw [ihrest hrest hwide, Forest.places, chain_append]
      rfl

/-! ## The nodes of a chain -/

/-- A node of a layer: named by its path, with one output that has its own name. -/
structure LinkAt (s : Snapshot) (n : Node) (p : Place) : Prop where
  nodeAt : s.NodeAt n p
  group_eq : n.group = "/".intercalate p.groups
  name_eq : n.name = "/".intercalate (p.groups ++ [p.key])
  outputs_eq : ∃ slot, n.outputs = [slot] ∧ slot.arguments = [.named n.name]

/-- A place whose keys are not empty. -/
def Place.Named (p : Place) : Prop := p.key ≠ "" ∧ "" ∉ p.groups

theorem Grown.named {groups : List String} (hf : s.Grown f) (hgroups : "" ∉ groups) :
    ∀ p ∈ f.places groups, p.Named := by
  induction f generalizing groups with
  | nil => exact fun _ hp => absurd hp List.not_mem_nil
  | absent key rest ih => exact ih hf.2 hgroups
  | layer key v rest ih =>
      exact List.forall_mem_cons.mpr ⟨⟨hf.1, hgroups⟩, ih hf.2.2.2 hgroups⟩
  | sequence key id held rest ihheld ihrest =>
      obtain ⟨hkey, -, hheld, hrest⟩ := hf
      have hinner : "" ∉ groups ++ [key] := by simpa [hgroups] using hkey.symm
      exact List.forall_mem_append.mpr ⟨ihheld hheld hinner, ihrest hrest hgroups⟩

theorem intercalate_ne_empty {names : List String} (hnames : names ≠ []) (h : "" ∉ names) :
    "/".intercalate names ≠ "" := by
  obtain ⟨name, names, rfl⟩ := List.exists_cons_of_ne_nil hnames
  have hname : name ≠ "" := fun heq => h (heq ▸ List.mem_cons_self)
  cases names with
  | nil => rwa [String.intercalate_singleton]
  | cons => simp [String.intercalate_cons_cons, String.append_eq_empty_iff]

theorem linkAt_moduleNode {p : Place} (hp : p.Named) (carried : List String) :
    s.LinkAt (s.moduleNode p.groups p.key p.module carried true) p where
  nodeAt := ⟨carried, true, rfl⟩
  group_eq := rfl
  name_eq := by
    unfold moduleNode
    dsimp only
    by_cases hgroups : p.groups = []
    · rw [hgroups]
      rfl
    · have hne := intercalate_ne_empty hgroups hp.2
      rw [if_neg (by simpa using hne), String.intercalate_append_of_ne_nil hgroups (List.cons_ne_nil _ _),
        String.intercalate_singleton]
  outputs_eq := ⟨_, rfl, rfl⟩

theorem linkAt_chain {ps : List Place} (hps : ∀ p ∈ ps, p.Named) (carried : List String) :
    List.Forall₂ s.LinkAt (s.chain carried ps).nodes ps := by
  induction ps generalizing carried with
  | nil => exact .nil
  | cons p ps ih =>
      obtain ⟨hp, hps⟩ := List.forall_mem_cons.mp hps
      exact .cons (linkAt_moduleNode hp carried) (ih hps _)

theorem name_ne_empty {nodes : List Node} {ps : List Place} (h : List.Forall₂ s.LinkAt nodes ps)
    (hps : ∀ p ∈ ps, p.Named) : ∀ n ∈ nodes, n.name ≠ "" := by
  induction h with
  | nil => exact fun _ hn => absurd hn List.not_mem_nil
  | @cons n p _ _ hlink _ ih =>
      obtain ⟨hp, hps⟩ := List.forall_mem_cons.mp hps
      refine List.forall_mem_cons.mpr ⟨?_, ih hps⟩
      rw [hlink.name_eq]
      exact intercalate_ne_empty (by simp) (by simpa [hp.2] using hp.1.symm)

/-- The first input of the second node is the name of the first. -/
def Feeds (n next : Node) : Prop :=
  ∃ slot, next.inputs.head? = some slot ∧ slot.arguments = [.named n.name]

theorem chain_feeds (carried : List String) (ps : List Place) :
    (s.chain carried ps).nodes.IsChain Feeds := by
  induction ps generalizing carried with
  | nil => exact .nil
  | cons p ps ih =>
      cases ps with
      | nil => exact .singleton _
      | cons q ps => exact .cons_cons ⟨_, rfl, rfl⟩ (ih _)

/-- A tensor slot names no node. -/
theorem name_of_mem_tensorSlots {entries : List (Value × Value)} {parameters : List Operator.Parameter}
    {a : Argument} (ha : a ∈ argumentsOf (s.tensorSlots entries parameters)) : a.name = "" := by
  induction entries generalizing parameters with
  | nil => cases ha
  | cons e rest ih =>
      obtain ⟨key, v⟩ := e
      unfold tensorSlots at ha
      cases htensor : s.tensor? v "" with
      | none =>
          rw [htensor] at ha
          exact ih ha
      | some t =>
          rw [htensor] at ha
          rcases List.mem_append.mp ha with ha | ha
          · rw [List.mem_singleton.mp ha]
            rfl
          · exact ih ha

/-- The modules of nested sequences become one chain of nodes: those of the layers from left to right,
named by their paths. Each has its own name as its only output, the first takes the output of none,
and each further one takes, by its first input, that of the node before it. -/
theorem ofModules_chain (hroot : s.SequenceOf root f) (hf : s.Grown f) :
    ∃ g, Graph.ofModules s root = .ok g ∧
      List.Forall₂ s.LinkAt g.nodes (f.places []) ∧
      (∀ first, g.nodes.head? = some first →
        ∀ a ∈ argumentsOf first.inputs, ∀ n ∈ g.nodes, a.name ≠ n.name) ∧
      g.nodes.IsChain Feeds := by
  have hwalk : s.walk (s.heap.size + 1) [] root [] = .ok (s.chain [] (f.places [])) :=
    (walk_of_sequenceOf hroot _ _ _).trans (walkChildren_of_grown hf hf.depth_le_size _ _)
  have hnamed : ∀ p ∈ f.places [], p.Named := hf.named List.not_mem_nil
  have hlinks := linkAt_chain (s := s) hnamed []
  have hgraph : Graph.ofModules s root =
      .ok { type := s.heap.qualifiedType? root, nodes := (s.chain [] (f.places [])).nodes } := by
    rw [Graph.ofModules, hwalk]
    rfl
  refine ⟨_, hgraph, hlinks, fun first hfirst a ha n hn => ?_, chain_feeds _ _⟩
  have hunnamed : a.name = "" := by
    rcases hplaces : f.places [] with _ | ⟨p, ps⟩
    · rw [hplaces] at hfirst
      cases hfirst
    · rw [hplaces] at hfirst
      cases hfirst
      exact name_of_mem_tensorSlots ha
  rw [hunnamed]
  exact (name_ne_empty hlinks hnamed n hn).symm

namespace Chained

/-- A layer, an entry that is none, and a sequence of an empty sequence and a second layer. -/
def heap : Heap where
  objects := #[Nested.sequence 1,
    .dict ⟨[(.str "0", .ref 2), (.str "1", .none), (.str "2", .ref 3)]⟩,
    .instance { module := "torch.nn.modules.linear", name := "Linear" },
    Nested.sequence 5,
    .instance { module := "torch.nn.modules.activation", name := "ReLU" },
    .dict ⟨[(.str "a", .ref 6), (.str "b", .ref 4)]⟩,
    Nested.sequence 7,
    .dict ⟨[]⟩]

def snapshot : Snapshot := { heap, catalog := .empty }

def forest : Forest :=
  .layer "0" (.ref 2) (.absent "1"
    (.sequence "2" 3 (.sequence "a" 6 .nil (.layer "b" (.ref 4) .nil)) .nil))

theorem sequenceOf_root : snapshot.SequenceOf (.ref 0) forest := ⟨rfl, 1, _, rfl, rfl, rfl⟩

theorem grown : snapshot.Grown forest :=
  ⟨by decide, rfl, by decide +kernel, by decide, by decide, ⟨rfl, 5, _, rfl, rfl, rfl⟩,
    ⟨by decide, ⟨rfl, 7, _, rfl, rfl, rfl⟩, trivial, by decide, rfl, by decide +kernel, trivial⟩,
    trivial⟩

end Chained

theorem ofModules_chain_nested : ∃ g, Graph.ofModules Chained.snapshot (.ref 0) = .ok g ∧
    List.Forall₂ Chained.snapshot.LinkAt g.nodes [⟨[], "0", .ref 2⟩, ⟨["2"], "b", .ref 4⟩] ∧
    (∀ first, g.nodes.head? = some first →
      ∀ a ∈ argumentsOf first.inputs, ∀ n ∈ g.nodes, a.name ≠ n.name) ∧
    g.nodes.IsChain Feeds :=
  ofModules_chain Chained.sequenceOf_root Chained.grown

end Snapshot

end ModelGraph
