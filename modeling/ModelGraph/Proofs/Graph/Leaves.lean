import Mathlib.Data.Finset.Card
import Mathlib.Data.Finset.Range
import Mathlib.Data.List.Forall2
import Mathlib.Data.List.Nodup
import Mathlib.Logic.Relation
import ModelGraph.Graph.OfModules
import ModelGraph.Proofs.Object.Heap

/-!
# The nodes of a module tree

Modules form a tree if no module is below itself, and none is held twice. The subtrees of a tree have
no module in common, and going down from module to module ends before the objects of the heap run out.

The walk enters sequences only. Each submodule of these that is no sequence becomes one node, with its
own tensors as initializers, whatever it holds. So the nodes are those of the leaves exactly if
everything below the root is a sequence or a leaf.
-/

open Relation

namespace ModelGraph.Snapshot

/-- The submodules of a record that are there, by their keys. -/
def children (s : Snapshot) (v : Value) : List (String × Value) :=
  ((s.submodules? v).getD []).filter fun c => !c.2.isNone

def Holds (s : Snapshot) (v w : Value) : Prop := w ∈ (s.children v).map (·.2)

/-- A module is the root, or is reached from it through submodules. -/
def Below (s : Snapshot) (root v : Value) : Prop := ReflTransGen s.Holds root v

structure IsTree (s : Snapshot) (root : Value) : Prop where
  acyclic : ∀ {v}, s.Below root v → ¬ TransGen s.Holds v v
  holder_unique : ∀ {u v w}, s.Below root u → s.Below root v → s.Holds u w → s.Holds v w → u = v
  nodup : ∀ {v}, s.Below root v → ((s.children v).map (·.2)).Nodup

variable {s : Snapshot} {root v w : Value}

theorem Below.held (h : s.Below root v) (hw : s.Holds v w) : s.Below root w :=
  ReflTransGen.tail h hw

/-! ## Disjoint subtrees -/

/-- A module below a root is the holder of another: a step upwards. -/
def Under (s : Snapshot) (root w v : Value) : Prop := s.Below root v ∧ s.Holds v w

theorem below_iff_under {a : Value} (ha : s.Below root a) :
    s.Below a w ↔ ReflTransGen (s.Under root) w a := by
  constructor
  · intro h
    induction h with
    | refl => exact .refl
    | tail hb hheld ih => exact .head ⟨ReflTransGen.trans ha hb, hheld⟩ ih
  · intro h
    induction h using ReflTransGen.head_induction_on with
    | refl => exact .refl
    | head hstep _ ih => exact Below.held ih hstep.2

namespace IsTree

theorem under_unique (h : s.IsTree root) : Relator.RightUnique (s.Under root) :=
  fun _ _ _ hu hv => h.holder_unique hu.1 hv.1 hu.2 hv.2

private theorem eq_of_under (h : s.IsTree root) (hv : s.Below root v) {a b : Value}
    (ha : s.Holds v a) (hb : s.Holds v b) (hup : ReflTransGen (s.Under root) a b) : a = b := by
  obtain rfl | ⟨x, hx, hup⟩ := ReflTransGen.cases_head hup
  · rfl
  · obtain rfl : x = v := h.holder_unique hx.1 hv hx.2 ha
    have hback : s.Below b x := (below_iff_under (hv.held hb)).mpr hup
    exact absurd (TransGen.head' hb hback) (h.acyclic hv)

/-- The subtrees of two submodules have no module in common. -/
theorem eq_of_below (h : s.IsTree root) (hv : s.Below root v) {a b : Value} (ha : s.Holds v a)
    (hb : s.Holds v b) (hwa : s.Below a w) (hwb : s.Below b w) : a = b := by
  rw [below_iff_under (hv.held ha)] at hwa
  rw [below_iff_under (hv.held hb)] at hwb
  obtain hab | hba := ReflTransGen.total_of_right_unique h.under_unique hwa hwb
  · exact h.eq_of_under hv ha hb hab
  · exact (h.eq_of_under hv hb ha hba).symm

end IsTree

/-! ## Depth -/

open Classical in
/-- How many objects are below a module. -/
noncomputable def weight (s : Snapshot) (v : Value) : Nat :=
  ((Finset.range s.heap.size).filter fun id => TransGen s.Holds v (.ref id)).card

theorem weight_le (s : Snapshot) (v : Value) : s.weight v ≤ s.heap.size := by
  classical
  calc s.weight v ≤ (Finset.range s.heap.size).card := Finset.card_filter_le _ _
    _ = s.heap.size := Finset.card_range _

theorem IsTree.weight_lt (h : s.IsTree root) (hv : s.Below root v) {id : Nat}
    (hid : id < s.heap.size) (hheld : s.Holds v (.ref id)) : s.weight (.ref id) < s.weight v := by
  classical
  apply Finset.card_lt_card
  rw [Finset.ssubset_iff_of_subset]
  · refine ⟨id, by simp [hid, TransGen.single hheld], ?_⟩
    intro hmem
    exact h.acyclic (hv.held hheld) (Finset.mem_filter.mp hmem).2
  · intro other hother
    simp only [Finset.mem_filter] at hother ⊢
    exact ⟨hother.1, TransGen.head hheld hother.2⟩

theorem exists_ref_of_typeName {type : String × String} (h : s.heap.typeName? v = some type) :
    ∃ id, v = .ref id ∧ id < s.heap.size := by
  obtain ⟨o, ho, -⟩ := Option.bind_eq_some_iff.mp h
  exact Heap.exists_ref_of_object ho

/-! ## Nodes and their places -/

/-- A module that becomes a node, with the keys of the sequences around it and its own key. -/
structure Place where
  groups : List String
  key : String
  module : Value

def places (s : Snapshot) : (levels : Nat) → (groups : List String) → Value → List Place
  | 0, _, _ => []
  | levels + 1, groups, v =>
    if s.isLeaf v then [⟨groups, "", v⟩]
    else (s.children v).flatMap fun c =>
      if s.isSequential c.2 then places s levels (groups ++ [c.1]) c.2 else [⟨groups, c.1, c.2⟩]

def NodeAt (s : Snapshot) (n : Node) (p : Place) : Prop :=
  ∃ carried isLink, n = s.moduleNode p.groups p.key p.module carried isLink

theorem exists_of_bind_ok {ε α β : Type} {x : Except ε α} {f : α → Except ε β} {b : β}
    (h : (x >>= f) = .ok b) : ∃ a, x = .ok a ∧ f a = .ok b := by
  cases x with
  | error e => cases h
  | ok a => exact ⟨a, rfl, h⟩

theorem walkChildren_nodes {isLink : Bool} {found : String × Value → List Place}
    {visit : String → Value → List String → Except NoSubmodules Walked}
    (hvisit : ∀ {key v carried w}, visit key v carried = .ok w →
      List.Forall₂ s.NodeAt w.nodes (found (key, v))) {entries : List (String × Value)}
    {carried : List String} {w : Walked} (h : walkChildren isLink visit entries carried = .ok w) :
    List.Forall₂ s.NodeAt w.nodes ((entries.filter fun c => !c.2.isNone).flatMap found) := by
  induction entries generalizing carried w with
  | nil =>
      cases h
      exact .nil
  | cons c rest ih =>
      obtain ⟨key, v⟩ := c
      unfold walkChildren at h
      by_cases hnone : v.isNone
      · rw [if_pos hnone] at h
        rw [List.filter_cons_of_neg (by simp [hnone])]
        exact ih h
      · rw [if_neg hnone] at h
        rw [List.filter_cons_of_pos (by simp [hnone]), List.flatMap_cons]
        obtain ⟨child, hchild, h⟩ := exists_of_bind_ok h
        obtain ⟨others, hothers, h⟩ := exists_of_bind_ok h
        cases h
        exact List.rel_append (hvisit hchild) (ih hothers)

/-- The nodes of a subtree stand at its places, one at each. -/
theorem walk_nodes {levels : Nat} {groups carried : List String} {w : Walked}
    (h : s.walk levels groups v carried = .ok w) :
    List.Forall₂ s.NodeAt w.nodes (s.places levels groups v) := by
  induction levels generalizing groups v carried w with
  | zero =>
      cases h
      exact .nil
  | succ levels ih =>
      unfold walk at h
      unfold places
      by_cases hleaf : s.isLeaf v
      · rw [if_pos hleaf] at h ⊢
        cases h
        exact .cons ⟨carried, false, rfl⟩ .nil
      · rw [if_neg hleaf] at h ⊢
        cases hchildren : s.submodules? v with
        | none =>
            rw [hchildren] at h
            cases h
        | some entries =>
            rw [hchildren] at h
            unfold children
            rw [hchildren]
            refine walkChildren_nodes ?_ h
            intro key c carried w hc
            by_cases hsequential : s.isSequential c
            · simp only [hsequential, if_true] at hc ⊢
              exact ih hc
            · simp only [hsequential] at hc ⊢
              cases hc
              exact .cons ⟨carried, s.isSequential v, rfl⟩ .nil

/-! ## Initializers -/

def ownTensors (s : Snapshot) (v : Value) : List Tensor :=
  (s.entriesOf v "_parameters" ++ s.entriesOf v "_buffers").filterMap fun e => s.tensor? e.2 ""

def tensorsOf (n : Node) : List Tensor := (argumentsOf n.inputs).filterMap (·.initializer?)

theorem initializers_tensorSlots (entries : List (Value × Value))
    (parameters : List Operator.Parameter) :
    (argumentsOf (s.tensorSlots entries parameters)).filterMap (·.initializer?) =
      entries.filterMap fun e => s.tensor? e.2 "" := by
  induction entries generalizing parameters with
  | nil => rfl
  | cons e rest ih =>
      obtain ⟨key, v⟩ := e
      unfold tensorSlots
      cases htensor : s.tensor? v "" with
      | none => simpa [htensor] using ih parameters.tail
      | some t => simpa [htensor, argumentsOf, Argument.ofTensor] using ih parameters.tail

theorem NodeAt.tensorsOf {n : Node} {p : Place} (h : s.NodeAt n p) :
    tensorsOf n = s.ownTensors p.module := by
  obtain ⟨carried, isLink, rfl⟩ := h
  have hcarried : (carried.map Argument.named).filterMap (·.initializer?) = [] := by
    simp [Argument.named]
  have hfirst (name : String) : (argumentsOf (if carried.isEmpty then []
      else [{ name, arguments := carried.map .named : Slot }])).filterMap (·.initializer?) = [] := by
    split
    · rfl
    · simpa [argumentsOf] using hcarried
  unfold moduleNode Snapshot.tensorsOf ownTensors
  dsimp only
  rw [← initializers_tensorSlots _ (s.declaredInputs (s.typeText p.module)).tail]
  unfold argumentsOf at hfirst ⊢
  rw [List.flatMap_append, List.filterMap_append, hfirst, List.nil_append]

/-! ## The modules that are shown -/

/-- A module that the walk enters: the root, or a sequence in one that it enters. -/
def Entered (s : Snapshot) (root v : Value) : Prop :=
  ReflTransGen (fun u w => s.Holds u w ∧ s.isSequential w) root v

def Shown (s : Snapshot) (root v : Value) : Prop :=
  (s.Entered root v ∧ s.isLeaf v) ∨ ∃ u, s.Entered root u ∧ s.Holds u v ∧ s.isSequential v = false

theorem Entered.below (h : s.Entered root v) : s.Below root v :=
  ReflTransGen.mono (fun _ _ hstep => hstep.1) _ _ h

theorem Shown.below (h : s.Shown root v) : s.Below root v := by
  obtain ⟨hentered, -⟩ | ⟨u, hentered, hholds, -⟩ := h
  · exact hentered.below
  · exact hentered.below.held hholds

theorem children_of_isLeaf (h : s.isLeaf v) : s.children v = [] := by
  unfold isLeaf at h
  unfold children
  cases hchildren : s.submodules? v with
  | none => rfl
  | some entries =>
      rw [hchildren] at h
      have hempty : entries = [] := by simpa using (Bool.and_eq_true_iff.mp h).2
      rw [hempty]
      rfl

theorem not_holds_of_children (h : s.children v = []) : ¬ s.Holds v w := by
  unfold Holds
  simp [h]

theorem shown_iff : s.Shown v w ↔ (s.isLeaf v ∧ w = v) ∨
    ∃ c, s.Holds v c ∧ if s.isSequential c then s.Shown c w else w = c := by
  constructor
  · rintro (⟨hentered, hleaf⟩ | ⟨u, hentered, hholds, hw⟩)
    · obtain rfl | ⟨c, ⟨hc, hsequential⟩, hentered⟩ := ReflTransGen.cases_head hentered
      · exact .inl ⟨hleaf, rfl⟩
      · refine .inr ⟨c, hc, ?_⟩
        rw [if_pos hsequential]
        exact .inl ⟨hentered, hleaf⟩
    · obtain rfl | ⟨c, ⟨hc, hsequential⟩, hentered⟩ := ReflTransGen.cases_head hentered
      · exact .inr ⟨w, hholds, by rw [hw, if_neg Bool.false_ne_true]⟩
      · refine .inr ⟨c, hc, ?_⟩
        rw [if_pos hsequential]
        exact .inr ⟨u, hentered, hholds, hw⟩
  · rintro (⟨hleaf, rfl⟩ | ⟨c, hc, hshown⟩)
    · exact .inl ⟨.refl, hleaf⟩
    · by_cases hsequential : s.isSequential c
      · rw [if_pos hsequential] at hshown
        obtain ⟨hentered, hleaf⟩ | ⟨u, hentered, hholds, hw⟩ := hshown
        · exact .inl ⟨.head ⟨hc, hsequential⟩ hentered, hleaf⟩
        · exact .inr ⟨u, .head ⟨hc, hsequential⟩ hentered, hholds, hw⟩
      · rw [if_neg hsequential] at hshown
        subst hshown
        exact .inr ⟨v, .refl, hc, by simpa using hsequential⟩

theorem weight_lt_of_isSequential (h : s.IsTree root) (hv : s.Below root v) (hw : s.Holds v w)
    (hsequential : s.isSequential w) : s.weight w < s.weight v := by
  cases htype : s.heap.typeName? w with
  | none => simp [isSequential, Heap.qualifiedType?, htype] at hsequential
  | some type =>
      obtain ⟨id, rfl, hid⟩ := exists_ref_of_typeName htype
      exact h.weight_lt hv hid hw

theorem mem_places (h : s.IsTree root) {levels : Nat} (hv : s.Below root v)
    (hlevels : s.weight v < levels) (groups : List String) :
    w ∈ (s.places levels groups v).map (·.module) ↔ s.Shown v w := by
  induction levels generalizing v groups with
  | zero => exact absurd hlevels (Nat.not_lt_zero _)
  | succ levels ih =>
      rw [shown_iff]
      unfold places
      by_cases hleaf : s.isLeaf v
      · rw [if_pos hleaf]
        simp [hleaf, not_holds_of_children (children_of_isLeaf hleaf)]
      · rw [if_neg hleaf]
        have hentry {c : String × Value} (hc : s.Holds v c.2) :
            w ∈ (if s.isSequential c.2 then s.places levels (groups ++ [c.1]) c.2
              else [⟨groups, c.1, c.2⟩]).map (·.module) ↔
            if s.isSequential c.2 then s.Shown c.2 w else w = c.2 := by
          by_cases hsequential : s.isSequential c.2
          · rw [if_pos hsequential, if_pos hsequential]
            have hlighter := weight_lt_of_isSequential h hv hc hsequential
            exact ih (hv.held hc) (by omega) _
          · rw [if_neg hsequential, if_neg hsequential]
            simp
        rw [List.map_flatMap, List.mem_flatMap]
        constructor
        · rintro ⟨c, hc, hw⟩
          have hholds : s.Holds v c.2 := List.mem_map_of_mem hc
          exact .inr ⟨c.2, hholds, (hentry hholds).mp hw⟩
        · rintro (⟨hleaf', -⟩ | ⟨_, hholds, hw⟩)
          · exact absurd hleaf' hleaf
          · obtain ⟨c, hc, rfl⟩ := List.mem_map.mp hholds
            exact ⟨c, hc, (hentry hholds).mpr hw⟩

theorem nodup_places (h : s.IsTree root) {levels : Nat} (hv : s.Below root v)
    (hlevels : s.weight v < levels) (groups : List String) :
    ((s.places levels groups v).map (·.module)).Nodup := by
  induction levels generalizing v groups with
  | zero => exact absurd hlevels (Nat.not_lt_zero _)
  | succ levels ih =>
      unfold places
      by_cases hleaf : s.isLeaf v
      · rw [if_pos hleaf]
        exact List.nodup_singleton _
      · rw [if_neg hleaf, List.map_flatMap, List.nodup_flatMap]
        constructor
        · intro c hc
          have hholds : s.Holds v c.2 := List.mem_map_of_mem hc
          by_cases hsequential : s.isSequential c.2
          · rw [if_pos hsequential]
            have hlighter := weight_lt_of_isSequential h hv hholds hsequential
            exact ih (hv.held hholds) (by omega) _
          · rw [if_neg hsequential]
            exact List.nodup_singleton _
        · have hbelow {c : String × Value} {w : Value} (hc : s.Holds v c.2)
              (hw : w ∈ (if s.isSequential c.2 then s.places levels (groups ++ [c.1]) c.2
                else [⟨groups, c.1, c.2⟩]).map (·.module)) : s.Below c.2 w := by
            by_cases hsequential : s.isSequential c.2
            · rw [if_pos hsequential] at hw
              have hlighter := weight_lt_of_isSequential h hv hc hsequential
              exact ((mem_places h (hv.held hc) (by omega) _).mp hw).below
            · rw [if_neg hsequential] at hw
              obtain rfl : w = c.2 := by simpa using hw
              exact .refl
          apply (List.pairwise_map.mp (h.nodup hv)).imp_of_mem
          intro a b ha hb hne w hwa hwb
          have ha' : s.Holds v a.2 := List.mem_map_of_mem ha
          have hb' : s.Holds v b.2 := List.mem_map_of_mem hb
          exact hne (h.eq_of_below hv ha' hb' (hbelow ha' hwa) (hbelow hb' hwb))

def NodeOf (s : Snapshot) (n : Node) (v : Value) : Prop := ∃ p, p.module = v ∧ s.NodeAt n p

theorem initializers_eq {nodes : List Node} {ps : List Place} (h : List.Forall₂ s.NodeAt nodes ps) :
    nodes.flatMap tensorsOf = (ps.map (·.module)).flatMap s.ownTensors := by
  induction h with
  | nil => rfl
  | cons hnode _ ih => simp [hnode.tensorsOf, ih]

variable {g : Graph}

/-- The nodes of the graph of a tree are those of the modules that are shown, one for each. -/
theorem shown_ofModules (htree : s.IsTree root) (hg : Graph.ofModules s root = .ok g) :
    ∃ shown : List Value, shown.Nodup ∧ (∀ v, v ∈ shown ↔ s.Shown root v) ∧
      List.Forall₂ s.NodeOf g.nodes shown ∧ g.initializers = shown.flatMap s.ownTensors := by
  obtain ⟨walked, hwalked, h⟩ := exists_of_bind_ok hg
  cases h
  have hnodes := walk_nodes hwalked
  have hlevels : s.weight root < s.heap.size + 1 := Nat.lt_succ_of_le (s.weight_le root)
  refine ⟨_, nodup_places htree .refl hlevels [], fun v => mem_places htree .refl hlevels [], ?_,
    initializers_eq hnodes⟩
  rw [List.forall₂_map_right_iff]
  exact hnodes.imp fun _ p hp => ⟨p, rfl, hp⟩

/-! ## Flat trees -/

def IsSequence (s : Snapshot) (v : Value) : Prop :=
  s.heap.typeName? v = some (containerPackage, "Sequential")

/-- A record from outside the package of the containers that holds no modules. -/
def Leaf (s : Snapshot) (v : Value) : Prop :=
  (∃ package name, s.heap.typeName? v = some (package, name) ∧ package ≠ containerPackage) ∧
    s.children v = []

/-- Everything below the root is a sequence or a leaf; a root without submodules is walked as a leaf.
A leaf is not called like a sequence, wherever its name is cut into package and name. -/
structure Flat (s : Snapshot) (root : Value) : Prop where
  isLeaf_root : s.Leaf root → s.isLeaf root
  below : ∀ {v}, TransGen s.Holds root v → s.IsSequence v ∨ s.Leaf v ∧ s.isSequential v = false

theorem IsSequence.isSequential (h : s.IsSequence v) : s.isSequential v = true := by
  unfold IsSequence at h
  unfold Snapshot.isSequential Heap.qualifiedType?
  rw [h]
  decide +kernel

theorem IsSequence.not_leaf (h : s.IsSequence v) : ¬ s.Leaf v := by
  rintro ⟨⟨package, name, htype, hne⟩, -⟩
  unfold IsSequence at h
  rw [h] at htype
  cases htype
  exact hne rfl

theorem leaf_of_isLeaf (h : s.isLeaf v) : s.Leaf v := by
  refine ⟨?_, children_of_isLeaf h⟩
  unfold isLeaf at h
  cases htype : s.heap.typeName? v with
  | none => simp [htype] at h
  | some type => exact ⟨type.1, type.2, rfl, by simp_all⟩

theorem Flat.entered (h : s.Flat root) (hv : s.Below root v) (hholds : s.Holds v w) :
    s.Entered root v := by
  induction hv generalizing w with
  | refl => exact .refl
  | tail hu hheld ih =>
      obtain hsequence | ⟨⟨-, hnone⟩, -⟩ := h.below (TransGen.tail' hu hheld)
      · exact .tail (ih hheld) ⟨hheld, hsequence.isSequential⟩
      · exact absurd hholds (not_holds_of_children hnone)

/-- In a flat tree the modules that are shown are the leaves. -/
theorem Flat.shown_iff (h : s.Flat root) : s.Shown root v ↔ s.Below root v ∧ s.Leaf v := by
  constructor
  · intro hv
    refine ⟨hv.below, ?_⟩
    obtain ⟨-, hleaf⟩ | ⟨u, hentered, hholds, hv⟩ := hv
    · exact leaf_of_isLeaf hleaf
    · obtain hsequence | ⟨hleaf, -⟩ := h.below (TransGen.tail' hentered.below hholds)
      · rw [hsequence.isSequential] at hv
        cases hv
      · exact hleaf
  · rintro ⟨hbelow, hleaf⟩
    obtain rfl | ⟨u, hu, hholds⟩ := ReflTransGen.cases_tail hbelow
    · exact .inl ⟨.refl, h.isLeaf_root hleaf⟩
    · obtain hsequence | ⟨-, hplain⟩ := h.below (TransGen.tail' hu hholds)
      · exact absurd hleaf hsequence.not_leaf
      · exact .inr ⟨u, h.entered hu hholds, hholds, hplain⟩

/-- In any other tree, modules are shown that are no leaves, or leaves are not shown. -/
theorem flat_of_shown (htree : s.IsTree root)
    (hnamed : ∀ {v}, s.Below root v → s.isSequential v → s.IsSequence v)
    (h : ∀ v, s.Shown root v ↔ s.Below root v ∧ s.Leaf v) : s.Flat root where
  isLeaf_root hleaf := by
    obtain ⟨-, hleaf⟩ | ⟨u, hentered, hholds, -⟩ := (h root).mpr ⟨.refl, hleaf⟩
    · exact hleaf
    · exact absurd (TransGen.tail' hentered.below hholds) (htree.acyclic .refl)
  below {v} hv := by
    have hstep {u v : Value} (hu : s.Entered root u) (hholds : s.Holds u v) :
        s.IsSequence v ∨ s.Leaf v ∧ s.isSequential v = false := by
      by_cases hsequential : s.isSequential v
      · exact .inl (hnamed (hu.below.held hholds) hsequential)
      · have hplain : s.isSequential v = false := by simpa using hsequential
        exact .inr ⟨((h v).mp (.inr ⟨u, hu, hholds, hplain⟩)).2, hplain⟩
    obtain ⟨u, hu, hholds⟩ := TransGen.tail'_iff.mp hv
    refine hstep (u := u) ?_ hholds
    clear hv
    induction hu generalizing v with
    | refl => exact .refl
    | tail _ hheld ih =>
        have hentered := ih hheld
        obtain hsequence | ⟨⟨-, hnone⟩, -⟩ := hstep hentered hheld
        · exact .tail hentered ⟨hheld, hsequence.isSequential⟩
        · exact absurd hholds (not_holds_of_children hnone)

/-- The graph of a flat tree has one node for each leaf, with the tensors of the leaf as
initializers. -/
theorem leaves_ofModules (htree : s.IsTree root) (hflat : s.Flat root)
    (hg : Graph.ofModules s root = .ok g) :
    ∃ leaves : List Value, leaves.Nodup ∧ (∀ v, v ∈ leaves ↔ s.Below root v ∧ s.Leaf v) ∧
      List.Forall₂ s.NodeOf g.nodes leaves ∧ g.initializers = leaves.flatMap s.ownTensors := by
  obtain ⟨shown, hnodup, hshown, hnodes, hinitializers⟩ := shown_ofModules htree hg
  exact ⟨shown, hnodup, fun v => (hshown v).trans hflat.shown_iff, hnodes, hinitializers⟩

namespace Nested

def sequence (submodules : Nat) : Object :=
  .instance { module := containerPackage, name := "Sequential",
              fields := ⟨[("_modules", .ref submodules)]⟩ }

/-- A sequence of a layer and of another sequence with one layer. -/
def heap : Heap where
  objects := #[sequence 1,
    .dict ⟨[(.str "0", .ref 2), (.str "1", .none), (.str "2", .ref 3)]⟩,
    .instance { module := "torch.nn.modules.linear", name := "Linear" },
    sequence 4,
    .dict ⟨[(.str "0", .ref 5)]⟩,
    .instance { module := "torch.nn.modules.activation", name := "ReLU" }]

def snapshot : Snapshot := { heap, catalog := .empty }

theorem children_eq (v : Value) : snapshot.children v =
    if v = .ref 0 then [("0", .ref 2), ("2", .ref 3)]
    else if v = .ref 3 then [("0", .ref 5)] else [] := by
  cases v with
  | ref id =>
      match id with
      | 0 | 1 | 2 | 3 | 4 | 5 => rfl
      | n + 6 =>
        simp [children, submodules?, Heap.attribute?, Heap.ownAttribute?, Heap.inheritedAttribute?,
          Heap.object?, Value.ref?, Heap.get?, snapshot, heap]
  | _ => rfl

theorem holds_iff {v w : Value} : snapshot.Holds v w ↔
    (v = .ref 0 ∧ (w = .ref 2 ∨ w = .ref 3)) ∨ (v = .ref 3 ∧ w = .ref 5) := by
  unfold Holds
  rw [children_eq]
  by_cases h0 : v = .ref 0
  · simp [h0]
  · by_cases h3 : v = .ref 3 <;> simp [h0, h3]

theorem isTree : snapshot.IsTree (.ref 0) where
  acyclic _ h := by
    have hlt : ∀ v w, snapshot.Holds v w → v.ref?.getD 0 < w.ref?.getD 0 := by
      intro v w h
      rw [holds_iff] at h
      obtain ⟨rfl, rfl | rfl⟩ | ⟨rfl, rfl⟩ := h <;> decide
    have hself := TransGen.lift (p := (· < ·)) (fun v : Value => v.ref?.getD 0) hlt _ _ h
    rw [transGen_eq_self] at hself
    exact Nat.lt_irrefl _ hself
  holder_unique _ _ hu hv := by
    rw [holds_iff] at hu hv
    grind
  nodup _ := by
    rw [children_eq]
    split_ifs <;> simp

theorem leaf_of_type {id : Nat} {package name : String}
    (htype : snapshot.heap.typeName? (.ref id) = some (package, name))
    (hpackage : package ≠ containerPackage) (hchildren : snapshot.children (.ref id) = []) :
    snapshot.Leaf (.ref id) :=
  ⟨⟨package, name, htype, hpackage⟩, hchildren⟩

theorem flat : snapshot.Flat (.ref 0) where
  isLeaf_root h := absurd h (IsSequence.not_leaf rfl)
  below h := by
    obtain ⟨u, -, h⟩ := TransGen.tail'_iff.mp h
    rw [holds_iff] at h
    obtain ⟨-, rfl | rfl⟩ | ⟨-, rfl⟩ := h
    · exact .inr ⟨leaf_of_type rfl (by decide +kernel) rfl, by decide +kernel⟩
    · exact .inl rfl
    · exact .inr ⟨leaf_of_type rfl (by decide +kernel) rfl, by decide +kernel⟩

theorem succeeds : ∃ g, Graph.ofModules snapshot (.ref 0) = .ok g := ⟨_, rfl⟩

end Nested

theorem leaves_ofModules_nested : ∃ g, Graph.ofModules Nested.snapshot (.ref 0) = .ok g ∧
    ∃ leaves : List Value, leaves.Nodup ∧
      (∀ v, v ∈ leaves ↔ Nested.snapshot.Below (.ref 0) v ∧ Nested.snapshot.Leaf v) ∧
      List.Forall₂ Nested.snapshot.NodeOf g.nodes leaves ∧
      g.initializers = leaves.flatMap Nested.snapshot.ownTensors := by
  obtain ⟨g, hg⟩ := Nested.succeeds
  exact ⟨g, hg, leaves_ofModules Nested.isTree Nested.flat hg⟩

end ModelGraph.Snapshot
