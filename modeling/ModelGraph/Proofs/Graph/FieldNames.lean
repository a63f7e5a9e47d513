import Mathlib.Data.Fintype.Card
import Mathlib.Data.Fintype.EquivFin
import Mathlib.Data.Fintype.Sets
import ModelGraph.Proofs.Graph.Owners
import ModelGraph.Proofs.Object.Paths

/-!
# The names of modules

A module is named by the first field that it was found under, below the name of the last module that
holds it. Where a module is shared these need not fit: the name is a path of fields only if the last
holder has the module under that field, and so on up to the root.
-/

namespace ModelGraph

open Relation

namespace Snapshot

variable {s : Snapshot} {root module holder id : Nat} {name : String}
variable {entries : List (Nat × String × Value)}

/-- A step of the index, from a module to one that it holds. -/
def Contains (s : Snapshot) (holder module : Nat) : Prop := module ∈ s.records (s.walkedFields holder)

/-- No module that the index comes by is below itself. -/
def Acyclic (s : Snapshot) (root : Nat) : Prop :=
  ∀ module, ReflTransGen s.Contains root module → ¬ TransGen s.Contains module module

/-- The modules among fields, each with its holder and the name of the field. -/
def modulesAmong (s : Snapshot) (entries : List (Nat × String × Value)) : List (Nat × String × Nat) :=
  entries.filterMap fun (holder, name, v) =>
    if s.heap.isRecord v then v.ref?.map (holder, name, ·) else none

def heldModules (s : Snapshot) (root : Nat) : List (Nat × String × Nat) :=
  s.modulesAmong (s.indexedFields root)

/-- The field that a module is first found under. -/
def firstName? (held : List (Nat × String × Nat)) (module : Nat) : Option String :=
  (held.find? (·.2.2 = module)).map (·.2.1)

/-- The module that a module is last found in. -/
def lastHolder? (held : List (Nat × String × Nat)) (module : Nat) : Option Nat :=
  (held.reverse.find? (·.2.2 = module)).map (·.1)

/-- A module that its last holder has under the field that it was first found under. -/
def InPlace (s : Snapshot) (root module : Nat) : Prop :=
  ∃ holder name, lastHolder? (s.heldModules root) module = some holder ∧
    firstName? (s.heldModules root) module = some name ∧
    s.heap.edge? holder name = some (.ref module)

/-- A module, its last holder, the last holder of that one, and so on. -/
def Upward (s : Snapshot) (root module holder : Nat) : Prop :=
  ReflTransGen (fun m h => lastHolder? (s.heldModules root) m = some h) module holder

/-- The names from the root down to a module. -/
inductive Named (s : Snapshot) (root : Nat) : Nat → List String → Prop
  | root : Named s root root []
  | held {holder module : Nat} {name : String} {names : List String}
      (hholder : Named s root holder names)
      (hlast : lastHolder? (s.heldModules root) module = some holder)
      (hfirst : firstName? (s.heldModules root) module = some name) :
      Named s root module (names ++ [name])

theorem mem_modulesAmong : (holder, name, module) ∈ s.modulesAmong entries ↔
    (holder, name, .ref module) ∈ entries ∧ s.heap.isRecord (.ref module) := by
  unfold modulesAmong
  rw [List.mem_filterMap]
  constructor
  · rintro ⟨⟨m, x, v⟩, hmem, heq⟩
    dsimp only at heq
    split_ifs at heq with hrecord
    cases v with
    | ref id =>
        cases heq
        exact ⟨hmem, hrecord⟩
    | _ => cases heq
  · rintro ⟨hmem, hrecord⟩
    refine ⟨_, hmem, ?_⟩
    dsimp only
    rw [if_pos hrecord]
    rfl

theorem mem_heldModules : (holder, name, module) ∈ s.heldModules root ↔
    ReflTransGen s.Contains root holder ∧ (name, .ref module) ∈ s.walkedFields holder ∧
      s.heap.isRecord (.ref module) := by
  rw [heldModules, mem_modulesAmong, mem_indexedFields, and_assoc]
  rfl

theorem contains_iff : s.Contains holder module ↔
    ∃ name, (name, .ref module) ∈ s.walkedFields holder ∧ s.heap.isRecord (.ref module) := by
  unfold Contains records
  rw [List.mem_filterMap]
  constructor
  · rintro ⟨⟨name, v⟩, hmem, heq⟩
    split_ifs at heq with hrecord
    cases v with
    | ref id =>
        cases heq
        exact ⟨name, hmem, hrecord⟩
    | _ => cases heq
  · rintro ⟨name, hmem, hrecord⟩
    exact ⟨_, hmem, if_pos hrecord⟩

theorem exists_of_firstName? (h : firstName? (s.heldModules root) module = some name) :
    ∃ holder, ReflTransGen s.Contains root holder ∧ s.Contains holder module := by
  obtain ⟨⟨holder, x, m⟩, hfind, -⟩ := Option.map_eq_some_iff.mp h
  obtain rfl : m = module := by simpa using List.find?_some hfind
  obtain ⟨hholder, hfield, hrecord⟩ := mem_heldModules.mp (List.mem_of_find?_eq_some hfind)
  exact ⟨holder, hholder, contains_iff.mpr ⟨x, hfield, hrecord⟩⟩

theorem below_of_lastHolder? (h : lastHolder? (s.heldModules root) module = some holder) :
    ReflTransGen s.Contains root holder ∧ s.Contains holder module := by
  obtain ⟨⟨a, x, m⟩, hfind, rfl⟩ := Option.map_eq_some_iff.mp h
  obtain rfl : m = module := by simpa using List.find?_some hfind
  have hmem := List.mem_reverse.mp (List.mem_of_find?_eq_some hfind)
  obtain ⟨hholder, hfield, hrecord⟩ := mem_heldModules.mp hmem
  exact ⟨hholder, contains_iff.mpr ⟨x, hfield, hrecord⟩⟩

theorem Acyclic.firstName?_root (h : s.Acyclic root) : firstName? (s.heldModules root) root = none := by
  by_contra hne
  obtain ⟨name, hname⟩ := Option.ne_none_iff_exists'.mp hne
  obtain ⟨holder, hholder, hbelow⟩ := exists_of_firstName? hname
  exact h root .refl (.tail' hholder hbelow)

/-- A module other than the root has a holder and a name. -/
theorem exists_held (hmodule : ReflTransGen s.Contains root module) (hne : module ≠ root) :
    ∃ holder name, lastHolder? (s.heldModules root) module = some holder ∧
      firstName? (s.heldModules root) module = some name := by
  obtain rfl | ⟨a, ha, hbelow⟩ := hmodule.cases_tail
  · exact absurd rfl hne
  obtain ⟨x, hfield, hrecord⟩ := contains_iff.mp hbelow
  have hmem : (a, x, module) ∈ s.heldModules root := mem_heldModules.mpr ⟨ha, hfield, hrecord⟩
  have hfirst : ((s.heldModules root).find? (·.2.2 = module)).isSome :=
    List.find?_isSome.mpr ⟨_, hmem, by simp⟩
  have hlast : ((s.heldModules root).reverse.find? (·.2.2 = module)).isSome :=
    List.find?_isSome.mpr ⟨_, List.mem_reverse.mpr hmem, by simp⟩
  obtain ⟨first, hfirst⟩ := Option.isSome_iff_exists.mp hfirst
  obtain ⟨last, hlast⟩ := Option.isSome_iff_exists.mp hlast
  exact ⟨last.1, first.2.1, by rw [lastHolder?, hlast]; rfl, by rw [firstName?, hfirst]; rfl⟩

/-- Going up from holder to holder ends at the root. -/
theorem Acyclic.exists_named (h : s.Acyclic root) (hmodule : ReflTransGen s.Contains root module) :
    ∃ names, s.Named root module names := by
  let Under (a b : { m // m ∈ s.modulesBelow root }) : Prop := TransGen s.Contains a.1 b.1
  have : IsTrans _ Under := ⟨fun _ _ _ hab hbc => hab.trans hbc⟩
  have : Std.Irrefl Under := ⟨fun a => h a.1 ((s.visits_modulesBelow root).mem_iff.mp a.2)⟩
  have hwf : WellFounded Under := Finite.wellFounded_of_trans_of_irrefl Under
  suffices hall : ∀ m : { m // m ∈ s.modulesBelow root }, ∃ names, s.Named root m names from
    hall ⟨module, (s.visits_modulesBelow root).mem_iff.mpr hmodule⟩
  intro m
  induction m using hwf.induction with
  | _ m ih =>
      by_cases hroot : m.1 = root
      · rw [hroot]
        exact ⟨[], .root⟩
      · have hm := (s.visits_modulesBelow root).mem_iff.mp m.2
        obtain ⟨holder, name, hlast, hfirst⟩ := exists_held hm hroot
        obtain ⟨hholder, hbelow⟩ := below_of_lastHolder? hlast
        obtain ⟨names, hnames⟩ :=
          ih ⟨holder, (s.visits_modulesBelow root).mem_iff.mpr hholder⟩ (.single hbelow)
        exact ⟨names ++ [name], .held hnames hlast hfirst⟩

/-- The modules on the way to a named module differ, one for each name. -/
theorem Named.exists_modules {names : List String} (hnamed : s.Named root module names)
    (h : s.Acyclic root) : ∃ modules : List Nat, modules.length = names.length ∧ modules.Nodup ∧
      ∀ m ∈ modules, (firstName? (s.heldModules root) m).isSome ∧ ReflTransGen s.Contains m module := by
  induction hnamed with
  | root => exact ⟨[], rfl, List.nodup_nil, by simp⟩
  | @held holder module name names _ hlast hfirst ih =>
      obtain ⟨modules, hlength, hnodup, hmodules⟩ := ih
      obtain ⟨hholder, hbelow⟩ := below_of_lastHolder? hlast
      refine ⟨module :: modules, ?_, ?_, ?_⟩
      · rw [List.length_cons, hlength, List.length_append, List.length_singleton]
      · refine List.nodup_cons.mpr ⟨fun hmem => ?_, hnodup⟩
        exact h holder hholder (.head' hbelow (hmodules module hmem).2)
      · intro m hm
        obtain rfl | hm := List.mem_cons.mp hm
        · exact ⟨by rw [hfirst]; rfl, .refl⟩
        · exact ⟨(hmodules m hm).1, (hmodules m hm).2.tail hbelow⟩

end Snapshot

namespace ModuleTree

open Snapshot

variable {s : Snapshot} {constants : List Value} {root module : Nat}

/-- The field names that the dotted path of a module is joined from. -/
def fieldNames (t : ModuleTree) (module : Nat) : List String := t.path (t.fields.size + 1) module

theorem modulesAmong_cons (s : Snapshot) (entry : Nat × String × Value)
    (rest : List (Nat × String × Value)) :
    s.modulesAmong (entry :: rest) = s.modulesAmong [entry] ++ s.modulesAmong rest :=
  List.filterMap_append (l := [entry])

theorem fields_enter (t : ModuleTree) (entry : Nat × String × Value) (module : Nat) :
    (enter s t entry).fields.get? module =
      (t.fields.get? module).or (firstName? (s.modulesAmong [entry]) module) := by
  obtain ⟨holder, name, v⟩ := entry
  unfold enter addField modulesAmong firstName?
  cases v with
  | ref id =>
      by_cases htensor : s.heap.isTensor (.ref id)
      · simp [Value.ref?, htensor, addTensor, Heap.isRecord]
      · by_cases hrecord : s.heap.isRecord (.ref id)
        · by_cases heq : id = module
          · subst heq
            cases hold : t.fields.get? id <;>
              simp [Value.ref?, htensor, hrecord, addModule, OrderedMap.contains, hold]
          · cases hold : t.fields.get? id <;>
              simp [Value.ref?, htensor, hrecord, addModule, OrderedMap.contains, hold,
                OrderedMap.get?_insert, heq, Ne.symm heq]
        · simp [Value.ref?, htensor, hrecord]
  | _ => simp [Value.ref?]

theorem owners_enter (t : ModuleTree) (entry : Nat × String × Value)
    (hmodule : s.heap.isRecord (.ref module)) : (enter s t entry).owners.get? module =
      (lastHolder? (s.modulesAmong [entry]) module).or (t.owners.get? module) := by
  obtain ⟨holder, name, v⟩ := entry
  unfold enter addField modulesAmong lastHolder?
  cases v with
  | ref id =>
      by_cases htensor : s.heap.isTensor (.ref id)
      · have hne : module ≠ id := by
          rintro rfl
          simp [Heap.isRecord, htensor] at hmodule
        simp [Value.ref?, htensor, addTensor, Heap.isRecord, OrderedMap.get?_insert, hne]
      · by_cases hrecord : s.heap.isRecord (.ref id)
        · by_cases heq : id = module
          · subst heq
            simp [Value.ref?, htensor, hrecord, addModule]
          · simp [Value.ref?, htensor, hrecord, addModule, OrderedMap.get?_insert, heq, Ne.symm heq]
        · simp [Value.ref?, htensor, hrecord]
  | _ => simp [Value.ref?]

theorem fields_foldl_enter (entries : List (Nat × String × Value)) (t : ModuleTree) (module : Nat) :
    (entries.foldl (enter s) t).fields.get? module =
      (t.fields.get? module).or (firstName? (s.modulesAmong entries) module) := by
  induction entries generalizing t with
  | nil => exact Option.or_none.symm
  | cons entry rest ih =>
      rw [List.foldl_cons, ih, fields_enter, modulesAmong_cons s entry rest, Option.or_assoc,
        firstName?, firstName?, firstName?, List.find?_append, Option.map_or]

theorem owners_foldl_enter (entries : List (Nat × String × Value)) (t : ModuleTree)
    (hmodule : s.heap.isRecord (.ref module)) : (entries.foldl (enter s) t).owners.get? module =
      (lastHolder? (s.modulesAmong entries) module).or (t.owners.get? module) := by
  induction entries generalizing t with
  | nil => rfl
  | cons entry rest ih =>
      rw [List.foldl_cons, ih, owners_enter t entry hmodule, modulesAmong_cons s entry rest,
        ← Option.or_assoc, lastHolder?, lastHolder?, lastHolder?, List.reverse_append,
        List.find?_append, Option.map_or]

theorem fields_ofConstants (s : Snapshot) (constants : List Value) :
    (ofConstants s constants).fields = {} := by
  unfold ofConstants
  refine List.foldlRecOn (motive := fun t : ModuleTree => t.fields = {}) constants _ rfl
    fun t ht v _ => ?_
  split
  · exact ht
  · exact ht

theorem fields_ofRoot (module : Nat) :
    (ofRoot s constants root).fields.get? module = firstName? (s.heldModules root) module := by
  rw [ofRoot_eq_foldl, fields_foldl_enter, fields_ofConstants]
  rfl

theorem owners_ofRoot (hmodule : s.heap.isRecord (.ref module)) :
    (ofRoot s constants root).owners.get? module = lastHolder? (s.heldModules root) module := by
  rw [ofRoot_eq_foldl, owners_foldl_enter _ _ hmodule, owners_ofConstants]
  exact Option.or_none

theorem path_of_named (h : s.Acyclic root) {names : List String}
    (hnamed : s.Named root module names) {levels : Nat} (hlevels : names.length < levels) :
    (ofRoot s constants root).path levels module = names := by
  induction hnamed generalizing levels with
  | root =>
      obtain ⟨levels, rfl⟩ := Nat.exists_eq_succ_of_ne_zero (Nat.ne_of_gt hlevels)
      rw [path, fields_ofRoot, h.firstName?_root]
  | @held holder module name names _ hlast hfirst ih =>
      rw [List.length_append] at hlevels
      obtain ⟨levels, rfl⟩ := Nat.exists_eq_succ_of_ne_zero (Nat.ne_zero_of_lt hlevels)
      obtain ⟨-, hbelow⟩ := below_of_lastHolder? hlast
      obtain ⟨-, -, hrecord⟩ := contains_iff.mp hbelow
      rw [path, fields_ofRoot, hfirst, owners_ofRoot hrecord, hlast]
      exact congrArg (· ++ [name]) (ih (Nat.lt_of_succ_lt_succ hlevels))

/-- There are no more names on the way to a module than modules with a name. -/
theorem length_le_of_named (h : s.Acyclic root) {names : List String}
    (hnamed : s.Named root module names) :
    names.length ≤ (ofRoot s constants root).fields.size := by
  obtain ⟨modules, hlength, hnodup, hmodules⟩ := hnamed.exists_modules h
  have hkeys : modules ⊆ (ofRoot s constants root).fields.keys := by
    intro m hm
    obtain ⟨name, hname⟩ := Option.isSome_iff_exists.mp (hmodules m hm).1
    have hfound : (ofRoot s constants root).fields.get? m = some name := (fields_ofRoot m).trans hname
    exact List.mem_map_of_mem (OrderedMap.mem_entries_of_get? hfound)
  have hle := (hnodup.subperm hkeys).length_le
  rwa [hlength, OrderedMap.keys, List.length_map] at hle

theorem fieldNames_of_named (h : s.Acyclic root) {names : List String}
    (hnamed : s.Named root module names) : (ofRoot s constants root).fieldNames module = names :=
  path_of_named h hnamed (Nat.lt_succ_of_le (length_le_of_named h hnamed))

theorem named_fieldNames (h : s.Acyclic root) (hmodule : ReflTransGen s.Contains root module) :
    s.Named root module ((ofRoot s constants root).fieldNames module) := by
  obtain ⟨names, hnamed⟩ := h.exists_named hmodule
  rwa [fieldNames_of_named h hnamed]

theorem dottedPath?_eq (h : s.Acyclic root) (hmodule : ReflTransGen s.Contains root module) :
    (ofRoot s constants root).dottedPath? module = if module = root then none
      else some (".".intercalate ((ofRoot s constants root).fieldNames module)) := by
  rw [dottedPath?, OrderedMap.contains, fields_ofRoot]
  split_ifs with hfirst hroot hroot
  · rw [hroot, h.firstName?_root] at hfirst
    cases hfirst
  · rfl
  · rfl
  · obtain ⟨-, name, -, hname⟩ := exists_held hmodule hroot
    rw [hname] at hfirst
    exact absurd rfl hfirst

/-- Where all on the way up are in place, the names lead down. -/
theorem walk?_of_inPlace (h : s.Acyclic root) {names : List String}
    (hnamed : s.Named root module names)
    (hplaces : ∀ m, s.Upward root module m → m = root ∨ s.InPlace root m) :
    s.heap.walk? root names = some module := by
  induction hnamed with
  | root => rfl
  | @held holder module name names _ hlast hfirst ih =>
      refine Heap.walk?_eq_some_concat.mpr ⟨holder, ih fun m hm => hplaces m (.head hlast hm), ?_⟩
      obtain rfl | ⟨a, x, ha, hx, hedge⟩ := hplaces module .refl
      · rw [h.firstName?_root] at hfirst
        cases hfirst
      · rw [hlast] at ha
        rw [hfirst] at hx
        cases ha
        cases hx
        exact hedge

theorem inPlace_of_walk? (h : s.Acyclic root) (hmodule : ReflTransGen s.Contains root module)
    (hpaths : ∀ m, s.Upward root module m →
      s.heap.walk? root ((ofRoot s constants root).fieldNames m) = some m) :
    module = root ∨ s.InPlace root module := by
  by_cases hroot : module = root
  · exact .inl hroot
  obtain ⟨holder, name, hlast, hfirst⟩ := exists_held hmodule hroot
  have hholder : s.Named root holder ((ofRoot s constants root).fieldNames holder) :=
    named_fieldNames h (below_of_lastHolder? hlast).1
  have hpath := hpaths module .refl
  rw [fieldNames_of_named h (.held hholder hlast hfirst), Heap.walk?_eq_some_concat] at hpath
  obtain ⟨b, hb, hedge⟩ := hpath
  rw [hpaths holder (.single hlast)] at hb
  cases hb
  exact .inr ⟨holder, name, hlast, hfirst, hedge⟩

theorem below_of_upward {m : Nat} (hmodule : ReflTransGen s.Contains root module)
    (hm : s.Upward root module m) : ReflTransGen s.Contains root m := by
  induction hm with
  | refl => exact hmodule
  | tail _ hlast _ => exact (below_of_lastHolder? hlast).1

namespace Shared

def block (fields : List (String × Value)) : Object :=
  .instance { module := "m", name := "Block", fields := ⟨fields⟩ }

/-- A model of two blocks; both hold the first of two layers, and the second block also the other. -/
def heap : Heap where
  objects := #[block [("a", .ref 1), ("b", .ref 2)], block [("x", .ref 3)],
    block [("y", .ref 3), ("x", .ref 4)], block [("weight", .ref 5)], block [("weight", .ref 5)],
    Layer.tensor "1"]

def snapshot : Snapshot := { heap, catalog := .empty }

theorem lt_of_contains {a b : Nat} (h : snapshot.Contains a b) : a < b := by
  have hall : ∀ a < 6, ∀ b ∈ snapshot.records (snapshot.walkedFields a), a < b := by decide +kernel
  refine hall a ?_ b h
  obtain ⟨name, hfield, -⟩ := contains_iff.mp h
  by_contra hlarge
  have hnone : snapshot.heap.get? a = none := Heap.get?_eq_none_of_le (Nat.le_of_not_lt hlarge)
  have hempty : snapshot.moduleFields a = [] := by
    rw [moduleFields, Heap.fields?, hnone]
    rfl
  rw [walkedFields, hempty, ite_self] at hfield
  cases hfield

theorem acyclic : snapshot.Acyclic 0 := by
  intro module _ hcycle
  have hlt : ∀ {a b}, TransGen snapshot.Contains a b → a < b := by
    intro a b h
    induction h with
    | single h => exact lt_of_contains h
    | tail _ h ih => exact ih.trans (lt_of_contains h)
  exact Nat.lt_irrefl module (hlt hcycle)

end Shared

/-- Both layers have the name of the second one. -/
example : (ofRoot Shared.snapshot [] 0).dottedPath? 3 = some "b.x" ∧
    (ofRoot Shared.snapshot [] 0).dottedPath? 4 = some "b.x" := by
  decide +kernel

/-- A module has the name of the field that it was first found under, after those of its last holder.
These names are paths to the module and its holders exactly if each of them is in its last holder
under its own name, and modules for which they are have names that differ. -/
theorem fieldNames_real_iff (constants : List Value) (h : s.Acyclic root)
    (hmodule : ReflTransGen s.Contains root module) :
    s.Named root module ((ofRoot s constants root).fieldNames module) ∧
      ((ofRoot s constants root).dottedPath? module = if module = root then none
        else some (".".intercalate ((ofRoot s constants root).fieldNames module))) ∧
      ((∀ m, s.Upward root module m →
          s.heap.walk? root ((ofRoot s constants root).fieldNames m) = some m) ↔
        ∀ m, s.Upward root module m → m = root ∨ s.InPlace root m) ∧
      ∀ other, ReflTransGen s.Contains root other →
        (∀ m, s.Upward root module m → m = root ∨ s.InPlace root m) →
        (∀ m, s.Upward root other m → m = root ∨ s.InPlace root m) → other ≠ module →
        (ofRoot s constants root).fieldNames other ≠ (ofRoot s constants root).fieldNames module := by
  refine ⟨named_fieldNames h hmodule, dottedPath?_eq h hmodule, ⟨?_, ?_⟩, ?_⟩
  · intro hpaths m hm
    exact inPlace_of_walk? h (below_of_upward hmodule hm) fun c hc => hpaths c (hm.trans hc)
  · intro hplaces m hm
    apply walk?_of_inPlace h (named_fieldNames h (below_of_upward hmodule hm))
    exact fun c hc => hplaces c (hm.trans hc)
  · intro other hother hplaces hplaces' hne heq
    have hnamed {m : Nat} (hm : ReflTransGen s.Contains root m) :
        s.Named root m ((ofRoot s constants root).fieldNames m) := named_fieldNames h hm
    have hpath := walk?_of_inPlace h (hnamed hmodule) hplaces
    have hpath' := walk?_of_inPlace h (hnamed hother) hplaces'
    rw [heq, hpath] at hpath'
    exact hne (Option.some.inj hpath').symm

theorem fieldNames_real_iff_shared : Shared.snapshot.Acyclic 0 ∧
    ReflTransGen Shared.snapshot.Contains 0 3 ∧
      ¬ ∀ m, Shared.snapshot.Upward 0 3 m →
        Shared.heap.walk? 0 ((ofRoot Shared.snapshot [] 0).fieldNames m) = some m := by
  have hbelow : ReflTransGen Shared.snapshot.Contains 0 3 := by
    have hfirst : 1 ∈ Shared.snapshot.records (Shared.snapshot.walkedFields 0) := by decide +kernel
    have hsecond : 3 ∈ Shared.snapshot.records (Shared.snapshot.walkedFields 1) := by decide +kernel
    exact (ReflTransGen.single hfirst).tail hsecond
  refine ⟨Shared.acyclic, hbelow, ?_⟩
  intro hpaths
  have hiff := (fieldNames_real_iff [] Shared.acyclic hbelow).2.2.1
  obtain h | ⟨holder, name, hlast, hfirst, hedge⟩ := hiff.mp hpaths 3 .refl
  · cases h
  · rw [show lastHolder? (Shared.snapshot.heldModules 0) 3 = some 2 by decide +kernel] at hlast
    rw [show firstName? (Shared.snapshot.heldModules 0) 3 = some "x" by decide +kernel] at hfirst
    cases hlast
    cases hfirst
    rw [show Shared.snapshot.heap.edge? 2 "x" = some (.ref 4) by decide +kernel] at hedge
    cases hedge

end ModuleTree

end ModelGraph
