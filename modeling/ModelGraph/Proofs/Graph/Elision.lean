import ModelGraph.Graph.OfScript
import ModelGraph.Proofs.Graph.Walk
import ModelGraph.Proofs.Object.Heap

/-!
# Calls that stand for modules

A call hides a module if the first of its known tensors that a module holds is that module's, the
others are that module's or constants, and there are as many of them as the module has tensors to use.
The tensors are counted, not compared: a constant makes up for a tensor that the call does not use.
-/

namespace ModelGraph

open Relation

/-! ## Claims -/

/-- The steps of a loop, taken one after another, and what its results are labelled with. -/
theorem run_mapM {σ α β γ : Type} {f : α → StateM σ β} {step : σ → α → σ} {name : α → γ}
    {label : β → γ}
    (h : ∀ a state, ((f a).run state).2 = step state a ∧ label ((f a).run state).1 = name a)
    (items : List α) (state : σ) :
    ((items.mapM f).run state).2 = items.foldl step state ∧
      ((items.mapM f).run state).1.map label = items.map name := by
  induction items generalizing state with
  | nil => exact ⟨rfl, rfl⟩
  | cons a rest ih =>
      rw [List.mapM_cons, List.foldl_cons, List.map_cons, ← (h a state).1, ← (h a state).2]
      obtain ⟨hstate, hlabels⟩ := ih ((f a).run state).2
      exact ⟨hstate, congrArg (_ :: ·) hlabels⟩

namespace ModuleTree

variable {t : ModuleTree} {s : Snapshot} {call : TracedCall} {module : Nat}

/-- The module that holds the tensor that a value stands for. -/
def owner? (t : ModuleTree) (v : TracedValue) : Option Nat :=
  (t.known.get? v.name).bind fun known => t.owners.get? known.object

def knownValues (t : ModuleTree) (call : TracedCall) : List TracedValue :=
  call.consumed.filter fun v => t.known.contains v.name

/-- A value that speaks for a module, or against none. -/
def Fits (t : ModuleTree) (module : Nat) (v : TracedValue) : Prop :=
  t.owner? v = some module ∨ v.name.startsWith constantStem

/-- A call stands for a module: its known tensors are that module's, or constants, and as many as the
module has tensors to use. -/
structure StandsFor (t : ModuleTree) (s : Snapshot) (call : TracedCall) (module : Nat) : Prop where
  first : (t.knownValues call).findSome? t.owner? = some module
  fits : ∀ v ∈ t.knownValues call, t.Fits module v
  count : (t.knownValues call).length = claimable s module

def readValue (t : ModuleTree) (c : Claim) (v : TracedValue) : Claim :=
  match c.fits, t.known.get? v.name with
  | true, some _ =>
    match (t.owner? v).filter fun owner => c.owner?.all (· = owner) with
    | some owner => { c with owner? := some owner, count := c.count + 1 }
    | none =>
      if v.name.startsWith constantStem then { c with count := c.count + 1 }
      else { c with fits := false }
  | _, _ => c

variable {c : Claim} {v : TracedValue}

theorem run_claimValue (t : ModuleTree) (v : TracedValue) (c : Claim) :
    ((t.claimValue v).run c).2 = t.readValue c v ∧ ((t.claimValue v).run c).1.name = v.name := by
  unfold claimValue readValue owner?
  simp only [StateT.run_bind, StateT.run_get, pure_bind]
  cases hfits : c.fits with
  | false => exact ⟨rfl, rfl⟩
  | true =>
      cases hknown : t.known.get? v.name with
      | none => exact ⟨rfl, rfl⟩
      | some known =>
          simp only [Option.bind_some]
          generalize (t.owners.get? known.object).filter _ = claimed
          cases claimed with
          | some owner => exact ⟨rfl, rfl⟩
          | none => split_ifs <;> exact ⟨rfl, rfl⟩

theorem run_claimValues (t : ModuleTree) (inputs : List (List TracedValue)) (c : Claim) :
    ((inputs.mapM (m := StateM Claim) (·.mapM t.claimValue)).run c).2 =
        inputs.flatten.foldl t.readValue c ∧
      ((inputs.mapM (m := StateM Claim) (·.mapM t.claimValue)).run c).1.map (·.map (·.name)) =
        inputs.map (·.map (·.name)) := by
  rw [List.foldl_flatten]
  exact run_mapM (fun values c => run_mapM (fun v c => t.run_claimValue v c) values c) inputs c

/-! ## What a claim comes to -/

theorem foldl_readValue_of_unfit (h : c.fits = false) (vs : List TracedValue) :
    vs.foldl t.readValue c = c := by
  induction vs with
  | nil => rfl
  | cons v rest ih =>
      have hsame : t.readValue c v = c := by
        unfold readValue
        rw [h]
      rw [List.foldl_cons, hsame, ih]

theorem readValue_of_unknown (h : t.known.get? v.name = none) : t.readValue c v = c := by
  unfold readValue
  rw [h]
  cases c.fits <;> rfl

/-- What a known value does to a claim that fits so far. -/
inductive Reads (t : ModuleTree) (c : Claim) (v : TracedValue) : Claim → Prop
  | own {owner : Nat} (howner : t.owner? v = some owner)
      (hsame : ∀ claimed, c.owner? = some claimed → claimed = owner) :
      Reads t c v { c with owner? := some owner, count := c.count + 1 }
  | constant (hother : ∀ owner, t.owner? v = some owner → ∃ claimed ≠ owner, c.owner? = some claimed)
      (hconstant : v.name.startsWith constantStem) : Reads t c v { c with count := c.count + 1 }
  | stranger (hother : ∀ owner, t.owner? v = some owner → ∃ claimed ≠ owner, c.owner? = some claimed)
      (hconstant : ¬ v.name.startsWith constantStem) : Reads t c v { c with fits := false }

theorem reads_readValue (hfits : c.fits = true) (hknown : t.known.contains v.name) :
    t.Reads c v (t.readValue c v) := by
  obtain ⟨known, hknown⟩ := Option.isSome_iff_exists.mp hknown
  obtain ⟨owner?, count, fits⟩ := c
  obtain rfl : fits = true := hfits
  unfold readValue
  rw [hknown]
  dsimp only
  split
  · next owner hclaimed =>
    obtain ⟨howner, hall⟩ := Option.filter_eq_some_iff.mp hclaimed
    apply Reads.own howner
    intro claimed hclaimed
    rw [show owner? = some claimed from hclaimed] at hall
    exact of_decide_eq_true hall
  · next hclaimed =>
    have hother : ∀ owner, t.owner? v = some owner → ∃ claimed ≠ owner, owner? = some claimed := by
      intro owner howner
      have hall := Option.filter_eq_none_iff.mp hclaimed owner howner
      cases owner? with
      | none => simp at hall
      | some claimed => exact ⟨claimed, by simpa using hall, rfl⟩
    split_ifs with hconstant
    · exact .constant hother hconstant
    · exact .stranger hother hconstant

/-- A value that is not the first to have an owner leaves the first one as it is. -/
theorem or_findSome?_cons {rest : List TracedValue}
    (hother : ∀ owner, t.owner? v = some owner → ∃ claimed ≠ owner, c.owner? = some claimed) :
    c.owner?.or ((v :: rest).findSome? t.owner?) = c.owner?.or (rest.findSome? t.owner?) := by
  cases hv : t.owner? v with
  | none => rw [List.findSome?_cons, hv]
  | some owner =>
      obtain ⟨claimed, -, hclaimed⟩ := hother owner hv
      rw [hclaimed, Option.some_or, Option.some_or]

theorem foldl_readValue_filter (vs : List TracedValue) (c : Claim) :
    (vs.filter fun v => t.known.contains v.name).foldl t.readValue c = vs.foldl t.readValue c := by
  rw [List.foldl_filter]
  congr 1
  funext c v
  by_cases hknown : t.known.contains v.name
  · rw [if_pos hknown]
  · rw [if_neg hknown, readValue_of_unknown (by simpa [OrderedMap.contains] using hknown)]

/-- A claim that fits so far still fits, and is for a module, if the first owner is that module and
all values fit it. -/
theorem foldl_readValue_iff (module : Nat) (hfits : c.fits = true) (vs : List TracedValue)
    (hknown : ∀ v ∈ vs, t.known.contains v.name) :
    (vs.foldl t.readValue c).fits = true ∧ (vs.foldl t.readValue c).owner? = some module ↔
      c.owner?.or (vs.findSome? t.owner?) = some module ∧ ∀ v ∈ vs, t.Fits module v := by
  induction vs generalizing c with
  | nil => simp [hfits]
  | cons v rest ih =>
      rw [List.forall_mem_cons] at hknown
      rw [List.foldl_cons, List.forall_mem_cons]
      have hread := reads_readValue hfits hknown.1
      generalize t.readValue c v = c' at hread
      cases hread with
      | @own owner howner hsame =>
          have hor : c.owner?.or (some owner) = some owner := by
            cases hclaimed : c.owner? with
            | none => rfl
            | some claimed => rw [hsame claimed hclaimed, Option.some_or]
          rw [ih (c := { c with owner? := some owner, count := c.count + 1 }) hfits hknown.2,
            List.findSome?_cons, howner, hor, Option.some_or]
          apply and_congr_right
          intro howner'
          exact (and_iff_right (.inl (howner.trans howner'))).symm
      | constant hother hconstant =>
          rw [ih (c := { c with count := c.count + 1 }) hfits hknown.2, or_findSome?_cons hother]
          apply and_congr_right
          intro _
          exact (and_iff_right (.inr hconstant)).symm
      | stranger hother hconstant =>
          rw [foldl_readValue_of_unfit rfl, or_findSome?_cons hother]
          apply iff_of_false
          · rintro ⟨hfits, -⟩
            cases hfits
          · rintro ⟨hmodule, hv | hv, -⟩
            · obtain ⟨claimed, hne, hclaimed⟩ := hother module hv
              rw [hclaimed, Option.some_or] at hmodule
              exact hne (Option.some.inj hmodule)
            · exact hconstant hv

theorem count_foldl_readValue (hfits : c.fits = true) (vs : List TracedValue)
    (hknown : ∀ v ∈ vs, t.known.contains v.name) (h : (vs.foldl t.readValue c).fits = true) :
    (vs.foldl t.readValue c).count = c.count + vs.length := by
  induction vs generalizing c with
  | nil => rfl
  | cons v rest ih =>
      rw [List.forall_mem_cons] at hknown
      rw [List.foldl_cons] at h ⊢
      have hread := reads_readValue hfits hknown.1
      generalize t.readValue c v = c' at h hread
      rw [List.length_cons]
      cases hread with
      | @own owner =>
          rw [ih (c := { c with owner? := some owner, count := c.count + 1 }) hfits hknown.2 h]
          exact Nat.add_right_comm _ _ _
      | constant =>
          rw [ih (c := { c with count := c.count + 1 }) hfits hknown.2 h]
          exact Nat.add_right_comm _ _ _
      | stranger =>
          rw [foldl_readValue_of_unfit rfl] at h
          cases h

/-- What a call has shown after all its values are read. -/
def verdict (t : ModuleTree) (call : TracedCall) : Claim := call.consumed.foldl t.readValue {}

theorem claim_eq (t : ModuleTree) (s : Snapshot) (call : TracedCall) :
    (t.claim s call).2 = ((t.verdict call).owner?.filter fun owner =>
      (t.verdict call).fits && claimable s owner == (t.verdict call).count) := by
  have hverdict : ((call.inputs.mapM (m := StateM Claim) (·.mapM t.claimValue)).run {}).2 =
      t.verdict call := (t.run_claimValues call.inputs {}).1
  unfold claim
  rw [← hverdict]
  split
  next arguments c hrun =>
    rw [hrun]
    split <;> next h => exact h.symm

theorem verdict_eq (t : ModuleTree) (call : TracedCall) :
    t.verdict call = (t.knownValues call).foldl t.readValue {} :=
  (foldl_readValue_filter call.consumed {}).symm

/-- The module that a call claims is the one it stands for. -/
theorem claim_eq_some_iff : (t.claim s call).2 = some module ↔ t.StandsFor s call module := by
  have hknown : ∀ v ∈ t.knownValues call, t.known.contains v.name :=
    fun v hv => (List.mem_filter.mp hv).2
  have hfit := foldl_readValue_iff (t := t) (c := {}) module rfl (t.knownValues call) hknown
  have hcount := count_foldl_readValue (t := t) (c := {}) rfl (t.knownValues call) hknown
  rw [← verdict_eq, Option.none_or] at hfit
  rw [← verdict_eq, Nat.zero_add] at hcount
  rw [claim_eq, Option.filter_eq_some_iff, Bool.and_eq_true, beq_iff_eq]
  constructor
  · rintro ⟨howner, hfits, hclaimable⟩
    obtain ⟨hfirst, hall⟩ := hfit.mp ⟨hfits, howner⟩
    exact ⟨hfirst, hall, (hcount hfits).symm.trans hclaimable.symm⟩
  · intro h
    obtain ⟨hfits, howner⟩ := hfit.mpr ⟨h.first, h.fits⟩
    exact ⟨howner, hfits, h.count.symm.trans (hcount hfits).symm⟩

@[simp] theorem name_fill (t : ModuleTree) (a : Argument) : (t.fill a).name = a.name := by
  unfold fill
  split <;> rfl

theorem names_claim (t : ModuleTree) (s : Snapshot) (call : TracedCall) :
    (t.claim s call).1.map (·.map (·.name)) = call.inputs.map (·.map (·.name)) := by
  rw [← (t.run_claimValues call.inputs {}).2]
  unfold claim
  split
  next arguments c hrun =>
    rw [hrun]
    split
    · simp [Function.comp_def]
    · rfl

/-! ## Modules that are left -/

/-- The modules that a module leads to by fields whose names do not begin with two underscores. -/
def nextModules (s : Snapshot) (module : Nat) : List Nat :=
  s.records ((s.moduleFields module).filter fun f => !f.1.startsWith "__")

/-- A module with tensor fields that a root leads to. -/
def HoldsTensors (s : Snapshot) (root module : Nat) : Prop :=
  ReflTransGen (fun a b => b ∈ nextModules s a) root module ∧ s.parameters module ≠ []

theorem lt_size_of_mem_records {fields : List (String × Value)} {id : Nat}
    (h : id ∈ s.records fields) : id < s.heap.size := by
  obtain ⟨⟨name, v⟩, -, hid⟩ := List.mem_filterMap.mp h
  by_cases hrecord : s.heap.isRecord v
  · rw [if_pos hrecord] at hid
    obtain ⟨hinstance, -⟩ := Bool.and_eq_true_iff.mp hrecord
    cases hobject : s.heap.object? v with
    | none => simp [Heap.instance?, hobject] at hinstance
    | some o =>
        obtain ⟨number, rfl, hlt⟩ := Heap.exists_ref_of_object hobject
        cases hid
        exact hlt
  · rw [if_neg hrecord] at hid
    cases hid

theorem visits_nextModules (s : Snapshot) (root : Nat) :
    Visits (nextModules s) [root] [root]
      (depthFirst (nextModules s) (s.heap.size + 1) [root] [root]) :=
  visits_depthFirst (fun _ _ h => lt_size_of_mem_records h) (remainingVisits_root s.heap.size root)

theorem nodup_remaining (s : Snapshot) (root : Nat) (claimed : List Nat) :
    (remaining s root claimed).Nodup :=
  List.Nodup.filter _ (visits_nextModules s root).nodup_of_root

theorem mem_remaining {root : Nat} {claimed : List Nat} :
    module ∈ remaining s root claimed ↔ HoldsTensors s root module ∧ module ∉ claimed := by
  unfold HoldsTensors
  rw [← (visits_nextModules s root).mem_iff, and_assoc]
  apply List.mem_filter.trans
  apply and_congr_right
  intro _
  simp

/-- The modules below a root, with what they hold and with constants. -/
def ofRoot (s : Snapshot) (constants : List Value) (root : Nat) : ModuleTree :=
  (ofConstants s constants).addBelow s root

/-- The modules with nodes of their own, next to a trace. -/
def shownModules (s : Snapshot) (constants : List Value) (root : Nat) (trace : Trace) : List Nat :=
  remaining s root ((trace.calls.map ((ofRoot s constants root).callNode s)).filterMap (·.2))

theorem mem_shownModules {constants : List Value} {root : Nat} {trace : Trace} :
    module ∈ shownModules s constants root trace ↔ HoldsTensors s root module ∧
      ∀ call ∈ trace.calls, ¬ (ofRoot s constants root).StandsFor s call module := by
  unfold shownModules
  rw [mem_remaining, List.filterMap_map, List.mem_filterMap]
  push Not
  apply and_congr_right
  intro _
  apply forall₂_congr
  intro call _
  exact not_congr claim_eq_some_iff

/-- The nodes of a scripted module are those of the calls, then one for each module with tensors that
no call stands for. -/
theorem nodes_ofScript (s : Snapshot) (constants : List Value) (root : Nat) (trace : Trace) :
    (Graph.ofScript s constants (.ref root) (some trace)).nodes =
      trace.calls.map (fun call => ((ofRoot s constants root).callNode s call).1) ++
        (shownModules s constants root trace).map ((ofRoot s constants root).moduleNode s) ∧
    (shownModules s constants root trace).Nodup ∧
    ∀ module, module ∈ shownModules s constants root trace ↔ HoldsTensors s root module ∧
      ∀ call ∈ trace.calls, ¬ (ofRoot s constants root).StandsFor s call module := by
  refine ⟨?_, nodup_remaining _ _ _, fun module => mem_shownModules⟩
  unfold Graph.ofScript
  simp only [Value.ref?, Option.map_some, Option.getD_some, List.map_map]
  rfl

namespace Layer

def tensor (name : String) : Object :=
  .instance { module := "torch", name := "Tensor", tag := { name? := some name, count := 1 } }

/-- A model with one layer, whose weight and bias are used once, and a constant. -/
def heap : Heap where
  objects := #[.instance { module := "m", name := "Net", fields := ⟨[("fc", .ref 1)]⟩ },
    .instance { module := "m", name := "Linear",
                fields := ⟨[("weight", .ref 2), ("bias", .ref 3)]⟩ },
    tensor "1", tensor "2", tensor "CONSTANTS.c0"]

def snapshot : Snapshot := { heap, catalog := .empty }

def linear (names : List String) : TracedCall :=
  { name := "torch.linear", schema := default, inputs := names.map fun name => [⟨name, 0⟩],
    attributes := [], outputs := [] }

def trace (names : List String) : Trace := { inputs := [], outputs := [], calls := [linear names] }

end Layer

/-- The constant stands in for the bias, which no node shows then. -/
example : shownModules Layer.snapshot [.ref 4] 0 (Layer.trace ["x", "1", "CONSTANTS.c0"]) = [] := by
  decide +kernel

end ModuleTree

end ModelGraph
