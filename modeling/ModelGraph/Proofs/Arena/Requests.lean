import ModelGraph.Proofs.Arena.Resolving
import ModelGraph.Proofs.Machine.Standard

/-!
# Requests keep the arena well formed

A machine is asked for one thing after another: packages, types, calls, traces, states to restore and
pickles to load. Each request is well behaved if what it comes with is on the heap at its time. So every
machine that a sequence of requests leads to is well formed, whatever scripts and bytes there are and
whichever requests fail.
-/

namespace ModelGraph

open Exec Enclave Heap

/-! ## The standard heap -/

namespace Enclave.Closed

variable {c : Enclave} {h : Heap} {γ : Type}

theorem foldl {f : Heap → γ → Heap} (hf : ∀ {h : Heap}, c.Closed h → ∀ i, c.Evolves h (f h i))
    (hh : c.Closed h) (items : List γ) : c.Evolves h (items.foldl f h) := by
  induction items generalizing h with
  | nil => exact hh.evolves
  | cons i rest ih => exact (hf hh i).trans (ih (hf hh i).closed)

variable (hh : c.Closed h)
include hh

theorem enter {o : Object} (ho : c.Within h o) (path : List String) : c.Evolves h (h.enter o path) := by
  have hpush := hh.push ho
  have hmade : c.IsA o.kind (h.push o) h.size := ⟨Heap.kind?_push h o, hh.not_inside_size⟩
  exact hpush.trans (hpush.closed.bind hpush.closed.spares_root path hmade.has)

theorem register {kind : ClassKind} {name : String} {fields : Fields}
    (hparts : c.HasAll h
      (Object.class ⟨(splitQualified name).1, (splitQualified name).2, kind, fields⟩).parts) :
    c.Evolves h (h.register kind name fields) := by
  rw [Heap.register_eq]
  exact hh.enter (.of_parts hparts rfl) _

theorem registerFunction (f : String × Primitive) : c.Evolves h (h.registerFunction f) := by
  rw [Heap.registerFunction_eq]
  exact hh.enter (.of_nil rfl rfl) _

/-- The methods of a class are on the heap before the class is. -/
theorem registerMethods (k : String × Constructor) (methods : List (String × Primitive)) :
    c.Evolves h (h.registerMethods k methods) := by
  have hmethods := foldl (fun hh m => hh.push
    (.of_nil (o := .function ⟨k.1, m.1, .native m.2, true⟩) rfl rfl)) hh methods
  refine hmethods.trans (hmethods.closed.register fun v hv => ?_)
  obtain ⟨e, he, rfl⟩ := List.mem_map.mp ((List.mem_append.mp hv).resolve_left List.not_mem_nil)
  obtain ⟨i, hi, rfl⟩ := List.mem_mapIdx.mp (OrderedMap.mem_entries_ofList he)
  refine ⟨?_, fun hin => absurd (hh.stands hin).1 (by omega)⟩
  rw [Heap.size_foldl_push]
  omega

end Enclave.Closed

theorem Heap.closed_standard : standard.Closed := by
  have hroot : empty.Closed (push {} (.namespace {})) := by
    refine closed_empty.mpr ⟨fun {id o} ho => ?_, rfl⟩
    rw [get?_push] at ho
    split_ifs at ho <;> cases ho
    exact within_empty.mp (.of_nil rfl rfl)
  have hregister {h : Heap} {kind : ClassKind} (name : String)
      (hkind : ∀ arguments, kind = .generic arguments → arguments = []) (hh : empty.Closed h) :
      empty.Closed (h.register kind name) := by
    refine (hh.register ?_).closed
    cases kind with
    | generic arguments =>
        obtain rfl := hkind arguments rfl
        exact hasAll_nil
    | _ => exact hasAll_nil
  exact closed_empty.mp (standard_rec hroot hregister (fun hh => (hh.registerMethods _ _).closed)
    fun f hh => (hh.registerFunction f).closed)

theorem Machine.wellFormed_standard (d : Diagnostics) : (standard.withDiagnostics d).WellFormed where
  closed := closed_standard
  packages _ he := absurd he List.not_mem_nil

/-! ## Requests -/

/-- What is asked of a machine, with all that it comes with. A load has a resolver of outside references
with a table of its own, and bytes that it stands somewhere in. -/
inductive Request : Type 1 where
  | addSource (path source : String)
  | operation (o : Operation)
  | setState (target state : Value)
  | load {τ : Type} (persistent : Value → Restore τ Value) (table : τ) (cursor : Pickle.Cursor)

namespace Request

/-- The machine that a request leaves, whether it succeeds or fails. -/
def perform (m : Machine) : Request → Machine
  | addSource path source => m.addSource path source
  | operation o => (o.run.outcome m).2
  | setState target state => ((Exec.setState target state).outcome m).2
  | load persistent table cursor => ((Pickle.loadWith persistent).outcome cursor ⟨m, table⟩).2.machine

/-- The machine that a request leaves under a host. -/
def performUnder (host : Host) (m : Machine) : Request → Machine
  | addSource path source => m.addSource path source
  | operation o => ((o.runWith host).outcome m).2
  | setState target state => ((host.setState target state).outcome m).2
  | load persistent table cursor => ((Pickle.loadUnder host persistent).outcome cursor ⟨m, table⟩).2.machine

theorem performUnder_standard (m : Machine) (r : Request) : r.performUnder .standard m = r.perform m := by
  cases r with
  | addSource path source => rfl
  | operation o => rw [performUnder, o.runWith_standard, perform]
  | setState target state => rfl
  | load persistent table cursor => rw [performUnder, Pickle.loadUnder_standard, perform]

/-- What a request comes with is on the heap, and a resolver keeps to what is there. -/
def Valid (m : Machine) : Request → Prop
  | addSource _ _ => True
  | operation o => o.Valid m.heap
  | setState target state => m.heap.Has target ∧ m.heap.Has state
  | load persistent table _ => ∃ rule : Pickle.TableRule _, rule.Answers persistent ∧ rule.holds m.heap table

theorem performUnder_wellFormed {host host' : Host} (hosts : AlikeHosts empty host host') {m : Machine}
    (hm : m.WellFormed) {r : Request} (hr : r.Valid m) :
    (r.performUnder host m).WellFormed ∧ m.heap.KeepsKinds (r.performUnder host m).heap ∧
      r.performUnder host' m = r.performUnder host m := by
  have hempty := wellFormed_empty.mpr hm
  cases r with
  | addSource path source => exact ⟨⟨hm.closed, hm.packages⟩, .refl _, rfl⟩
  | operation o =>
      obtain ⟨heq, hwell, hkeeps, -⟩ := Operation.alike hosts hr hempty rfl
      exact ⟨wellFormed_empty.mp hwell, hkeeps, congrArg Prod.snd heq⟩
  | setState target state =>
      have hstate : empty.Has m.heap state := has_empty ▸ hr.2
      obtain ⟨heq, hwell, hkeeps, -⟩ := hosts.setState (outside_empty target) hstate hempty rfl
      exact ⟨wellFormed_empty.mp hwell, hkeeps, congrArg Prod.snd heq⟩
  | load persistent table cursor =>
      obtain ⟨rule, hanswers, htable⟩ := hr
      have hadmits : empty.Admits rule m.heap ⟨m, table⟩ := ⟨hempty, rfl, htable⟩
      obtain ⟨heq, hleaves, -⟩ :=
        Pickle.Parallel.loadUnder hosts (answers_empty.mpr hanswers) (k := cursor) hadmits
      exact ⟨wellFormed_empty.mp hleaves.wellFormed, hleaves.keeps, congrArg (·.2.machine) heq⟩

/-- A request leaves a well-formed machine with all objects, and comes upon no scope that is not in
order. -/
theorem perform_wellFormed {m : Machine} (hm : m.WellFormed) {r : Request} (hr : r.Valid m) :
    (r.perform m).WellFormed ∧ m.heap.KeepsKinds (r.perform m).heap ∧
      r.performUnder .standardChecked m = r.perform m := by
  rw [← performUnder_standard]
  exact performUnder_wellFormed AlikeHosts.standard hm hr

end Request

namespace Machine

/-- The machine after some requests, one after another. A failure ends a request, not the run. -/
def served (m : Machine) (requests : List Request) : Machine := requests.foldl Request.perform m

/-- The same, with every scope looked at before it is used. -/
def servedChecked (m : Machine) (requests : List Request) : Machine :=
  requests.foldl (Request.performUnder .standardChecked) m

/-- Every request is valid on the machine that those before it lead to. -/
def Accepts (m : Machine) (requests : List Request) : Prop :=
  ∀ before r after, requests = before ++ r :: after → r.Valid (m.served before)

variable {m : Machine}

theorem accepts_nil : m.Accepts [] := by
  intro before r after heq
  simp at heq

theorem accepts_cons_iff {r : Request} {rest : List Request} :
    m.Accepts (r :: rest) ↔ r.Valid m ∧ (r.perform m).Accepts rest := by
  constructor
  · intro h
    refine ⟨h [] r rest rfl, fun before r' after heq => h (r :: before) r' after ?_⟩
    rw [heq, List.cons_append]
  · rintro ⟨hr, hrest⟩ before r' after heq
    cases before with
    | nil =>
        cases heq
        exact hr
    | cons b before =>
        obtain ⟨rfl, rfl⟩ := List.cons.inj heq
        exact hrest before r' after rfl

theorem served_append (earlier later : List Request) :
    m.served (earlier ++ later) = (m.served earlier).served later :=
  List.foldl_append

theorem accepts_append_iff {earlier later : List Request} :
    m.Accepts (earlier ++ later) ↔ m.Accepts earlier ∧ (m.served earlier).Accepts later := by
  induction earlier generalizing m with
  | nil => exact ⟨fun h => ⟨accepts_nil, h⟩, fun h => h.2⟩
  | cons r rest ih =>
      rw [List.cons_append, accepts_cons_iff, accepts_cons_iff, ih, and_assoc, served, served,
        List.foldl_cons]

theorem WellFormed.has_root (hm : m.WellFormed) : m.heap.Has (.ref 0) := lt_size_of_kind? hm.closed.root

theorem WellFormed.served (hm : m.WellFormed) {requests : List Request} (h : m.Accepts requests) :
    (m.served requests).WellFormed ∧ m.heap.KeepsKinds (m.served requests).heap ∧
      m.servedChecked requests = m.served requests := by
  induction requests generalizing m with
  | nil =>
      rw [servedChecked, Machine.served, List.foldl_nil, List.foldl_nil]
      exact ⟨hm, .refl _, rfl⟩
  | cons r rest ih =>
      obtain ⟨hr, hrest⟩ := accepts_cons_iff.mp h
      obtain ⟨hwell, hkeeps, hchecked⟩ := Request.perform_wellFormed hm hr
      obtain ⟨hwell', hkeeps', hchecked'⟩ := ih hwell hrest
      refine ⟨hwell', hkeeps.trans hkeeps', ?_⟩
      rw [servedChecked, List.foldl_cons, hchecked]
      exact hchecked'

/-- Whatever is asked of a new machine with values that are on its heap at the time, failing or not, at
every point of the sequence: no object is taken away later or changes its kind; all that objects and the
table of packages refer to is on the heap; the scope of every function is a chain of objects with
variables to the root; and nothing has been run in a scope that is not such a chain. -/
theorem served_arena (d : Diagnostics) {earlier later : List Request}
    (h : (standard.withDiagnostics d).Accepts (earlier ++ later)) :
    let start := standard.withDiagnostics d
    let heap := (start.served earlier).heap
    let heap' := (start.served (earlier ++ later)).heap
    (heap.size ≤ heap'.size ∧ ∀ id kind, heap.kind? id = some kind → heap'.kind? id = some kind) ∧
    (∀ id o, heap.get? id = some o → (∀ target, .ref target ∈ o.parts → target < heap.size) ∧
      ∀ scope, o.scope? = some scope → heap.isScope scope = true) ∧
    (∀ e ∈ (start.served earlier).packages.entries, e.2 < heap.size) ∧
    start.servedChecked earlier = start.served earlier := by
  obtain ⟨hearlier, hlater⟩ := accepts_append_iff.mp h
  obtain ⟨hwell, -, hchecked⟩ := (wellFormed_standard d).served hearlier
  obtain ⟨-, hkeeps, -⟩ := hwell.served hlater
  rw [← served_append] at hkeeps
  refine ⟨⟨hkeeps.size_le, hkeeps⟩, fun id o ho => ?_, fun e he => ?_, hchecked⟩
  · have hwithin := hwell.closed.within ho
    exact ⟨fun target htarget => hwithin.parts _ htarget, hwithin.scope⟩
  · exact lt_size_of_kind? (hwell.packages e he)

end Machine

/-! A package whose source breaks off, and what may still be asked once its load has failed. -/

namespace Mixed

def earlier : List Request := [.addSource (Host.packageFile "m") "x = (", .operation (.package "m")]

/-- A pickle that refers to the outside by an empty tuple, in a bundle without entries. -/
def load : Request := .load (Bundle.resolve {} "data/") {} (.start [0x29, 0x51, 0x2e])

/-- A state for the root, the pickle, and a call of the root, which is no function. -/
def later : List Request := [.setState (.ref 0) (.bool true), load, .operation (.call (.ref 0) [.ref 0])]

theorem accepts (d : Diagnostics) : (Machine.standard.withDiagnostics d).Accepts (earlier ++ later) := by
  have hlater {m : Machine} (hm : m.WellFormed) : m.Accepts later := by
    have hstate : (Request.setState (.ref 0) (.bool true)).Valid m := ⟨hm.has_root, trivial⟩
    obtain ⟨hm₁, -, -⟩ := Request.perform_wellFormed hm hstate
    have hload {m : Machine} : load.Valid m :=
      ⟨Bundle.tableRule empty, answers_empty.mp (Bundle.answers_resolve {} "data/"), hasAll_nil⟩
    obtain ⟨hm₂, -, -⟩ := Request.perform_wellFormed hm₁ hload
    have hroot := hm₂.has_root
    refine Machine.accepts_cons_iff.mpr ⟨hstate, Machine.accepts_cons_iff.mpr ⟨hload, ?_⟩⟩
    exact Machine.accepts_cons_iff.mpr ⟨⟨hroot, List.forall_mem_singleton.mpr hroot⟩, Machine.accepts_nil⟩
  have hearlier {m : Machine} : m.Accepts earlier :=
    Machine.accepts_cons_iff.mpr ⟨trivial, Machine.accepts_cons_iff.mpr ⟨trivial, Machine.accepts_nil⟩⟩
  exact Machine.accepts_append_iff.mpr
    ⟨hearlier, hlater ((Machine.wellFormed_standard d).served hearlier).1⟩

end Mixed

theorem Machine.served_arena_mixed :
    let start := standard.withDiagnostics .standard
    let heap := (start.served Mixed.earlier).heap
    let heap' := (start.served (Mixed.earlier ++ Mixed.later)).heap
    (∃ e m', (Exec.package "m").outcome (start.addSource (Host.packageFile "m") "x = (") = (.error e, m')) ∧
    heap.size ≤ heap'.size ∧ heap'.kind? 0 = some .namespace ∧
    start.servedChecked Mixed.earlier = start.served Mixed.earlier := by
  obtain ⟨fault, hparse⟩ := Unfinished.exists_fault
  obtain ⟨m', herror⟩ := package_of_parse_error (m := (standard.withDiagnostics .standard).addSource
    (Host.packageFile "m") "x = (") "m" rfl (OrderedMap.get?_insert_self _ _ _) hparse
  obtain ⟨⟨hsize, hkinds⟩, -, -, hchecked⟩ := served_arena .standard (Mixed.accepts .standard)
  have hroot := ((wellFormed_standard .standard).served
    (accepts_append_iff.mp (Mixed.accepts .standard)).1).1.closed.root
  exact ⟨⟨_, m', herror⟩, hsize, hkinds 0 _ hroot, hchecked⟩

end ModelGraph
