import ModelGraph.Proofs.Machine.Packages

/-!
# Sources run at most once

To count how often the source of a package is run, each run is noted. Where the machine enters the
globals of a package in its table of packages, right before it runs the source, a noting machine adds
one more entry to the table, whether or not there is one for that package; the entries of a name are
the runs of its source. Noting turns out to change nothing, so no name ever gets two entries.
-/

namespace ModelGraph

open Exec

/-! ## Noting runs -/

/-- Notes that the source of a package is about to run: one more entry, whatever the table holds. -/
def Exec.noteRun (name : String) (id : Nat) : Exec Unit :=
  modify fun m => { m with packages := ⟨m.packages.entries ++ [(name, id)]⟩ }

namespace Host

/-- Loads a package at its first use, with another way to enter its globals in the table. -/
def loadPackageWith (enter : String → Nat → Exec Unit) (host : Host) (name : String) :
    Exec (Option Value) := do
  let m ← get
  match m.packages.get? name with
  | some id => return some (.ref id)
  | none =>
    match m.sources.get? (packageFile name) with
    | none => return none
    | some source =>
      let id ← packageNamespace name
      modifyHeap (·.modify id (asGlobals name))
      enter name id
      host.runPackage name source id

theorem loadPackageWith_register (host : Host) (name : String) :
    host.loadPackageWith register name = host.loadPackage name := rfl

/-- The host for a depth of nesting, with runs noted. -/
def ofDepthNoting : (depth : Nat) → Host
  | 0 => exhausted
  | depth + 1 =>
    { (ofDepthNoting depth).step with package := (ofDepthNoting depth).loadPackageWith noteRun }

/-- The host that every load uses, with runs noted. -/
def noting : Host := ofDepthNoting maxDepth

end Host

namespace Machine

/-- How often a machine that notes runs has run the source of a package. -/
def runs (m : Machine) (name : String) : Nat := m.packages.keys.count name

/-- The machine after some operations, as `Machine.after` gives it, with runs noted. -/
def afterNoting (m : Machine) (operations : List Operation) : Machine :=
  operations.foldl (fun m o => ((o.runWith .noting).outcome m).2) m

/-- No package has two entries. -/
def Distinct (m : Machine) : Prop := m.packages.keys.Nodup

end Machine

/-! ## Noting changes nothing -/

/-- On a machine where no package has two entries the actions have the same outcome, and leave such a
machine. -/
def Agrees ⦃α : Type⦄ (x y : Exec α) : Prop :=
  ∀ ⦃m : Machine⦄, m.Distinct → y.outcome m = x.outcome m ∧ (x.outcome m).2.Distinct

namespace Agrees

theorem congruence : PackageCongruence Agrees where
  loadsNothing hx m hm := by
    refine ⟨rfl, ?_⟩
    rw [Machine.Distinct, hx m]
    exact hm
  bind {_ _ x y f g} hx hf m hm := by
    obtain ⟨heq, hdistinct⟩ := hx hm
    rw [outcome_bind, outcome_bind, heq]
    rcases hxm : x.outcome m with ⟨e | a, m'⟩ <;> rw [hxm] at hdistinct
    · exact ⟨rfl, hdistinct⟩
    · exact hf a hdistinct
  attempt hx m hm := by
    rw [outcome_attempt, outcome_attempt, (hx hm).1]
    exact ⟨rfl, (hx hm).2⟩

/-- The first entry of a name may be made in either way. -/
theorem register {m : Machine} {name : String} (hnew : m.packages.get? name = none) (id : Nat) :
    (Exec.noteRun name id).outcome m = (Exec.register name id).outcome m ∧
      (m.Distinct → ((Exec.register name id).outcome m).2.Distinct) := by
  have hinsert := OrderedMap.insert_of_get? hnew id
  constructor
  · change (Except.ok (), { m with packages := _ }) = (Except.ok (), { m with packages := _ })
    rw [hinsert]
  · intro hm
    change (m.packages.insert name id).keys.Nodup
    rw [OrderedMap.keys_insert_of_get? hnew, List.nodup_append]
    refine ⟨hm, by simp, fun other hother added hadded => ?_⟩
    rw [List.mem_singleton.mp hadded]
    exact ne_of_mem_of_not_mem hother (OrderedMap.notMem_keys_of_get? hnew)

theorem loadPackage {host host' : Host} (hosts : Host.Related Agrees host host') (name : String) :
    Agrees (host.loadPackage name) (host'.loadPackageWith noteRun name) := by
  intro m hm
  rw [← host.loadPackageWith_register]
  unfold Host.loadPackageWith
  rw [outcome_bind_ok (outcome_get m), outcome_bind_ok (outcome_get m)]
  cases hloaded : m.packages.get? name with
  | some id => exact ⟨rfl, hm⟩
  | none =>
      dsimp only
      cases m.sources.get? (Host.packageFile name) with
      | none => exact ⟨rfl, hm⟩
      | some source =>
          -- Up to here the table is as it was, so the name still has no entry.
          obtain ⟨id, m₁, hid⟩ := Host.exists_packageNamespace name m
          have hnamespace : LoadsNothing (Host.packageNamespace name) :=
            (Plain.packageNamespace name).loadsNothing
          have hpackages : m₁.packages = m.packages := by simpa [hid] using hnamespace m
          let m₂ : Machine := { m₁ with heap := m₁.heap.modify id (Host.asGlobals name) }
          have hmodify : (Exec.modifyHeap (·.modify id (Host.asGlobals name))).outcome m₁ =
            (.ok (), m₂) := rfl
          have hnew : m₂.packages.get? name = none := by
            rw [show m₂.packages = m.packages from hpackages, hloaded]
          have hm₂ : m₂.Distinct := by
            rw [Machine.Distinct, show m₂.packages = m.packages from hpackages]
            exact hm
          obtain ⟨hnote, hdistinct⟩ := register hnew id
          have hrun : Agrees (host.runPackage name source id) (host'.runPackage name source id) :=
            congruence.congruence.after (.parseFile _ _) fun statements =>
              congruence.bind (hosts.block statements _) fun _ => congruence.congruence.pure _
          dsimp only
          rw [outcome_bind_ok hid, outcome_bind_ok hid, outcome_bind_ok hmodify,
            outcome_bind_ok hmodify, outcome_bind, outcome_bind, hnote]
          exact hrun (hdistinct hm₂)

theorem ofDepth (depth : Nat) : Host.Related Agrees (.ofDepth depth) (.ofDepthNoting depth) := by
  induction depth with
  | zero =>
      constructor <;> intros <;> intro m hm
      all_goals exact ⟨rfl, hm⟩
  | succ depth ih =>
      rw [Host.ofDepth_succ]
      exact { congruence.step ih with package := loadPackage ih }

end Agrees

theorem Operation.agrees (o : Operation) : Agrees o.run (o.runWith .noting) := by
  rw [← o.runWith_standard]
  exact Agrees.congruence.operation (Agrees.ofDepth Host.maxDepth) o

namespace Machine

variable {m m' : Machine}

theorem afterNoting_eq (hm : m.Distinct) (operations : List Operation) :
    m.afterNoting operations = m.after operations ∧ (m.after operations).Distinct := by
  induction operations generalizing m with
  | nil =>
      rw [afterNoting, after, List.foldl_nil, List.foldl_nil]
      exact ⟨rfl, hm⟩
  | cons o rest ih =>
      obtain ⟨heq, hdistinct⟩ := o.agrees hm
      rw [afterNoting, after, List.foldl_cons, List.foldl_cons, heq]
      exact ih hdistinct

theorem package_again {name : String} {globals : Value}
    (h : (Exec.package name).outcome m = (.ok (some globals), m')) (later : List Operation) :
    (Exec.package name).outcome (m'.after later) = (.ok (some globals), m'.after later) := by
  obtain ⟨id, hid, hglobals⟩ := loaded_of_package h (by simp)
  rw [package_eq, hglobals _ rfl]
  exact Host.outcome_loadPackage_of_loaded _ (loaded_after hid later)

/-- Whatever sources a machine has and whatever is asked of it, failing or not: no source is run
twice, and a package that was given once is given ever after, with the same globals and without any
change. -/
theorem sources_run_once (hm : m.Distinct) (operations : List Operation) :
    m.afterNoting operations = m.after operations ∧
    (∀ name, (m.afterNoting operations).runs name ≤ 1) ∧
    ∀ name globals m', (Exec.package name).outcome (m.after operations) = (.ok (some globals), m') →
      ∀ later, (Exec.package name).outcome (m'.after later) =
        (.ok (some globals), m'.after later) := by
  obtain ⟨heq, hdistinct⟩ := afterNoting_eq hm operations
  refine ⟨heq, fun name => ?_, fun name globals m' h later => package_again h later⟩
  rw [heq]
  exact List.nodup_iff_count.mp hdistinct name

theorem after_package (m : Machine) (name : String) (rest : List Operation) :
    m.after (.package name :: rest) = ((Exec.package name).outcome m).2.after rest := by
  rw [after, List.foldl_cons, Operation.run, outcome_bind]
  rcases (Exec.package name).outcome m with ⟨e | globals, m'⟩ <;> rfl

end Machine

namespace Cyclic

/-- A machine with the code files of two packages that import a name from each other. -/
def machine : Machine :=
  (({ heap := ⟨#[.namespace {}]⟩ } : Machine).addSource (Host.packageFile "b")
    "from a import x\ny = x\n").addSource (Host.packageFile "a") "from b import y\nx = y\n"

/-- Requests for both packages, by their names and by names in them. -/
def requests : List Operation := [.package "a", .typeOf "b.y", .invoke "a.x" [], .package "b"]

theorem exists_globals :
    ∃ id, (Exec.package "a").outcome (machine.after requests) =
      (.ok (some (.ref id)), machine.after requests) := by
  obtain ⟨id, hid⟩ := loaded_of_source (m := machine) rfl (OrderedMap.get?_insert_self _ _ _)
  refine ⟨id, ?_⟩
  rw [requests, Machine.after_package, package_eq]
  exact Host.outcome_loadPackage_of_loaded _ (Machine.loaded_after hid _)

end Cyclic

theorem Machine.sources_run_once_cyclic :
    (∀ name, (Cyclic.machine.afterNoting Cyclic.requests).runs name ≤ 1) ∧
    ∃ id m', (Exec.package "a").outcome (Cyclic.machine.after Cyclic.requests) =
        (.ok (some (.ref id)), m') ∧
      ∀ later, (Exec.package "a").outcome (m'.after later) =
        (.ok (some (.ref id)), m'.after later) := by
  have hdistinct : Cyclic.machine.Distinct := List.nodup_nil
  obtain ⟨-, hruns, hagain⟩ := sources_run_once hdistinct Cyclic.requests
  obtain ⟨id, hid⟩ := Cyclic.exists_globals
  exact ⟨hruns, id, _, hid, hagain _ _ _ hid⟩

end ModelGraph
