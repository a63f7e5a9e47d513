import ModelGraph.Proofs.Machine.Operations

/-!
# Packages stay loaded

A package counts as loaded from the moment its loading begins. Nothing that the machine does takes
that back, neither an error in the package's own code nor any later operation; so what was half run
is found again as if it were whole.
-/

namespace ModelGraph

open Exec

/-! ## Actions that keep a package -/

/-- If the package is loaded, it still is after the action, with the same globals. -/
def KeepsPackage (name : String) ⦃α : Type⦄ (x _ : Exec α) : Prop :=
  ∀ ⦃m : Machine⦄ ⦃id : Nat⦄, m.packages.get? name = some id →
    (x.outcome m).2.packages.get? name = some id

namespace KeepsPackage

variable {name : String}

theorem congruence : PackageCongruence (KeepsPackage name) where
  loadsNothing hx m id hid := by rw [hx m, hid]
  bind {_ _ x _ f _} hx hf m id hid := by
    have hfirst := hx hid
    rw [outcome_bind]
    rcases hxm : x.outcome m with ⟨e | a, m'⟩ <;> rw [hxm] at hfirst
    · exact hfirst
    · exact hf a hfirst
  attempt hx m id hid := by
    rw [outcome_attempt]
    exact hx hid

theorem register {other : String} (hother : name ≠ other) (id : Nat) :
    KeepsPackage name (Exec.register other id) (Exec.register other id) := by
  intro m loaded hloaded
  exact (OrderedMap.get?_insert_of_ne _ hother id).trans hloaded

end KeepsPackage

namespace Host

def packageFile (name : String) : String := name.replace "." "/" ++ ".py"

variable {name : String} {m m' : Machine}

theorem outcome_loadPackage_of_loaded (host : Host) {id : Nat}
    (hid : m.packages.get? name = some id) :
    (host.loadPackage name).outcome m = (.ok (some (.ref id)), m) := by
  unfold loadPackage
  rw [outcome_bind_ok (outcome_get m), hid]
  rfl

/-- What is done once the globals of a package are there. -/
def runPackage (host : Host) (name source : String) (id : Nat) : Exec (Option Value) := do
  let statements ← parseFile (packageFile name) source
  let _ ← host.block statements (id :: rootScope)
  return some (.ref id)

theorem eq_of_runPackage {host : Host} {source : String} {id : Nat} {globals : Option Value}
    (h : (host.runPackage name source id).outcome m = (.ok globals, m')) :
    globals = some (.ref id) := by
  obtain ⟨statements, m₁, -, hrun⟩ := exists_of_outcome_bind h
  obtain ⟨flow, m₂, -, hdone⟩ := exists_of_outcome_bind hrun
  cases hdone
  rfl

theorem exists_packageNamespace (name : String) (m : Machine) :
    ∃ id m₁, (packageNamespace name).outcome m = (.ok id, m₁) := by
  unfold packageNamespace
  rw [outcome_bind_ok (x := global? name) rfl, outcome_bind_ok (outcome_heap m)]
  split
  · exact ⟨_, _, rfl⟩
  · exact ⟨_, _, rfl⟩

/-- A namespace becomes the globals of a package. -/
def asGlobals (name : String) : Object → Object
  | .namespace n =>
    .namespace { package? := some ⟨name, packageFile name⟩,
                 fields := n.fields.insert "__name__" (.str name) }
  | o => o

/-- The first load of a package that has a source notes the package, and runs the source then. -/
theorem outcome_loadPackage_of_source (host : Host) {source : String}
    (hnew : m.packages.get? name = none)
    (hsource : m.sources.get? (packageFile name) = some source) :
    ∃ id m₁, m₁.packages.get? name = some id ∧
      (host.loadPackage name).outcome m = (host.runPackage name source id).outcome m₁ := by
  obtain ⟨id, m₁, hid⟩ := exists_packageNamespace name m
  refine ⟨id, { m₁ with heap := m₁.heap.modify id (asGlobals name),
                        packages := m₁.packages.insert name id },
    OrderedMap.get?_insert_self _ _ _, ?_⟩
  unfold packageFile at hsource
  unfold loadPackage
  rw [outcome_bind_ok (outcome_get m), hnew]
  dsimp only
  rw [hsource]
  dsimp only
  rw [outcome_bind_ok hid]
  rfl

end Host

namespace KeepsPackage

variable {name : String}

theorem loadPackage {host : Host} (hosts : Host.Related (KeepsPackage name) host host)
    (other : String) : KeepsPackage name (host.loadPackage other) (host.loadPackage other) := by
  by_cases hother : name = other
  · subst hother
    intro m id hid
    rw [host.outcome_loadPackage_of_loaded hid]
    exact hid
  · exact congruence.congruence.loadPackage hosts other fun id => register hother id

theorem ofDepth (depth : Nat) :
    Host.Related (KeepsPackage name) (.ofDepth depth) (.ofDepth depth) := by
  induction depth with
  | zero =>
      constructor <;> intros <;> intro m id hid
      all_goals exact hid
  | succ depth ih =>
      rw [Host.ofDepth_succ]
      exact { congruence.step ih with package := loadPackage ih }

theorem standard : Host.Related (KeepsPackage name) .standard .standard := ofDepth Host.maxDepth

end KeepsPackage

theorem Operation.keepsPackage (name : String) (o : Operation) : KeepsPackage name o.run o.run := by
  rw [← o.runWith_standard]
  exact KeepsPackage.congruence.operation KeepsPackage.standard o

theorem Machine.loaded_after {m : Machine} {name : String} {id : Nat}
    (hid : m.packages.get? name = some id) (operations : List Operation) :
    (m.after operations).packages.get? name = some id := by
  induction operations generalizing m with
  | nil => exact hid
  | cons o rest ih => exact ih (o.keepsPackage name hid)

/-! ## Loads that fail -/

/-- What runs the source of a package that is asked for from outside. -/
def Host.sourceHost : Host := .ofDepth (maxDepth - 1)

theorem package_eq (name : String) : Exec.package name = Host.sourceHost.loadPackage name := rfl

variable {name : String} {m m' : Machine}

theorem KeepsPackage.runPackage (source : String) (id : Nat) :
    KeepsPackage name (Host.sourceHost.runPackage name source id)
      (Host.sourceHost.runPackage name source id) := by
  refine congruence.congruence.after (.parseFile _ _) fun statements => ?_
  exact congruence.bind ((ofDepth _).block statements _) fun _ => congruence.congruence.pure _

/-- A request for a package that has a source leaves it loaded, also if its source fails: it is noted
before its source runs, and running keeps it. -/
theorem loaded_of_source {source : String} (hnew : m.packages.get? name = none)
    (hsource : m.sources.get? (Host.packageFile name) = some source) :
    ∃ id, ((Exec.package name).outcome m).2.packages.get? name = some id := by
  obtain ⟨id, m₁, hid, hrun⟩ := Host.outcome_loadPackage_of_source .sourceHost hnew hsource
  rw [package_eq, hrun]
  exact ⟨id, KeepsPackage.runPackage source id hid⟩

/-- After a request for a package, the package is loaded unless there is no source for it. What is
returned is its globals. -/
theorem loaded_of_package {result : Except RunError (Option Value)}
    (h : (Exec.package name).outcome m = (result, m')) (hresult : result ≠ .ok none) :
    ∃ id, m'.packages.get? name = some id ∧
      ∀ globals, result = .ok globals → globals = some (.ref id) := by
  rw [package_eq] at h
  cases hloaded : m.packages.get? name with
  | some id =>
      rw [Host.outcome_loadPackage_of_loaded _ hloaded] at h
      cases h
      refine ⟨id, hloaded, fun globals hglobals => ?_⟩
      cases hglobals
      rfl
  | none =>
      cases hsource : m.sources.get? (Host.packageFile name) with
      | none =>
          have hnothing : (Host.sourceHost.loadPackage name).outcome m = (.ok none, m) := by
            unfold Host.packageFile at hsource
            unfold Host.loadPackage
            rw [outcome_bind_ok (outcome_get m), hloaded]
            dsimp only
            rw [hsource]
            rfl
          rw [hnothing] at h
          cases h
          exact absurd rfl hresult
      | some source =>
          obtain ⟨id, m₁, hid, hrun⟩ := Host.outcome_loadPackage_of_source .sourceHost
            hloaded hsource
          have hkept := KeepsPackage.runPackage source id hid
          rw [← hrun, h] at hkept
          refine ⟨id, hkept, fun globals hglobals => ?_⟩
          rw [hrun, hglobals] at h
          exact Host.eq_of_runPackage h

/-- A package whose load ended in an error is reported as loaded ever after: whatever else is asked of
the machine, failing or not, the next request for the package gives the globals that its source left,
without an error and without running anything. -/
theorem package_after_error {e : RunError} (h : (Exec.package name).outcome m = (.error e, m'))
    (later : List Operation) :
    ∃ id, (Exec.package name).outcome (m'.after later) = (.ok (some (.ref id)), m'.after later) := by
  obtain ⟨id, hid, -⟩ := loaded_of_package h (by simp)
  refine ⟨id, ?_⟩
  rw [package_eq]
  exact Host.outcome_loadPackage_of_loaded _ (Machine.loaded_after hid later)

theorem package_of_parse_error (name : String) {source : String} {fault : Script.SyntaxError}
    (hnew : m.packages.get? name = none)
    (hsource : m.sources.get? (Host.packageFile name) = some source)
    (hparse : Script.parse source = .error fault) :
    ∃ m', (Exec.package name).outcome m = (.error (.parse (Host.packageFile name) fault), m') := by
  obtain ⟨id, m₁, -, hrun⟩ := Host.outcome_loadPackage_of_source .sourceHost hnew hsource
  refine ⟨m₁, ?_⟩
  rw [package_eq, hrun]
  unfold Host.runPackage Host.parseFile
  rw [hparse]
  rfl

namespace Unfinished

/-- A machine with the code file of a package `m`, which ends in the middle of a statement. -/
def machine : Machine :=
  ({ heap := ⟨#[.namespace {}]⟩ } : Machine).addSource (Host.packageFile "m") "x = ("

theorem exists_fault : ∃ fault, Script.parse "x = (" = .error fault := by
  have hfails : (Script.parse "x = (").toOption.isNone := by decide +kernel
  cases hparse : Script.parse "x = (" with
  | ok statements =>
      rw [hparse] at hfails
      cases hfails
  | error fault => exact ⟨fault, rfl⟩

theorem exists_error : ∃ e m', (Exec.package "m").outcome machine = (.error e, m') := by
  obtain ⟨fault, hparse⟩ := exists_fault
  obtain ⟨m', h⟩ := package_of_parse_error (m := machine) "m" rfl
    (OrderedMap.get?_insert_self _ _ _) hparse
  exact ⟨_, m', h⟩

end Unfinished

theorem package_after_error_unfinished : ∃ e m',
    (Exec.package "m").outcome Unfinished.machine = (.error e, m') ∧
    ∃ id, (Exec.package "m").outcome (m'.after [.typeOf "m.x", .package "m"]) =
      (.ok (some (.ref id)), m'.after [.typeOf "m.x", .package "m"]) := by
  obtain ⟨e, m', h⟩ := Unfinished.exists_error
  exact ⟨e, m', h, package_after_error h [.typeOf "m.x", .package "m"]⟩

end ModelGraph
