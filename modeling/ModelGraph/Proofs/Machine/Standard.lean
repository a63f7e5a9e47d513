import Mathlib.Data.List.Infix
import ModelGraph.Machine.Standard
import ModelGraph.Proofs.Machine.Codeless
import ModelGraph.Proofs.Object.Names
import ModelGraph.Proofs.Object.Paths
import ModelGraph.Proofs.Text.Utf8

/-!
# What the standard machine knows

All functions of the standard heap are built in, and the names of its storage and tensor classes mean
these classes.
-/

namespace ModelGraph

namespace Heap

/-- The heap with the built-in types registered. -/
def types : Heap :=
  (["Dict", "List", "Optional", "Tuple"].foldl
    (fun h name => h.register (.generic []) ("typing." ++ name))
    (["dict", "list", "bool", "int", "float", "str", "tuple"].foldl
      (fun h name => h.register .builtin ("builtins." ++ name)) (push {} (.namespace {})))).register
    .builtin "torch.Tensor"

/-- The heap with all classes registered that have neither storages nor tensors as instances. -/
def records : Heap :=
  (layoutClasses.foldl registerNative
    (recordClasses.foldl
      (fun h c => c.2.foldl (fun h name => h.registerNative (c.1 ++ "." ++ name, .plain)) h)
      types)).registerMethods (compilationClass, .compilation) compilationMethods

theorem standard_eq :
    standard = builtinFunctions.foldl registerFunction
      (["torch", "torch.cuda"].foldl
        (fun h package => (elementClasses package).foldl registerNative h) records) := by
  unfold standard records types
  simp only [List.forIn_pure_yield_eq_foldl, pure_bind, Id.run_pure]

/-- What holds of the root alone and is kept when classes without fields, and those with methods, are registered
holds of all records. -/
theorem records_rec {P : Heap → Prop} (root : P (push {} (.namespace {})))
    (register : ∀ {h : Heap} {kind : ClassKind} (name : String),
      (∀ arguments, kind = .generic arguments → arguments = []) → P h → P (h.register kind name))
    (registerMethods : ∀ {h : Heap}, P h →
      P (h.registerMethods (compilationClass, .compilation) compilationMethods)) : P records := by
  have hbuiltin {h : Heap} (name : String) (h₀ : P h) : P (h.register .builtin name) :=
    register name (fun _ heq => nomatch heq) h₀
  have hgeneric {h : Heap} (name : String) (h₀ : P h) : P (h.register (.generic []) name) :=
    register name (fun _ heq => (ClassKind.generic.inj heq).symm) h₀
  have hnative {h : Heap} (c : String × Constructor) (h₀ : P h) : P (h.registerNative c) :=
    register _ (fun _ heq => nomatch heq) h₀
  have htypes : P types := hbuiltin _ (List.foldlRecOn (motive := P) _ _
    (List.foldlRecOn (motive := P) _ _ root fun _ h₀ _ _ => hbuiltin _ h₀)
    fun _ h₀ _ _ => hgeneric _ h₀)
  have hplain := List.foldlRecOn (motive := P) recordClasses
    (fun h c => c.2.foldl (fun h name => h.registerNative (c.1 ++ "." ++ name, .plain)) h) htypes
    fun _ h₀ _ _ => List.foldlRecOn (motive := P) _ _ h₀ fun _ h₀ _ _ => hnative _ h₀
  exact registerMethods (List.foldlRecOn (motive := P) layoutClasses registerNative hplain
    fun _ h₀ _ _ => hnative _ h₀)

/-- What is kept when storage and tensor classes and functions are registered as well holds of the standard
heap. -/
theorem standard_rec {P : Heap → Prop} (root : P (push {} (.namespace {})))
    (register : ∀ {h : Heap} {kind : ClassKind} (name : String),
      (∀ arguments, kind = .generic arguments → arguments = []) → P h → P (h.register kind name))
    (registerMethods : ∀ {h : Heap}, P h →
      P (h.registerMethods (compilationClass, .compilation) compilationMethods))
    (registerFunction : ∀ {h : Heap} (f : String × Primitive), P h → P (h.registerFunction f)) :
    P standard := by
  rw [standard_eq]
  exact List.foldlRecOn (motive := P) _ _
    (List.foldlRecOn (motive := P) _ _ (records_rec root register registerMethods)
      fun _ h₀ _ _ => List.foldlRecOn (motive := P) _ _ h₀
        fun _ h₀ _ _ => register _ (fun _ heq => by cases heq) h₀)
    fun _ h₀ f _ => registerFunction f h₀

/-! ## Functions -/

/-- All functions are built in. -/
def Native (h : Heap) : Prop :=
  ∀ id f, h.get? id = some (.function f) → ∃ p, f.kind = .native p

variable {h h' : Heap}

theorem Native.grows (hnative : h.Native) (hgrows : h.Grows False h') : h'.Native :=
  fun id f hid => hnative id f (hgrows.get?_function hid)

theorem Native.push (hnative : h.Native) (module name : String) (p : Primitive) (method : Bool) :
    (h.push (.function ⟨module, name, .native p, method⟩)).Native := by
  intro id f hid
  rw [get?_push] at hid
  split_ifs at hid
  · cases hid
    exact ⟨p, rfl⟩
  · exact hnative id f hid

theorem register_eq (h : Heap) (kind : ClassKind) (name : String) (fields : Fields) :
    h.register kind name fields = h.enter
      (.class ⟨(splitQualified name).1, (splitQualified name).2, kind, fields⟩)
      (Script.dotParts name) := rfl

theorem registerFunction_eq (h : Heap) (f : String × Primitive) :
    h.registerFunction f = h.enter
      (.function ⟨(splitQualified f.1).1, (splitQualified f.1).2, .native f.2, false⟩)
      (Script.dotParts f.1) := rfl

theorem grows_register (h : Heap) (kind : ClassKind) (name : String) (fields : Fields) :
    h.Grows False (h.register kind name fields) := by
  rw [register_eq]
  exact grows_enter h (o := .class _) trivial _

theorem Native.registerFunction (hnative : h.Native) (f : String × Primitive) :
    (h.registerFunction f).Native := by
  rw [registerFunction_eq]
  exact (hnative.push _ _ _ _).grows (grows_bindPath _ _ _ _)

theorem Native.registerMethods (hnative : h.Native) (c : String × Constructor)
    (methods : List (String × Primitive)) : (h.registerMethods c methods).Native :=
  Native.grows (List.foldlRecOn (motive := Native) methods _ hnative
    fun _ hnative _ _ => hnative.push _ _ _ _) (grows_register _ _ _ _)

theorem native_standard : standard.Native := by
  refine standard_rec (fun id f hid => ?_) (fun _ _ hnative => hnative.grows (grows_register _ _ _ _))
    (fun hnative => hnative.registerMethods _ _) fun f hnative => hnative.registerFunction f
  rw [get?_push] at hid
  split_ifs at hid <;> cases hid

end Heap

/-- The machine that a load begins with has no code. -/
theorem Machine.codeless_standard (d : Diagnostics) : (standard.withDiagnostics d).Codeless where
  sources_eq := rfl
  tracer?_eq := rfl
  native hid := Heap.native_standard _ _ hid

/-! ## Registered names -/

namespace Heap

variable {h : Heap} {names path : List String} {o : Object}

theorem Open.register (hopen : h.Open names) (kind : ClassKind) (name : String) :
    (h.register kind name).Open names := by
  have hblank {x : String} {v : Value}
      (hx : (Object.class ⟨(splitQualified name).1, (splitQualified name).2, kind, {}⟩).own? x = some v) :
      False := by cases hx
  rw [register_eq]
  exact hopen.enter (fun hx => (hblank hx).elim) (fun hx => (hblank hx).elim) fun _ _ _ => rfl

theorem Open.registerFunction (hopen : h.Open names) {f : String × Primitive}
    (hf : ∀ z ∈ (Script.dotParts f.1).getLast?, z ∉ names) : (h.registerFunction f).Open names := by
  rw [registerFunction_eq]
  exact hopen.enter (fun hx => by cases hx) (fun hx => by cases hx) fun z hz hmem => absurd hmem (hf z hz)

/-- The fields of methods that stand on the heap one after another. -/
theorem exists_of_own?_methods {module name : String} {kind : ClassKind} {start : Nat}
    {methods : List (String × Primitive)} (hmethods : (methods.map (·.1)).Nodup) {x : String}
    {v : Value} (hx : (Object.class ⟨module, name, kind,
      .ofList (methods.mapIdx fun i m => (m.1, .ref (start + i)))⟩).own? x = some v) :
    ∃ i p, methods[i]? = some (x, p) ∧ v = .ref (start + i) := by
  let entries := methods.mapIdx fun i m => (m.1, Value.ref (start + i))
  have hkeys : entries.map (·.1) = methods.map (·.1) := by
    refine List.ext_getElem? fun i => ?_
    simp only [entries, List.getElem?_map, List.getElem?_mapIdx, Option.map_map]
    rfl
  have hget : (OrderedMap.ofList entries).get? x = some v := hx
  rw [OrderedMap.ofList_of_nodup (hkeys ▸ hmethods)] at hget
  obtain ⟨i, hi, heq⟩ := List.mem_mapIdx.mp (OrderedMap.mem_entries_of_get? hget)
  cases heq
  exact ⟨i, _, List.getElem?_eq_getElem hi, rfl⟩

theorem size_foldl_push (module : String) (methods : List (String × Primitive)) :
    (methods.foldl (fun h m => h.push (.function ⟨module, m.1, .native m.2, true⟩)) h).size =
      h.size + methods.length := by
  induction methods generalizing h with
  | nil => rfl
  | cons m rest ih =>
      rw [List.foldl_cons, ih, size_push, List.length_cons]
      omega

/-- Functions that are not bound to names lead nowhere. -/
theorem open_foldl_push (hopen : h.Open names) (module : String) (methods : List (String × Primitive)) :
    let h' := methods.foldl (fun h m => h.push (.function ⟨module, m.1, .native m.2, true⟩)) h
    h'.Open names ∧ ∀ a x, h'.edge? a x = h.edge? a x := by
  induction methods generalizing h with
  | nil => exact ⟨hopen, fun _ _ => rfl⟩
  | cons m methods ih =>
      obtain ⟨hrest, hedges⟩ :=
        ih (hopen.push_blank (o := .function ⟨module, m.1, .native m.2, true⟩) fun _ => rfl)
      refine ⟨hrest, fun a x => ?_⟩
      rw [List.foldl_cons, hedges, edge?_push]
      split_ifs with ha
      · rw [edge?_eq_none_of_le (Nat.le_of_eq ha.symm)]
        rfl
      · rfl

theorem Open.registerMethods (hopen : h.Open names) (c : String × Constructor)
    {methods : List (String × Primitive)} (hmethods : (methods.map (·.1)).Nodup)
    (hnames : ∀ m ∈ methods, m.1 ∉ names) : (h.registerMethods c methods).Open names := by
  obtain ⟨hpushed, hedges⟩ := open_foldl_push hopen c.1 methods
  have hsize := size_foldl_push (h := h) c.1 methods
  refine hpushed.enter (o := .class _) (fun {x v} hx => ?_) (fun {x y j} hx hy => ?_) fun _ _ _ => rfl
  · obtain ⟨i, p, hi, rfl⟩ := exists_of_own?_methods hmethods hx
    obtain ⟨hlt, -⟩ := List.getElem?_eq_some_iff.mp hi
    refine ⟨hnames _ (List.mem_of_getElem? hi), h.size + i, rfl, ?_, by omega, fun a y hy => ?_⟩
    · exact Nat.lt_of_lt_of_le hopen.pos (Nat.le_add_right _ _)
    · rw [hedges] at hy
      exact hopen.tree.unlinked_of_le (Nat.le_add_right _ _) a y hy
  · obtain ⟨i, p, hi, heq⟩ := exists_of_own?_methods hmethods hx
    obtain ⟨k, q, hk, heq'⟩ := exists_of_own?_methods hmethods hy
    have hik : h.size + i = h.size + k := Value.ref.inj (heq.symm.trans heq')
    obtain rfl : i = k := by omega
    rw [hi] at hk
    cases hk
    rfl

/-- The parts of the names of packages: of those of the storage and tensor classes, and of that of the
functions that rebuild tensors. -/
def packageNames : List String := ["torch", "cuda", "_utils"]

theorem open_records : records.Open packageNames := by
  refine records_rec ?_ (fun _ _ hopen => hopen.register _ _)
    fun hopen => hopen.registerMethods _ (by decide) (by decide)
  have hnone (a : Nat) (x : String) : (push {} (.namespace {})).edge? a x = none := by
    rw [edge?_push_namespace]
    exact edge?_eq_none_of_le (Nat.zero_le _) x
  refine ⟨⟨fun hx => ?_, fun hx => ?_⟩, ⟨{}, rfl⟩, fun _ hx => ?_⟩ <;> rw [hnone] at hx <;> cases hx

/-! ## Storage and tensor classes -/

/-- The storage and tensor classes of both packages. -/
def elements : List (String × Constructor) := elementClasses "torch" ++ elementClasses "torch.cuda"

theorem standard_eq_elements :
    standard = builtinFunctions.foldl registerFunction (elements.foldl registerNative records) := by
  rw [standard_eq, elements, List.foldl_append, List.foldl_cons, List.foldl_cons, List.foldl_nil]

/-- The packages of storage and tensor classes, and that of the functions that rebuild tensors. -/
def packages : List String := ["torch", "torch.cuda", "torch._utils"]

theorem dotParts_packages :
    packages.map Script.dotParts = [["torch"], ["torch", "cuda"], ["torch", "_utils"]] := by
  decide +kernel

theorem elementNames_plain : ∀ element ∈ elementNames, ∀ suffix ∈ ["Storage", "Tensor"],
    '.' ∉ (element ++ suffix).toList ∧ element ++ suffix ∉ packageNames := by
  decide +kernel

/-- The name of a storage or tensor class ends in a name of its own after that of the package. -/
theorem exists_of_mem_elements {c : String × Constructor} (hc : c ∈ elements) :
    ∃ package x, c.1 = package ++ "." ++ x ∧ '.' ∉ x.toList ∧ x ∉ packageNames ∧
      (Script.dotParts package = ["torch"] ∨ Script.dotParts package = ["torch", "cuda"]) := by
  have hpackage {package : String} (hmem : c ∈ elementClasses package) :
      ∃ x, c.1 = package ++ "." ++ x ∧ '.' ∉ x.toList ∧ x ∉ packageNames := by
    obtain ⟨element, helement, hmem⟩ := List.mem_flatMap.mp hmem
    rcases List.mem_append.mp hmem with hmem | hmem
    · obtain ⟨hdot, hname⟩ := elementNames_plain element helement "Storage" (by simp)
      split at hmem
      · rw [List.mem_singleton.mp hmem]
        exact ⟨_, rfl, hdot, hname⟩
      · cases hmem
    · obtain ⟨hdot, hname⟩ := elementNames_plain element helement "Tensor" (by simp)
      rw [List.mem_singleton.mp hmem]
      exact ⟨element ++ "Tensor", by simp only [String.append_assoc], hdot, hname⟩
  have hparts := dotParts_packages
  simp only [packages, List.map_cons, List.cons.injEq] at hparts
  rcases List.mem_append.mp hc with hmem | hmem
  · obtain ⟨x, hx, hdot, hname⟩ := hpackage hmem
    exact ⟨_, x, hx, hdot, hname, .inl hparts.1⟩
  · obtain ⟨x, hx, hdot, hname⟩ := hpackage hmem
    exact ⟨_, x, hx, hdot, hname, .inr hparts.2.1⟩

theorem exists_path {c : String × Constructor} (hc : c ∈ elements) :
    ∃ x, x ∉ packageNames ∧
      (Script.dotParts c.1 = ["torch", x] ∨ Script.dotParts c.1 = ["torch", "cuda", x]) := by
  obtain ⟨package, x, hname, hdot, hx, hpackage⟩ := exists_of_mem_elements hc
  refine ⟨x, hx, ?_⟩
  rw [hname, dotParts_append, dotParts_eq_singleton hdot]
  exact hpackage.imp (congrArg (· ++ [x])) (congrArg (· ++ [x]))

/-- No name of a class goes on from that of another. -/
theorem elements_apart {c c' : String × Constructor} (hc : c ∈ elements) (hc' : c' ∈ elements)
    (hne : c.1 ≠ c'.1) : ¬Script.dotParts c.1 <+: Script.dotParts c'.1 := by
  obtain ⟨x, hx, hpath⟩ := exists_path hc
  obtain ⟨x', hx', hpath'⟩ := exists_path hc'
  intro hprefix
  refine hne (dotParts_injective ?_)
  rcases hpath with hpath | hpath <;> rcases hpath' with hpath' | hpath' <;>
    rw [hpath, hpath'] at hprefix ⊢ <;> simp [packageNames] at hprefix hx <;> simp_all

theorem Open.clear (hopen : h.Open packageNames) {c : String × Constructor} (hc : c ∈ elements) :
    h.Clear 0 (Script.dotParts c.1) := by
  have hroot : h.Takes 0 := by
    obtain ⟨n, hn⟩ := hopen.root
    exact ⟨_, hn, rfl⟩
  obtain ⟨x, -, hpath | hpath⟩ := exists_path hc <;> rw [hpath]
  · exact ⟨hroot, fun next hnext => hopen.takes (by simp [packageNames]) hnext⟩
  · refine ⟨hroot, fun next hnext => ⟨hopen.takes (by simp [packageNames]) hnext, fun last hlast => ?_⟩⟩
    exact hopen.takes (by simp [packageNames]) hlast

/-- The class that is registered. -/
def registered (c : String × Constructor) : Object :=
  .class ⟨(splitQualified c.1).1, (splitQualified c.1).2, .native c.2, {}⟩

theorem not_own?_registered {c : String × Constructor} {x : String} {v : Value} :
    (registered c).own? x ≠ some v := fun hx => by cases hx

section

variable {classes : List (String × Constructor)} (hclasses : ∀ c ∈ classes, c ∈ elements)
include hclasses

theorem Means.foldl_registerNative (hopen : h.Open packageNames) {c : String × Constructor}
    (hc : c ∈ elements) (hnew : c.1 ∉ classes.map (·.1))
    (hmeans : h.Means (Script.dotParts c.1) o) :
    (classes.foldl registerNative h).Means (Script.dotParts c.1) o := by
  induction classes generalizing h with
  | nil => exact hmeans
  | cons c' classes ih =>
      obtain ⟨hc', hrest⟩ := List.forall_mem_cons.mp hclasses
      rw [List.map_cons, List.mem_cons, not_or] at hnew
      have hkept : (h.registerNative c').Means (Script.dotParts c.1) o :=
        hmeans.enter hopen (fun hx => absurd hx not_own?_registered)
          (fun hx => absurd hx not_own?_registered) (elements_apart hc' hc (Ne.symm hnew.1))
      exact ih hrest (hopen.register _ _) hnew.2 hkept

theorem means_foldl_registerNative (hdistinct : (classes.map (·.1)).Nodup)
    (hopen : h.Open packageNames) {c : String × Constructor} (hc : c ∈ classes) :
    (classes.foldl registerNative h).Means (Script.dotParts c.1) (registered c) := by
  induction classes generalizing h with
  | nil => cases hc
  | cons c' classes ih =>
      obtain ⟨hc', hrest⟩ := List.forall_mem_cons.mp hclasses
      obtain ⟨hnew, hdistinct⟩ := List.nodup_cons.mp hdistinct
      have hregistered : (h.registerNative c').Open packageNames := hopen.register _ _
      rcases List.mem_cons.mp hc with rfl | hc
      · have hpush : (h.push (registered c)).Open packageNames := hopen.push_blank fun _ => rfl
        have hmeans : (h.registerNative c).Means (Script.dotParts c.1) (registered c) :=
          means_enter hopen (fun hx => absurd hx not_own?_registered)
            (fun hx => absurd hx not_own?_registered) (hpush.clear hc')
        exact hmeans.foldl_registerNative hrest hregistered hc' hnew
      · exact ih hrest hdistinct hregistered hc

end

/-! ## Names of functions -/

/-- Packages, storage and tensor classes, and functions all have different names. -/
theorem nodup_names : (packages ++ elements.map (·.1) ++ builtinFunctions.map (·.1)).Nodup :=
  Text.nodup_of_number (by decide +kernel)

theorem functions_apart {f : String × Primitive} (hf : f ∈ builtinFunctions) :
    f.1 ∉ packages ∧ ∀ c ∈ elements, f.1 ≠ c.1 := by
  have hnew := (List.nodup_append.mp nodup_names).2.2
  refine ⟨fun hmem => ?_, fun c hc heq => ?_⟩
  · exact hnew f.1 (List.mem_append_left _ hmem) f.1 (List.mem_map_of_mem hf) rfl
  · exact hnew c.1 (List.mem_append_right _ (List.mem_map_of_mem hc)) f.1 (List.mem_map_of_mem hf) heq.symm

/-- The name of a function is the beginning of no path in a package. -/
theorem not_prefix_of_function {f : String × Primitive} (hf : f ∈ builtinFunctions)
    {package : List String} (hpackage : package ∈ packages.map Script.dotParts) {x : String}
    (hne : Script.dotParts f.1 ≠ package ++ [x]) : ¬Script.dotParts f.1 <+: package ++ [x] := by
  have hnew : Script.dotParts f.1 ∉ packages.map Script.dotParts := by
    rw [List.mem_map_of_injective dotParts_injective]
    exact (functions_apart hf).1
  have hnonempty := dotParts_ne_nil f.1
  rw [List.prefix_concat_iff, not_or]
  refine ⟨hne, fun hprefix => ?_⟩
  rw [← List.mem_inits] at hprefix
  simp only [dotParts_packages, List.mem_cons, List.not_mem_nil, or_false, not_or] at hpackage hnew
  rcases hpackage with rfl | rfl | rfl <;> simp [hnonempty, hnew] at hprefix

theorem elements_apart_of_function {f : String × Primitive} (hf : f ∈ builtinFunctions)
    {c : String × Constructor} (hc : c ∈ elements) :
    ¬Script.dotParts f.1 <+: Script.dotParts c.1 := by
  have hclass : Script.dotParts f.1 ≠ Script.dotParts c.1 := fun heq =>
    (functions_apart hf).2 c hc (dotParts_injective heq)
  obtain ⟨x, -, heq | heq⟩ := exists_path hc <;> rw [heq] at hclass ⊢
  · have hpackage : ["torch"] ∈ packages.map Script.dotParts := by simp [dotParts_packages]
    exact not_prefix_of_function hf hpackage hclass
  · have hpackage : ["torch", "cuda"] ∈ packages.map Script.dotParts := by simp [dotParts_packages]
    exact not_prefix_of_function hf hpackage hclass

/-- The name of no function ends in a part of the name of a package. -/
theorem last_notMem_packageNames {f : String × Primitive} (hf : f ∈ builtinFunctions) :
    ∀ z ∈ (Script.dotParts f.1).getLast?, z ∉ packageNames := by
  have hbytes : ∀ f ∈ builtinFunctions, ∀ z ∈ packageNames, ¬Text.utf8 z <:+ Text.utf8 f.1 := by
    simp only [Text.utf8_eq]
    decide +kernel
  intro z hz hmem
  refine hbytes f hf z hmem ?_
  rcases eq_or_eq_append_of_mem_getLast?_dotParts hz with heq | ⟨module, heq⟩
  · rw [heq]
  · rw [heq, Text.utf8_append]
    exact List.suffix_append _ _

theorem open_foldl_registerFunction {functions : List (String × Primitive)}
    (hfunctions : functions ⊆ builtinFunctions) (hopen : h.Open packageNames) :
    (functions.foldl registerFunction h).Open packageNames :=
  List.foldlRecOn (motive := Open packageNames) _ _ hopen fun _ hopen _ hf =>
    hopen.registerFunction (last_notMem_packageNames (hfunctions hf))

theorem Means.foldl_registerFunction {functions : List (String × Primitive)}
    (hfunctions : functions ⊆ builtinFunctions) (hopen : h.Open packageNames)
    (hapart : ∀ f ∈ functions, ¬Script.dotParts f.1 <+: path)
    (hmeans : h.Means path o) : (functions.foldl registerFunction h).Means path o := by
  induction functions generalizing h with
  | nil => exact hmeans
  | cons f functions ih =>
      obtain ⟨hf, hrest⟩ := List.forall_mem_cons.mp hapart
      obtain ⟨hmem, hfunctions⟩ := List.cons_subset.mp hfunctions
      have hkept : (h.registerFunction f).Means path o :=
        hmeans.enter hopen (fun hx => by cases hx) (fun hx => by cases hx) hf
      exact ih hfunctions (hopen.registerFunction (last_notMem_packageNames hmem)) hrest hkept

theorem open_elements : (elements.foldl registerNative records).Open packageNames :=
  List.foldlRecOn (motive := Open packageNames) _ _ open_records fun _ hopen _ _ =>
    hopen.register _ _

/-- In the standard heap the name of a storage or tensor class means it. -/
theorem means_standard {c : String × Constructor} (hc : c ∈ elements) :
    standard.Means (Script.dotParts c.1) (registered c) := by
  have hdistinct := (List.nodup_append.mp (List.nodup_append.mp nodup_names).1).2.1
  have hmeans := means_foldl_registerNative (fun _ => id) hdistinct open_records hc
  rw [standard_eq_elements]
  exact hmeans.foldl_registerFunction (List.Subset.refl _) open_elements
    fun f hf => elements_apart_of_function hf hc

theorem open_standard : standard.Open packageNames := by
  rw [standard_eq_elements]
  exact open_foldl_registerFunction (List.Subset.refl _) open_elements

/-! ## The functions that rebuild tensors -/

theorem Open.clear_utils (hopen : h.Open packageNames) (x : String) :
    h.Clear 0 ["torch", "_utils", x] := by
  have hroot : h.Takes 0 := by
    obtain ⟨n, hn⟩ := hopen.root
    exact ⟨_, hn, rfl⟩
  exact ⟨hroot, fun next hnext => ⟨hopen.takes (by simp [packageNames]) hnext, fun last hlast =>
    hopen.takes (by simp [packageNames]) hlast⟩⟩

/-- In the standard heap the name of a function that rebuilds tensors means it. -/
theorem means_standard_utils {f : String × Primitive} (hf : f ∈ builtinFunctions) {x : String}
    (hname : Script.dotParts f.1 = ["torch", "_utils", x]) :
    standard.Means (Script.dotParts f.1)
      (.function ⟨(splitQualified f.1).1, (splitQualified f.1).2, .native f.2, false⟩) := by
  have hdistinct := (List.nodup_append.mp nodup_names).2.1
  obtain ⟨before, after, hsplit⟩ := List.append_of_mem hf
  have hbefore : before ⊆ builtinFunctions := by
    rw [hsplit]
    exact List.subset_append_left _ _
  have hafter : after ⊆ builtinFunctions := by
    rw [hsplit]
    exact List.subset_append_of_subset_right _ (List.subset_cons_self _ _)
  have hnew : ∀ f' ∈ after, f'.1 ≠ f.1 := by
    rw [hsplit, List.map_append, List.map_cons] at hdistinct
    have hcons := (List.nodup_append.mp hdistinct).2.1
    exact fun f' hf' heq => (List.nodup_cons.mp hcons).1 (heq ▸ List.mem_map_of_mem hf')
  have hapart : ∀ f' ∈ after, ¬Script.dotParts f'.1 <+: Script.dotParts f.1 := by
    intro f' hf'
    have hother := mt (@dotParts_injective _ _) (hnew f' hf')
    rw [hname] at hother ⊢
    have hpackage : ["torch", "_utils"] ∈ packages.map Script.dotParts := by simp [dotParts_packages]
    exact not_prefix_of_function (hafter hf') hpackage hother
  have hopen := open_foldl_registerFunction hbefore open_elements
  have hentered := hopen.registerFunction (last_notMem_packageNames hf)
  have hmeans : Means (registerFunction _ f) (Script.dotParts f.1) (.function _) :=
    means_enter hopen (o := .function _) (fun hx => by cases hx) (fun hx => by cases hx) (by
      rw [hname]
      exact (hopen.push_blank fun _ => rfl).clear_utils x)
  rw [standard_eq_elements, hsplit, List.foldl_append, List.foldl_cons]
  exact hmeans.foldl_registerFunction hafter hentered hapart

/-- The name means a built-in function. -/
def NamesFunction (h : Heap) (name : String) (p : Primitive) : Prop :=
  (∃ n, h.get? 0 = some (.namespace n)) ∧ ∃ id f, h.walk? 0 (Script.dotParts name) = some id ∧
    h.get? id = some (.function f) ∧ f.kind = .native p

theorem namesFunction_rebuildTensor :
    standard.NamesFunction "torch._utils._rebuild_tensor_v2" .rebuildTensorV2 := by
  have hname : Script.dotParts "torch._utils._rebuild_tensor_v2" =
      ["torch", "_utils", "_rebuild_tensor_v2"] := by decide +kernel
  have hmem : ("torch._utils._rebuild_tensor_v2", Primitive.rebuildTensorV2) ∈ builtinFunctions := by
    simp [builtinFunctions]
  obtain ⟨id, hwalk, hid⟩ := means_standard_utils hmem hname
  obtain ⟨o, ho, hframe⟩ := Option.map_eq_some_iff.mp hid
  have hfunction := Object.eq_function_of_frame hframe
  exact ⟨open_standard.root, id, _, hwalk, hfunction ▸ ho, rfl⟩

/-- The name means a class of this kind. -/
def NamesClass (h : Heap) (module name : String) (kind : ClassKind) : Prop :=
  (∃ n, h.get? 0 = some (.namespace n)) ∧
    ∃ id c, h.walk? 0 (Script.dotParts (module ++ "." ++ name)) = some id ∧
      h.get? id = some (.class c) ∧ c.module = module ∧ c.name = name ∧ c.kind = kind

theorem namesClass_standard {module name : String} {constructor : Constructor}
    (hc : (module ++ "." ++ name, constructor) ∈ elements) (hname : '.' ∉ name.toList) :
    standard.NamesClass module name (.native constructor) := by
  obtain ⟨id, hwalk, hid⟩ := means_standard hc
  obtain ⟨o, ho, hframe⟩ := Option.map_eq_some_iff.mp hid
  cases o with
  | «class» c =>
      simp only [registered, splitQualified_append hname, Object.frame, Object.class.injEq,
        Class.mk.injEq] at hframe
      exact ⟨open_standard.root, id, c, hwalk, ho, hframe.1, hframe.2.1, hframe.2.2.1⟩
  | _ => cases hframe

end Heap

/-- A native storage class: the one for elements of a type in one of the packages. -/
structure StorageClass where
  package : String
  element : String
  type : ElementType
  package_mem : package ∈ ["torch", "torch.cuda"]
  element_mem : element ∈ elementNames
  type_eq : ElementType.ofStorageName? (element ++ "Storage") = some type

namespace StorageClass

variable (c : StorageClass)

/-- The name of the class in its package. -/
def name : String := c.element ++ "Storage"

/-- The name of the class of the tensors over such storages. -/
def tensorName : String := c.element ++ "Tensor"

theorem mem_elements {entry : String × Constructor} (h : entry ∈ elementClasses c.package) :
    entry ∈ Heap.elements := by
  have hpackage := c.package_mem
  simp only [List.mem_cons, List.not_mem_nil, or_false] at hpackage
  rcases hpackage with hpackage | hpackage <;> rw [hpackage] at h
  · exact List.mem_append_left _ h
  · exact List.mem_append_right _ h

theorem notMem_name : '.' ∉ c.name.toList ∧ '.' ∉ c.tensorName.toList := by
  have hplain := Heap.elementNames_plain c.element c.element_mem
  exact ⟨(hplain "Storage" (by simp)).1, (hplain "Tensor" (by simp)).1⟩

theorem namesClass_name : Heap.standard.NamesClass c.package c.name (.native (.storage c.type)) := by
  refine Heap.namesClass_standard (c.mem_elements ?_) c.notMem_name.1
  refine List.mem_flatMap.mpr ⟨c.element, c.element_mem, List.mem_append_left _ ?_⟩
  rw [c.type_eq]
  exact List.mem_singleton_self _

theorem namesClass_tensorName : Heap.standard.NamesClass c.package c.tensorName (.native .tensor) := by
  refine Heap.namesClass_standard (c.mem_elements ?_) c.notMem_name.2
  refine List.mem_flatMap.mpr ⟨c.element, c.element_mem, List.mem_append_right _ ?_⟩
  rw [tensorName, ← String.append_assoc]
  exact List.mem_singleton_self _

end StorageClass

end ModelGraph
