import ModelGraph.Proofs.Arena.Enclave

/-!
# Tame actions

An action is tame around an enclave if it leaves a well-formed machine well formed, takes no object away,
leaves the enclave as it stands, and gives nothing that is inside it or not on the heap, whether it succeeds
or fails. Two actions are alike if they are tame and do the same on every well-formed machine. Sequencing
keeps both, as long as the second action is told what the first one guarantees.
-/

namespace ModelGraph

open Exec

variable {α β γ : Type} {c : Enclave}

/-- The heap is closed, and the packages that count as loaded have namespaces. -/
structure Machine.WellFormed (m : Machine) : Prop where
  closed : m.heap.Closed
  packages : ∀ e ∈ m.packages.entries, m.heap.kind? e.2 = some .namespace

/-- The same around an enclave that has no package inside. -/
structure Enclave.WellFormed (c : Enclave) (m : Machine) : Prop where
  closed : c.Closed m.heap
  packages : ∀ e ∈ m.packages.entries, c.IsA .namespace m.heap e.2

theorem Enclave.wellFormed_empty {m : Machine} : empty.WellFormed m ↔ m.WellFormed := by
  constructor
  · exact fun hm => ⟨closed_empty.mp hm.closed, fun e he => (hm.packages e he).1⟩
  · exact fun hm => ⟨closed_empty.mpr hm.closed, fun e he => ⟨hm.packages e he, id⟩⟩

/-- On a well-formed machine with the heap `h` both actions do the same: they leave a well-formed
machine that keeps all objects, and a result stands to the heap then as `post` says. -/
def Alike (c : Enclave) (h : Heap) (post : Heap → α → Prop) (x y : Exec α) : Prop :=
  ∀ ⦃m : Machine⦄, c.WellFormed m → m.heap = h → y.outcome m = x.outcome m ∧
    c.WellFormed (x.outcome m).2 ∧ h.KeepsKinds (x.outcome m).2.heap ∧
    ∀ a, (x.outcome m).1 = .ok a → post (x.outcome m).2.heap a

/-- The action is well behaved on well-formed machines with the heap `h`. -/
abbrev Tame (c : Enclave) (h : Heap) (post : Heap → α → Prop) (x : Exec α) : Prop := Alike c h post x x

/-- Nothing is known of the result. -/
def Anything (_ : Heap) (_ : α) : Prop := True

open Enclave

/-! ## Rules -/

namespace Alike

variable {h : Heap} {post : Heap → α → Prop} {next : Heap → β → Prop}

/-- What is known of well-formed machines with this heap may be used. -/
theorem knowing {x y : Exec α} (hxy : ∀ m : Machine, c.WellFormed m → m.heap = h → Alike c h post x y) :
    Alike c h post x y := fun m hm hh => hxy m hm hh hm hh

theorem mono {post' : Heap → α → Prop} {x y : Exec α} (hxy : Alike c h post x y)
    (hpost : ∀ h' a, h.KeepsKinds h' → post h' a → post' h' a) : Alike c h post' x y := by
  intro m hm hh
  obtain ⟨heq, hwell, hkeeps, hresult⟩ := hxy hm hh
  exact ⟨heq, hwell, hkeeps, fun a ha => hpost _ a hkeeps (hresult a ha)⟩

theorem left {x y : Exec α} (hxy : Alike c h post x y) : Tame c h post x :=
  fun _ hm hh => ⟨rfl, (hxy hm hh).2⟩

theorem bind {x y : Exec α} {f g : α → Exec β} (hxy : Alike c h post x y)
    (hfg : ∀ h' a, h.KeepsKinds h' → post h' a → Alike c h' next (f a) (g a)) :
    Alike c h next (x >>= f) (y >>= g) := by
  intro m hm hh
  obtain ⟨heq, hwell, hkeeps, hresult⟩ := hxy hm hh
  rw [outcome_bind, outcome_bind, heq]
  rcases hxm : x.outcome m with ⟨e | a, m'⟩ <;> rw [hxm] at hwell hkeeps hresult
  · exact ⟨rfl, hwell, hkeeps, fun _ ha => by cases ha⟩
  · obtain ⟨heq', hwell', hkeeps', hresult'⟩ := hfg m'.heap a hkeeps (hresult a rfl) hwell rfl
    exact ⟨heq', hwell', hkeeps.trans hkeeps', hresult'⟩

/-- Looking at the machine. -/
theorem look {x : Exec α} (view : Machine → α) (hx : ∀ m, x.outcome m = (.ok (view m), m))
    {f g : α → Exec β}
    (hfg : ∀ m : Machine, c.WellFormed m → m.heap = h → Alike c h next (f (view m)) (g (view m))) :
    Alike c h next (x >>= f) (x >>= g) := by
  intro m hm hh
  rw [outcome_bind_ok (hx m), outcome_bind_ok (hx m)]
  exact hfg m hm hh hm hh

/-- Looking at the machine, whatever is seen. -/
theorem view {x : Exec α} (hx : ∀ m, ∃ a, x.outcome m = (.ok a, m)) {f g : α → Exec β}
    (hfg : ∀ a, Alike c h next (f a) (g a)) : Alike c h next (x >>= f) (x >>= g) := by
  intro m hm hh
  obtain ⟨a, ha⟩ := hx m
  rw [outcome_bind_ok ha, outcome_bind_ok ha]
  exact hfg a hm hh

theorem afterHeap {f g : Heap → Exec β} (hfg : c.Closed h → Alike c h next (f h) (g h)) :
    Alike c h next (heap >>= f) (heap >>= g) :=
  look (·.heap) (fun _ => rfl) fun _ hm hh => hh ▸ hfg (hh ▸ hm.closed)

theorem afterDescribe {v : Value} {f g : String → Exec β}
    (hfg : ∀ text, Alike c h next (f text) (g text)) :
    Alike c h next (describe v >>= f) (describe v >>= g) :=
  look (·.heap.describe v) (fun _ => rfl) fun _ _ _ => hfg _

theorem afterAttribute {v : Value} (hv : c.Outside v) {name : String} {f g : Option Value → Exec β}
    (hfg : ∀ found, c.HasIf h found → Alike c h next (f found) (g found)) :
    Alike c h next (attribute? v name >>= f) (attribute? v name >>= g) :=
  look (·.heap.attribute? v name) (fun _ => rfl) fun _ hm hh => hfg _ (hh ▸ hm.closed.attribute? hv name)

theorem afterItems {v : Value} (hv : c.Outside v) {f g : List Value → Exec β}
    (hfg : ∀ items, c.HasAll h items → Alike c h next (f items) (g items)) :
    Alike c h next (items v >>= f) (items v >>= g) :=
  look (fun m => (m.heap.items? v).getD []) (fun _ => rfl) fun _ hm hh => hfg _ (hh ▸ hm.closed.getItems hv)

theorem afterGlobal {name : String} {f g : Option Value → Exec β}
    (hfg : ∀ found, c.HasIf h found → Alike c h next (f found) (g found)) :
    Alike c h next (global? name >>= f) (global? name >>= g) :=
  look (·.heap.resolve? rootScope (Script.dotParts name)) (fun _ => rfl) fun _ hm hh =>
    hfg _ (hh ▸ hm.closed.resolve? hm.closed.spares_root _)

theorem mapM {f g : γ → Exec α} (hpost : ∀ h' h'' a, h'.KeepsKinds h'' → post h' a → post h'' a)
    (items : List γ) (hfg : ∀ h' i, h.KeepsKinds h' → i ∈ items → Alike c h' post (f i) (g i)) :
    Alike c h (fun h' made => ∀ a ∈ made, post h' a) (items.mapM f) (items.mapM g) := by
  induction items generalizing h with
  | nil => exact fun m hm hh => ⟨rfl, hm, hh ▸ .refl _, fun _ ha => by cases ha; simp⟩
  | cons i rest ih =>
      rw [List.mapM_cons, List.mapM_cons]
      refine (hfg h i (.refl h) List.mem_cons_self).bind fun h₁ a hkeeps ha => ?_
      have hrest := ih (h := h₁) fun h' j hkeeps' hj =>
        hfg h' j (hkeeps.trans hkeeps') (List.mem_cons_of_mem _ hj)
      refine hrest.bind fun h₂ made hkeeps' hmade => ?_
      refine fun m hm hh => ⟨rfl, hm, hh ▸ .refl _, fun _ heq => ?_⟩
      cases heq
      exact List.forall_mem_cons.mpr ⟨hpost _ _ a (hh ▸ hkeeps') ha, hh ▸ hmade⟩

theorem forIn {f g : γ → PUnit → Exec (ForInStep PUnit)} (items : List γ)
    (hfg : ∀ h' i, h.KeepsKinds h' → i ∈ items → Alike c h' Anything (f i ⟨⟩) (g i ⟨⟩)) :
    Alike c h Anything (ForIn.forIn items PUnit.unit f) (ForIn.forIn items PUnit.unit g) := by
  induction items generalizing h with
  | nil => exact fun m hm hh => ⟨rfl, hm, hh ▸ .refl _, fun _ _ => trivial⟩
  | cons i rest ih =>
      rw [List.forIn_cons, List.forIn_cons]
      refine (hfg h i (.refl h) List.mem_cons_self).bind fun h₁ result hkeeps _ => ?_
      cases result with
      | done b => exact fun m hm hh => ⟨rfl, hm, hh ▸ .refl _, fun _ _ => trivial⟩
      | yield b =>
          exact ih fun h' j hkeeps' hj => hfg h' j (hkeeps.trans hkeeps') (List.mem_cons_of_mem _ hj)

end Alike

/-! ## Basic actions -/

namespace Tame

variable {h : Heap} {post : Heap → α → Prop}

theorem pure {a : α} (ha : post h a) : Tame c h post (Pure.pure a : Exec α) := by
  rintro m hm rfl
  exact ⟨rfl, hm, .refl _, fun _ heq => Except.ok.inj heq ▸ ha⟩

theorem done {a : α} : Tame c h Anything (Pure.pure a : Exec α) := pure trivial

theorem throw (e : RunError) : Tame c h post (MonadExcept.throw e : Exec α) := by
  rintro m hm rfl
  exact ⟨rfl, hm, .refl _, fun _ heq => by cases heq⟩

theorem unsupported (part : Unsupported) : Tame c h post (Exec.unsupported part : Exec α) := throw _

theorem typeFault (fault : TypeFault) : Tame c h post (Exec.typeFault fault : Exec α) := throw _

theorem ofExcept {result : Except RunError α} (hresult : ∀ a, result = .ok a → post h a) :
    Tame c h post (MonadExcept.ofExcept result : Exec α) := by
  cases result with
  | ok a => exact pure (hresult a rfl)
  | error e => exact throw e

/-- Changing the machine beside its heap and its packages. -/
theorem touch {change : Machine → Machine} (hheap : ∀ m, (change m).heap = m.heap)
    (hpackages : ∀ m, (change m).packages = m.packages) :
    Tame c h Anything (MonadState.modifyGet (fun m => ((), change m)) : Exec Unit) := by
  rintro m hm rfl
  refine ⟨rfl, ⟨?_, ?_⟩, ?_, fun _ _ => trivial⟩
  · exact (hheap m).symm ▸ hm.closed
  · change ∀ e ∈ (change m).packages.entries, c.IsA .namespace (change m).heap e.2
    rw [hheap, hpackages]
    exact hm.packages
  · change m.heap.KeepsKinds (change m).heap
    rw [hheap]
    exact .refl _

theorem modifyHeap {change : Heap → Heap} (hchange : c.Closed h → c.Evolves h (change h)) :
    Tame c h Anything (Exec.modifyHeap change) := by
  rintro m hm rfl
  have hevolves := hchange hm.closed
  exact ⟨rfl, ⟨hevolves.closed, fun e he => (hm.packages e he).mono hevolves.keeps⟩, hevolves.keeps,
    fun _ _ => trivial⟩

theorem alloc {o : Object} (ho : c.Within h o) : Tame c h (c.HasKind o.kind) (Exec.alloc o) := by
  rintro m hm rfl
  have hpush := hm.closed.push ho
  refine ⟨rfl, ⟨hpush.closed, fun e he => (hm.packages e he).mono hpush.keeps⟩, hpush.keeps, fun v hv => ?_⟩
  cases hv
  exact ⟨_, rfl, Heap.kind?_push m.heap o, hm.closed.not_inside_size⟩

/-- A new object of any kind. -/
theorem made {o : Object} (ho : c.Within h o) : Tame c h c.Has (Exec.alloc o) :=
  (alloc ho).mono fun _ _ _ hv => hv.has

theorem list {items : List Value} (hitems : c.HasAll h items) : Tame c h c.Has (Exec.list items) :=
  made (.list hitems)

theorem dict {entries : Dict} (hentries : c.Within h (.dict entries)) : Tame c h c.Has (Exec.dict entries) :=
  made hentries

theorem emptyDict : Tame c h c.Has (Exec.dict {}) := dict (.of_nil rfl rfl)

theorem bytes (data : Bytes) : Tame c h c.Has (Exec.bytes data) := made (o := .bytes data) (.of_nil rfl rfl)

theorem record (module name : String) {class? : Option Nat}
    (hclass : ∀ id, class? = some id → c.Has h (.ref id)) :
    Tame c h c.Has (Exec.record module name class?) := by
  refine made (o := .instance { module, name, class? }) (.of_parts (fun v hv => ?_) rfl)
  cases class? with
  | none => cases hv
  | some id =>
      obtain rfl : v = .ref id := by simpa [Object.parts, OrderedMap.values] using hv
      exact hclass id rfl

theorem plainRecord (module name : String) : Tame c h c.Has (Exec.record module name none) :=
  record module name fun _ hid => by cases hid

theorem placeholder (name : String) : Tame c h c.Has (Exec.placeholder name) := by
  refine Alike.bind (touch (fun _ => rfl) fun _ => rfl) fun h' _ _ _ => ?_
  exact plainRecord (splitQualified name).1 (splitQualified name).2

section

variable {target v : Value} (htarget : c.Outside target)
include htarget

theorem setAttribute (name : String) (hv : c.Has h v) : Tame c h Anything (Exec.setAttribute target name v) :=
  modifyHeap fun hh => hh.setAttribute htarget name hv

theorem setAttributes {entries : List (String × Value)} (hentries : ∀ e ∈ entries, c.Has h e.2) :
    Tame c h Anything (Exec.setAttributes target entries) :=
  modifyHeap fun hh => hh.setAttributes htarget hentries

theorem setItem {index : Value} (hindex : c.Has h index) (hv : c.Has h v) :
    Tame c h Anything (Exec.modifyHeap (·.setItem target index v)) :=
  modifyHeap fun hh => hh.setItem htarget hindex hv

theorem mergeEntries {entries : Dict} (hentries : c.Within h (.dict entries)) :
    Tame c h Anything (Exec.mergeEntries target entries) :=
  modifyHeap fun hh => hh.setItems htarget fun _ he => hentries.entry he

end

theorem assign {scope : Scope} (hscope : c.Spares scope) (name : String) {v : Value} (hv : c.Has h v) :
    Tame c h Anything (Exec.assign scope name v) :=
  modifyHeap fun hh => hh.assign hscope name hv

theorem bindGlobal (name : String) {v : Value} (hv : c.Has h v) : Tame c h Anything (Exec.bindGlobal name v) :=
  modifyHeap fun hh => hh.bind hh.spares_root _ hv

/-- A new record may hold whatever is outside. -/
theorem recordWith (module name : String) {entries : List (String × Value)}
    (hentries : ∀ e ∈ entries, c.Has h e.2) :
    Tame c h c.Has (do
      let made ← Exec.record module name
      Exec.setAttributes made entries
      return made) := by
  refine (plainRecord module name).bind fun h' v hkeeps hv => ?_
  have hset := setAttributes hv.outside fun e he => (hentries e he).mono hkeeps
  exact hset.bind fun _ _ hkeeps' _ => pure (hv.mono hkeeps')

end Tame

end ModelGraph
