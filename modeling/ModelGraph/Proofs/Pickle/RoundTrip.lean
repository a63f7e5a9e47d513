import Mathlib.Data.List.Nodup
import ModelGraph.Proofs.Pickle.Growth
import ModelGraph.Proofs.Pickle.Passing

/-!
# Unpickling undoes pickling

The pickle of an item leads to the item's value on the stack, in any state of the load. The induction
is over the graph: the parts of its newest object are written by the writer of the older ones.
-/

namespace ModelGraph.Pickle

/-! ## Writers -/

section Writers

variable {τ : Type} {n : Nat} (persistent : Value → Restore τ Value) (w : Workspace τ) {size : Nat}
  (numbering : Numbering size)

/-- Every object met so far is in the memo, with its place. -/
def Remembers (number : Nat → Nat) (seen : List Nat) (place : Nat → Nat)
    (memo : OrderedMap Nat Value) : Prop :=
  ∀ j ∈ seen, memo.get? (number j) = some (.ref (place j))

/-- A writer's bytes push values, in any state of the load that remembers what has been met. Afterwards
the load remembers what has been met by then, the parts of the values among it. -/
def Writes (g : ObjectGraph n) (write : List Nat → Bytes × List Nat)
    (values : (Nat → Nat) → List Value) (parts : List Nat) : Prop :=
  ∀ seen place stack marks memo h, (∀ j ∈ seen, j < size) →
    Remembers numbering.number seen place memo →
    ∃ place' memo' h', Grows g seen (write seen).2 place place' h h' ∧
      Remembers numbering.number (write seen).2 place' memo' ∧ parts ⊆ (write seen).2 ∧
      Passes persistent w (write seen).1 ⟨stack, marks, memo⟩ h
        ⟨(values place').reverse ++ stack, marks, memo'⟩ h'

variable {persistent w numbering}

theorem Remembers.put {seen : List Nat} {place : Nat → Nat} {memo : OrderedMap Nat Value}
    (h : Remembers numbering.number seen place memo) (hseen : ∀ j ∈ seen, j < size) {k : Nat}
    (hk : k < size) (id : Nat) :
    Remembers numbering.number (k :: seen) (Function.update place k id)
      (memo.insert (numbering.number k) (.ref id)) := by
  intro j hj
  by_cases hjk : j = k
  · rw [hjk, OrderedMap.get?_insert_self, Function.update_self]
  · have hmem : j ∈ seen := (List.mem_cons.mp hj).resolve_left hjk
    have hnumber : numbering.number j ≠ numbering.number k := fun heq =>
      hjk (numbering.injective j (hseen j hmem) k hk heq)
    rw [OrderedMap.get?_insert_of_ne _ hnumber, Function.update_of_ne hjk, h j hmem]

variable {g : ObjectGraph n}

/-- Bytes that push values without objects. -/
theorem Writes.of_passes {bytes : Bytes} {values : List Value}
    (hpasses : ∀ stack marks memo h, Passes persistent w bytes ⟨stack, marks, memo⟩ h
      ⟨values.reverse ++ stack, marks, memo⟩ h) :
    Writes persistent w numbering g (fun seen => (bytes, seen)) (fun _ => values) [] := by
  intro seen place stack marks memo h _ hremembers
  exact ⟨place, memo, h, Grows.refl g seen place h, hremembers, by simp, hpasses _ _ _ _⟩

theorem writes_scalar {bytes : Bytes} {v : Value}
    (hpasses : ∀ work h, Passes persistent w bytes work h (work.push v) h) :
    Writes persistent w numbering g (fun seen => (bytes, seen)) (fun _ => [v]) [] :=
  Writes.of_passes fun _ _ _ _ => hpasses _ _

/-- Writers in sequence. -/
theorem Writes.append {write₁ write₂ : List Nat → Bytes × List Nat}
    {values₁ values₂ : (Nat → Nat) → List Value} {parts₁ parts₂ : List Nat} (hn : n ≤ size)
    (h₁ : Writes persistent w numbering g write₁ values₁ parts₁)
    (h₂ : Writes persistent w numbering g write₂ values₂ parts₂)
    (hvalues : ∀ place place', (∀ j ∈ parts₁, place' j = place j) →
      values₁ place' = values₁ place) :
    Writes persistent w numbering g
      (fun seen => ((write₁ seen).1 ++ (write₂ (write₁ seen).2).1, (write₂ (write₁ seen).2).2))
      (fun place => values₁ place ++ values₂ place) (parts₁ ++ parts₂) := by
  intro seen place stack marks memo h hseen hremembers
  obtain ⟨place₁, memo₁, h₁', hgrows₁, hremembers₁, hparts₁, hpasses₁⟩ :=
    h₁ seen place stack marks memo h hseen hremembers
  have hseen₁ := hgrows₁.lt_size hn hseen
  obtain ⟨place₂, memo₂, h₂', hgrows₂, hremembers₂, hparts₂, hpasses₂⟩ :=
    h₂ _ place₁ ((values₁ place₁).reverse ++ stack) marks memo₁ h₁' hseen₁ hremembers₁
  have hsame : values₁ place₂ = values₁ place₁ :=
    hvalues place₁ place₂ fun j hj => hgrows₂.place_eq j (hparts₁ hj)
  refine ⟨place₂, memo₂, h₂', hgrows₁.trans hgrows₂, hremembers₂, ?_, ?_⟩
  · exact List.append_subset.mpr ⟨List.Subset.trans hparts₁ hgrows₂.subset, hparts₂⟩
  · dsimp only
    rw [hsame, List.reverse_append, List.append_assoc]
    exact hpasses₁.append hpasses₂

/-- A writer of objects by their numbers. -/
def WritesObjects (persistent : Value → Restore τ Value) (w : Workspace τ)
    (numbering : Numbering size) (g : ObjectGraph n) (object : Nat → List Nat → Bytes × List Nat) :
    Prop :=
  ∀ j < n, Writes persistent w numbering g (object j) (fun place => [.ref (place j)]) [j]

variable {object : Nat → List Nat → Bytes × List Nat}

theorem writes_item (hobject : WritesObjects persistent w numbering g object) (item : Item n) :
    Writes persistent w numbering g (encodeItem object item) (fun place => [item.value place])
      item.part?.toList := by
  cases item with
  | none => exact writes_scalar (passes_none persistent w)
  | bool b => exact writes_scalar (passes_bool persistent w b)
  | int i => exact writes_scalar (passes_int persistent w i)
  | float bits => exact writes_scalar (passes_float persistent w bits)
  | text s => exact writes_scalar (passes_text persistent w s)
  | object j => exact hobject j j.isLt

theorem writes_items (hn : n ≤ size) (hobject : WritesObjects persistent w numbering g object)
    (items : List (Item n)) :
    Writes persistent w numbering g (encodeItems object items)
      (fun place => items.map (·.value place)) (items.filterMap Item.part?) := by
  induction items with
  | nil => exact Writes.of_passes fun _ _ _ _ => Passes.refl _ _
  | cons item items ih =>
      have happend := Writes.append hn (writes_item hobject item) ih fun place place' h => by
        rw [item.value_congr fun j hj => h j (by simp [hj])]
      have hparts : (item :: items).filterMap Item.part? =
          item.part?.toList ++ items.filterMap Item.part? := by
        cases hpart : item.part? <;> simp [hpart]
      rw [hparts]
      exact happend

/-- The keys and values of entries. -/
def textEntries (place : Nat → Nat) (entries : List (ShortText × Item n)) : List (String × Value) :=
  entries.map fun e => (e.1.text, e.2.value place)

theorem writes_entries (hn : n ≤ size) (hobject : WritesObjects persistent w numbering g object)
    (entries : List (ShortText × Item n)) :
    Writes persistent w numbering g (encodeEntries object entries)
      (fun place => (textEntries place entries).flatMap fun e => [.str e.1, e.2])
      ((entries.map (·.2)).filterMap Item.part?) := by
  induction entries with
  | nil => exact Writes.of_passes fun _ _ _ _ => Passes.refl _ _
  | cons entry entries ih =>
      obtain ⟨key, item⟩ := entry
      have hkey : Writes persistent w numbering g (fun seen => (encodeText key, seen))
          (fun _ => [.str key.text]) [] := writes_scalar (passes_text persistent w key)
      have hentry := Writes.append hn hkey (writes_item hobject item) fun _ _ _ => rfl
      have happend := Writes.append hn hentry ih fun place place' h => by
        simp only [List.singleton_append]
        rw [item.value_congr fun j hj => h j (by simp [hj])]
      have hparts : (((key, item) :: entries).map (·.2)).filterMap Item.part? =
          [] ++ item.part?.toList ++ (entries.map (·.2)).filterMap Item.part? := by
        cases hpart : item.part? <;> simp [hpart]
      rw [hparts]
      exact happend

/-! ## Objects that are met first -/

/-- The newest object, met first, is pushed in a new place. -/
def WritesNew (persistent : Value → Restore τ Value) (w : Workspace τ)
    (numbering : Numbering size) (older : ObjectGraph n) (newest : Node n)
    (write : List Nat → Bytes × List Nat) : Prop :=
  ∀ seen place stack marks memo h, (∀ j ∈ seen, j < size) →
    Remembers numbering.number seen place memo → n ∉ seen →
    ∃ place' memo' h', Grows (older.add newest) seen (write seen).2 place place' h h' ∧
      Remembers numbering.number (write seen).2 place' memo' ∧ n ∈ (write seen).2 ∧
      Passes persistent w (write seen).1 ⟨stack, marks, memo⟩ h
        ⟨.ref (place' n) :: stack, marks, memo'⟩ h'

variable {older : ObjectGraph n} (hn : n < size)
  (hobject : WritesObjects persistent w numbering older object)

include hn

theorem writesNew_bytes (data : ShortBytes) :
    WritesNew persistent w numbering older (.bytes data)
      (encodeNode object n (numbering.number n) (.bytes data : Node n)) := by
  intro seen place stack marks memo h hseen hremembers hnew
  have hupdates : (h.push (.bytes data.data)).Updates h.size (.bytes data.data)
      (h.push (.bytes data.data)) := ⟨rfl, Heap.get?_push_size h _, fun _ _ => rfl⟩
  refine ⟨Function.update place n h.size, memo.insert (numbering.number n) (.ref h.size),
    h.push (.bytes data.data), ?_, hremembers.put hseen hn h.size, by simp [encodeNode], ?_⟩
  · exact Grows.fill hnew (Grows.refl older (n :: seen) _ _) (by simp [Node.parts, Node.items]) hupdates
  · rw [Function.update_self]
    exact (passes_bytes persistent w data _ h).append
      (passes_put persistent w stack marks memo _ (numbering.short n hn) _)

/-- A container is put on the heap empty, with a place in the memo, and filled with the values above a
mark. -/
theorem writesNew_filled {newest : Node n} {o : Object} {opening closing : UInt8}
    {write : List Nat → Bytes × List Nat} {values : (Nat → Nat) → List Value}
    (hopening : ∀ work h, Passes persistent w [opening] work h (work.push (.ref h.size)) (h.push o))
    (hbody : Writes persistent w numbering older write values newest.parts)
    (hclosing : ∀ place stack marks memo h id, h.get? id = some o →
      ∃ h', h.Updates id (newest.object place) h' ∧
        Passes persistent w [closing]
          ⟨(values place).reverse ++ .ref id :: stack, (stack.length + 1) :: marks, memo⟩ h
          ⟨.ref id :: stack, marks, memo⟩ h') :
    WritesNew persistent w numbering older newest fun seen =>
      ([opening] ++ encodePut (numbering.number n) ++ [0x28] ++ (write (n :: seen)).1 ++ [closing],
        (write (n :: seen)).2) := by
  intro seen place stack marks memo h hseen hremembers hnew
  have hseen' : ∀ j ∈ n :: seen, j < size := List.forall_mem_cons.mpr ⟨hn, hseen⟩
  obtain ⟨place', memo', h', hgrows, hremembers', hparts, hwritten⟩ :=
    hbody (n :: seen) (Function.update place n h.size) (.ref h.size :: stack)
      ((stack.length + 1) :: marks) _ (h.push o) hseen' (hremembers.put hseen hn h.size)
  have hplace : place' n = h.size := by
    rw [hgrows.place_eq n (by simp), Function.update_self]
  have hself : h'.get? h.size = some o := by
    rw [hgrows.get?_eq h.size (by simp), Heap.get?_push_size]
  obtain ⟨filled, hfilled, hclose⟩ := hclosing place' stack marks memo' h' h.size hself
  refine ⟨place', memo', filled, Grows.fill hnew hgrows hparts hfilled, hremembers',
    hgrows.subset (by simp), ?_⟩
  rw [hplace]
  have hopen := ((hopening ⟨stack, marks, memo⟩ h).append
    (passes_put persistent w stack marks memo _ (numbering.short n hn) _)).append
    (passes_mark persistent w (.ref h.size :: stack) marks _ _)
  exact (hopen.append hwritten).append hclose

include hobject

theorem writesNew_list (items : List (Item n)) :
    WritesNew persistent w numbering older (.list items)
      (encodeNode object n (numbering.number n) (.list items)) := by
  refine writesNew_filled hn (passes_emptyList persistent w)
    (writes_items (Nat.le_of_lt hn) hobject items) fun place stack marks memo h id hid => ?_
  refine ⟨h.modify id (appendItems (items.map (·.value place))), Heap.updates_modify hid rfl, ?_⟩
  exact passes_appends persistent w stack marks memo h hid _

omit hn hobject in
/-- Distinct texts are inserted at the end, one after another. -/
theorem dict_textEntries (place : Nat → Nat) {entries : List (ShortText × Item n)}
    (distinct : (entries.map (·.1.text)).Nodup) :
    Object.dict ((textEntries place entries).foldl (fun d e => d.insert (.str e.1) e.2) {}) =
      (Node.dict entries distinct).object place := by
  let added := entries.map fun e => (Key.str e.1.text, e.2.value place)
  have hkeys : (added.map (·.1)).Nodup := by
    have hinjective : Function.Injective Key.str := fun _ _ => Key.str.inj
    have hmap := List.Nodup.map hinjective distinct
    rwa [List.map_map] at hmap ⊢
  have hinsert := OrderedMap.foldl_insert added {} hkeys
  rw [List.foldl_map] at hinsert
  rw [textEntries, List.foldl_map, hinsert]
  rfl

theorem writesNew_dict (entries : List (ShortText × Item n))
    (distinct : (entries.map (·.1.text)).Nodup) :
    WritesNew persistent w numbering older (.dict entries distinct)
      (encodeNode object n (numbering.number n) (.dict entries distinct)) := by
  refine writesNew_filled hn (passes_emptyDict persistent w)
    (writes_entries (Nat.le_of_lt hn) hobject entries) fun place stack marks memo h id hid => ?_
  have hset := updates_setTexts (textEntries place entries) hid
  rw [dict_textEntries place distinct] at hset
  exact ⟨_, hset, passes_setItems persistent w stack marks memo h hid _⟩

theorem writesNew_tuple (items : List (Item n)) :
    WritesNew persistent w numbering older (.tuple items)
      (encodeNode object n (numbering.number n) (.tuple items)) := by
  intro seen place stack marks memo h hseen hremembers hnew
  obtain ⟨place', memo', h', hgrows, hremembers', hparts, hbody⟩ :=
    writes_items (Nat.le_of_lt hn) hobject items seen place stack (stack.length :: marks) memo h
      hseen hremembers
  have hseen' := hgrows.lt_size (Nat.le_of_lt hn) hseen
  have hnew' : n ∉ (encodeItems object items seen).2 := fun hmem =>
    absurd (hgrows.lt_of_new n hmem hnew) (Nat.lt_irrefl n)
  let made : Object := .list (items.map (·.value place'))
  -- No part is the tuple itself, so the values of the parts stay.
  have hobject : (Node.tuple items).object (Function.update place' n h'.size) = made := by
    refine Node.object_congr (.tuple items) fun j hj => Function.update_of_ne ?_ _ _
    exact fun heq => hnew' (heq ▸ hparts hj)
  have hupdates : (h'.push made).Updates h'.size
      ((Node.tuple items).object (Function.update place' n h'.size)) (h'.push made) := by
    rw [hobject]
    exact ⟨rfl, Heap.get?_push_size h' made, fun _ _ => rfl⟩
  have hfill := Grows.fill hnew' (Grows.refl older (n :: (encodeItems object items seen).2) _ _)
    (List.Subset.trans hparts (List.subset_cons_self _ _)) hupdates
  refine ⟨Function.update place' n h'.size, memo'.insert (numbering.number n) (.ref h'.size),
    h'.push made, (hgrows.lift (.tuple items)).trans hfill,
    hremembers'.put hseen' hn h'.size, by simp [encodeNode], ?_⟩
  rw [Function.update_self]
  have hclose := (passes_tuple persistent w stack marks memo' h' (items.map (·.value place'))).append
    (passes_put persistent w stack marks memo' _ (numbering.short n hn) _)
  have hwhole := ((passes_mark persistent w stack marks memo h).append hbody).append hclose
  rwa [← List.append_assoc] at hwhole

end Writers

/-! ## Objects and graphs -/

variable {τ : Type} {n size : Nat}

/-- An object that was met before is fetched from the memo. -/
theorem passes_again (persistent : Value → Restore τ Value) (w : Workspace τ)
    (numbering : Numbering size) {seen : List Nat} {place : Nat → Nat} {memo : OrderedMap Nat Value}
    (hremembers : Remembers numbering.number seen place memo) {j : Nat} (hj : j < size)
    (hmet : j ∈ seen) (stack : List Value) (marks : List Nat) (h : Heap) :
    Passes persistent w (encodeGet (numbering.number j)) ⟨stack, marks, memo⟩ h
      ⟨.ref (place j) :: stack, marks, memo⟩ h :=
  passes_get persistent w stack marks memo h (numbering.short j hj) (hremembers j hmet)

theorem writesNew (persistent : Value → Restore τ Value) (w : Workspace τ)
    (numbering : Numbering size) {older : ObjectGraph n} (hn : n < size)
    {object : Nat → List Nat → Bytes × List Nat}
    (hobject : WritesObjects persistent w numbering older object) (newest : Node n) :
    WritesNew persistent w numbering older newest
      (encodeNode object n (numbering.number n) newest) := by
  cases newest with
  | bytes data => exact writesNew_bytes hn data
  | list items => exact writesNew_list hn hobject items
  | tuple items => exact writesNew_tuple hn hobject items
  | dict entries distinct => exact writesNew_dict hn hobject entries distinct

theorem ObjectGraph.writes (persistent : Value → Restore τ Value) (w : Workspace τ)
    (numbering : Numbering size) (g : ObjectGraph n) (hn : n ≤ size) :
    WritesObjects persistent w numbering g (g.encode numbering.number) := by
  induction g with
  | empty => exact fun j hj => absurd hj (Nat.not_lt_zero j)
  | @add n older newest ih =>
      have holder := ih (Nat.le_of_succ_le hn)
      intro j hj seen place stack marks memo h hseen hremembers
      by_cases hjn : j = n
      · subst hjn
        -- The newest object is written in full only once.
        by_cases hmet : j ∈ seen
        · have hencode : (older.add newest).encode numbering.number j seen =
              (encodeGet (numbering.number j), seen) := by simp [ObjectGraph.encode, hmet]
          rw [hencode]
          exact ⟨place, memo, h, Grows.refl _ seen place h, hremembers, by simpa using hmet,
            passes_again persistent w numbering hremembers hn hmet stack marks h⟩
        · have hencode : (older.add newest).encode numbering.number j seen =
              encodeNode (older.encode numbering.number) j (numbering.number j) newest seen := by
            simp [ObjectGraph.encode, hmet]
          rw [hencode]
          obtain ⟨place', memo', h', hgrows, hremembers', hself, hpasses⟩ :=
            writesNew persistent w numbering hn holder newest seen place stack marks memo h hseen
              hremembers hmet
          exact ⟨place', memo', h', hgrows, hremembers', by simpa using hself, hpasses⟩
      · have hencode : (older.add newest).encode numbering.number j seen =
            older.encode numbering.number j seen := by simp [ObjectGraph.encode, hjn]
        rw [hencode]
        obtain ⟨place', memo', h', hgrows, hrest⟩ :=
          holder j (by omega) seen place stack marks memo h hseen hremembers
        exact ⟨place', memo', h', hgrows.lift newest, hrest⟩

/-! ## Whole pickles -/

theorem ObjectGraph.exists_object? (place : Nat → Nat) (g : ObjectGraph n) {j : Nat} (hj : j < n) :
    ∃ o, g.object? place j = some o := by
  induction g with
  | empty => exact absurd hj (Nat.not_lt_zero j)
  | add older newest ih =>
      unfold ObjectGraph.object?
      split_ifs with hjn
      · exact ⟨_, rfl⟩
      · exact ih (by omega)

/-- A heap holds the objects that can be reached from an item, each in a place of its own that is not
below the first place allowed, with the places of its parts in it. -/
structure ObjectGraph.Copied (g : ObjectGraph n) (root : Item n) (place : Nat → Nat) (first : Nat)
    (h : Heap) : Prop where
  object : ∀ j, g.Reaches root j → ∃ o, g.object? place j = some o ∧ h.get? (place j) = some o
  fresh : ∀ j, g.Reaches root j → first ≤ place j
  distinct : ∀ j k, g.Reaches root j → g.Reaches root k → place j = place k → j = k

/-- What is met from nothing on, with the root among it, is all that can be reached. -/
theorem Grows.copied {g : ObjectGraph n} {root : Item n} {seen : List Nat} {place place' : Nat → Nat}
    {h h' : Heap} (hgrows : Grows g [] seen place place' h h') (hroot : root.part?.toList ⊆ seen) :
    g.Copied root place' h.size h' := by
  have hmet : ∀ j, g.Reaches root j → j ∈ seen := by
    intro j hj
    induction hj with
    | root hpart => exact hroot (by simp [hpart])
    | part _ hpart ih => exact hgrows.new_parts _ ih (by simp) hpart
  constructor
  case object =>
    intro j hj
    obtain ⟨o, ho⟩ := g.exists_object? place' (hgrows.lt_of_new j (hmet j hj) (by simp))
    exact ⟨o, ho, (hgrows.new_object j (hmet j hj) (by simp)).trans ho⟩
  case fresh => exact fun j hj => (hgrows.new_place j (hmet j hj) (by simp)).1
  case distinct =>
    intro j k hj hk
    exact hgrows.distinct j (hmet j hj) k (hmet k hk) (by simp) (by simp)

end ModelGraph.Pickle
