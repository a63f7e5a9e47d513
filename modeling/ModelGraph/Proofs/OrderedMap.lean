import Mathlib.Data.List.Dedup
import Mathlib.Data.List.Induction
import ModelGraph.OrderedMap

/-!
# Insertion into ordered maps

A key is found with the value it was inserted with last; other keys are not touched. A new key goes to
the end. A map with an index has each of its keys once, in the order of their first insertions, and the
index says where; without its index it is the map that the same insertions make of pairs alone.
-/

namespace ModelGraph.OrderedMap

variable {κ υ : Type} [DecidableEq κ]

theorem lookup_insertEntry (key key' : κ) (value : υ) (entries : List (κ × υ)) :
    (insertEntry key value entries).lookup key' =
      if key' = key then some value else entries.lookup key' := by
  induction entries with
  | nil =>
      by_cases h : key' = key
      · simp [insertEntry, h]
      · simp [insertEntry, List.lookup_cons, h, beq_false_of_ne h]
  | cons entry rest ih =>
      obtain ⟨first, old⟩ := entry
      unfold insertEntry
      by_cases hfirst : first = key
      · subst hfirst
        by_cases h : key' = first
        · simp [h]
        · simp [List.lookup_cons, h, beq_false_of_ne h]
      · by_cases h : key' = first
        · simp [hfirst, h]
        · simp [List.lookup_cons, hfirst, ih, beq_false_of_ne h]

theorem get?_insert (m : OrderedMap κ υ) (key key' : κ) (value : υ) :
    (m.insert key value).get? key' = if key' = key then some value else m.get? key' :=
  lookup_insertEntry key key' value m.entries

@[simp] theorem get?_insert_self (m : OrderedMap κ υ) (key : κ) (value : υ) :
    (m.insert key value).get? key = some value := by
  rw [get?_insert, if_pos rfl]

theorem get?_insert_of_ne (m : OrderedMap κ υ) {key key' : κ} (h : key' ≠ key) (value : υ) :
    (m.insert key value).get? key' = m.get? key' := by
  rw [get?_insert, if_neg h]

theorem mem_entries_of_get? {m : OrderedMap κ υ} {key : κ} {value : υ}
    (h : m.get? key = some value) : (key, value) ∈ m.entries := by
  obtain ⟨before, after, heq, -⟩ := List.lookup_eq_some_iff.mp h
  rw [heq]
  exact List.mem_append_right _ List.mem_cons_self

theorem notMem_keys_of_get? {m : OrderedMap κ υ} {key : κ} (h : m.get? key = none) :
    key ∉ m.keys := by
  intro hmem
  obtain ⟨entry, hentry, rfl⟩ := List.mem_map.mp hmem
  have hne := List.lookup_eq_none_iff.mp h entry hentry
  simp at hne

theorem insertEntry_of_notMem {key : κ} (value : υ) {entries : List (κ × υ)}
    (h : key ∉ entries.map (·.1)) : insertEntry key value entries = entries ++ [(key, value)] := by
  induction entries with
  | nil => rfl
  | cons entry rest ih =>
      simp only [List.map_cons, List.mem_cons, not_or] at h
      rw [insertEntry, if_neg (Ne.symm h.1), ih h.2, List.cons_append]

theorem insert_of_get? {m : OrderedMap κ υ} {key : κ} (h : m.get? key = none) (value : υ) :
    m.insert key value = ⟨m.entries ++ [(key, value)]⟩ := by
  rw [insert, insertEntry_of_notMem value (notMem_keys_of_get? h)]

theorem keys_insert_of_get? {m : OrderedMap κ υ} {key : κ} (h : m.get? key = none) (value : υ) :
    (m.insert key value).keys = m.keys ++ [key] := by
  simp [insert_of_get? h, keys]

theorem values_insert_of_get? {m : OrderedMap κ υ} {key : κ} (h : m.get? key = none) (value : υ) :
    (m.insert key value).values = m.values ++ [value] := by
  simp [insert_of_get? h, values]

theorem mem_values_of_get? {m : OrderedMap κ υ} {key : κ} {value : υ} (h : m.get? key = some value) :
    value ∈ m.values :=
  List.mem_map_of_mem (mem_entries_of_get? h)

/-- Where no value is twice, two keys do not share one. -/
theorem eq_of_get?_of_nodup_values {m : OrderedMap κ υ} (hm : m.values.Nodup) {key key' : κ}
    {value : υ} (h : m.get? key = some value) (h' : m.get? key' = some value) : key = key' := by
  have hinj := List.inj_on_of_nodup_map hm (mem_entries_of_get? h) (mem_entries_of_get? h') rfl
  exact congrArg Prod.fst hinj

/-- Inserting entries with new and distinct keys appends them. -/
theorem foldl_insert (added : List (κ × υ)) (m : OrderedMap κ υ)
    (h : (m.entries.map (·.1) ++ added.map (·.1)).Nodup) :
    added.foldl (fun m entry => m.insert entry.1 entry.2) m = ⟨m.entries ++ added⟩ := by
  induction added generalizing m with
  | nil => simp
  | cons entry added ih =>
      obtain ⟨key, value⟩ := entry
      have hnew : key ∉ m.entries.map (·.1) := fun hmem =>
        (List.nodup_append.mp h).2.2 key hmem key (by simp) rfl
      have hinsert : m.insert key value = ⟨m.entries ++ [(key, value)]⟩ := by
        rw [insert, insertEntry_of_notMem value hnew]
      rw [List.foldl_cons, hinsert, ih _ (by simpa using h)]
      simp

theorem get?_of_mem_entries {m : OrderedMap κ υ} (hm : m.keys.Nodup) {key : κ} {value : υ}
    (h : (key, value) ∈ m.entries) : m.get? key = some value := by
  cases hget : m.get? key with
  | none => exact absurd (List.mem_map_of_mem h) (notMem_keys_of_get? hget)
  | some other =>
      have heq := List.inj_on_of_nodup_map hm (mem_entries_of_get? hget) h rfl
      exact congrArg (some ·.2) heq

/-- At the place of a key, the only one, an insertion changes the value. -/
theorem insertEntry_eq_modify {key : κ} (value : υ) {entries : List (κ × υ)}
    (hentries : (entries.map (·.1)).Nodup) {place : Nat}
    (hplace : (entries.map (·.1))[place]? = some key) :
    insertEntry key value entries = entries.modify place fun entry => (entry.1, value) := by
  induction entries generalizing place with
  | nil => simp at hplace
  | cons entry rest ih =>
      rw [List.map_cons, List.nodup_cons] at hentries
      cases place with
      | zero =>
          obtain rfl : entry.1 = key := Option.some.inj hplace
          simp [insertEntry]
      | succ place =>
          have hmem : key ∈ rest.map (·.1) := List.mem_of_getElem? hplace
          have hne : entry.1 ≠ key := fun heq => hentries.1 (heq ▸ hmem)
          rw [insertEntry, if_neg hne, ih hentries.2 hplace, List.modify_succ_cons]

end ModelGraph.OrderedMap

namespace ModelGraph.IndexedMap

/-! ## The index -/

section

variable {κ υ : Type} {m : IndexedMap κ υ} {key : κ} {place : Nat}

/-- The index has exactly the keys, with their places. -/
def Sound (m : IndexedMap κ υ) : Prop :=
  ∀ key place, m.index key = some place ↔ m.keys[place]? = some key

theorem sound_empty : (empty : IndexedMap κ υ).Sound := by simp [Sound, empty, keys]

theorem getElem?_keys (m : IndexedMap κ υ) (place : Nat) :
    m.keys[place]? = m.entries[place]?.map (·.1) := by
  simp [keys]

namespace Sound

theorem index_eq_none_iff (hm : m.Sound) : m.index key = none ↔ key ∉ m.keys := by
  rw [Option.eq_none_iff_forall_ne_some, List.mem_iff_getElem?, not_exists]
  exact forall_congr' fun place => not_congr (hm key place)

theorem contains_iff (hm : m.Sound) : m.contains key ↔ key ∈ m.keys := by
  rw [contains, Option.isSome_iff_ne_none, ne_eq, hm.index_eq_none_iff, not_not]

theorem nodup_keys (hm : m.Sound) : m.keys.Nodup := by
  refine List.nodup_iff_getElem?_ne_getElem?.mpr fun i j hlt hj heq => ?_
  have hkey : m.keys[j]? = some m.keys[j] := List.getElem?_eq_getElem hj
  have hi := (hm _ i).mpr (heq.trans hkey)
  rw [(hm _ j).mpr hkey] at hi
  exact Nat.ne_of_gt hlt (Option.some.inj hi)

/-- Every place of the index has an entry of its key. -/
theorem exists_entry (hm : m.Sound) (h : m.index key = some place) :
    ∃ value, m.entries[place]? = some (key, value) := by
  have hkey := (hm key place).mp h
  rw [getElem?_keys, Option.map_eq_some_iff] at hkey
  obtain ⟨⟨_, value⟩, hentry, rfl⟩ := hkey
  exact ⟨value, hentry⟩

theorem get?_eq_some_iff (hm : m.Sound) {value : υ} :
    m.get? key = some value ↔ (key, value) ∈ m.entries.toList := by
  rw [get?, Option.bind_eq_some_iff]
  constructor
  · rintro ⟨place, hplace, hvalue⟩
    obtain ⟨found, hentry⟩ := hm.exists_entry hplace
    obtain rfl : found = value := by simpa [hentry] using hvalue
    exact List.mem_of_getElem? (by simpa using hentry)
  · intro hmem
    obtain ⟨place, hentry⟩ := List.mem_iff_getElem?.mp hmem
    rw [Array.getElem?_toList] at hentry
    exact ⟨place, (hm key place).mpr (by rw [getElem?_keys, hentry]; rfl), by rw [hentry]; rfl⟩

end Sound

end

variable {κ υ : Type} [DecidableEq κ] {m : IndexedMap κ υ} {key : κ} {place : Nat}

/-! ## One insertion -/

theorem insert_of_index (h : m.index key = some place) (value : υ) :
    m.insert key value =
      { m with entries := m.entries.modify place fun entry => (entry.1, value) } := by
  simp [insert, h]

theorem insert_of_index_eq_none (h : m.index key = none) (value : υ) :
    m.insert key value =
      { entries := m.entries.push (key, value)
        index := fun other => if other = key then some m.entries.size else m.index other } := by
  simp [insert, h]

/-- A key that is there stays the only one in its place. -/
theorem keys_insert_of_index (h : m.index key = some place) (value : υ) :
    (m.insert key value).keys = m.keys := by
  refine List.ext_getElem? fun i => ?_
  rw [insert_of_index h, getElem?_keys, getElem?_keys, Array.getElem?_modify]
  split_ifs <;> simp [Option.map_map, Function.comp_def]

theorem keys_insert_of_index_eq_none (h : m.index key = none) (value : υ) :
    (m.insert key value).keys = m.keys ++ [key] := by
  simp [insert_of_index_eq_none h, keys]

namespace Sound

theorem insert (hm : m.Sound) (key : κ) (value : υ) : (m.insert key value).Sound := by
  intro other place
  cases h : m.index key with
  | some _ =>
      rw [keys_insert_of_index h, insert_of_index h]
      exact hm other place
  | none =>
      have hsize : m.entries.size = m.keys.length := by simp [keys]
      rw [keys_insert_of_index_eq_none h, insert_of_index_eq_none h]
      by_cases hother : other = key
      · subst hother
        have hnew := hm.index_eq_none_iff.mp h
        simp only [if_true, Option.some.injEq, hsize]
        constructor
        · rintro rfl
          simp
        · intro hplace
          rcases Nat.lt_trichotomy place m.keys.length with hlt | heq | hgt
          · rw [List.getElem?_append_left hlt] at hplace
            exact absurd (List.mem_of_getElem? hplace) hnew
          · exact heq.symm
          · rw [List.getElem?_eq_none (by simp; omega)] at hplace
            cases hplace
      · simp only [if_neg hother, hm other place]
        rcases Nat.lt_or_ge place m.keys.length with hlt | hge
        · rw [List.getElem?_append_left hlt]
        · rw [List.getElem?_eq_none hge, List.getElem?_append_right hge]
          cases place - m.keys.length <;> simp [Ne.symm hother]

theorem get?_insert (hm : m.Sound) (key other : κ) (value : υ) :
    (m.insert key value).get? other = if other = key then some value else m.get? other := by
  cases h : m.index key with
  | some place =>
      obtain ⟨old, hentry⟩ := hm.exists_entry h
      rw [insert_of_index h]
      simp only [get?, Array.getElem?_modify]
      by_cases hother : other = key
      · simp [hother, h, hentry]
      · rw [if_neg hother]
        -- Two keys have no place in common.
        refine Option.bind_congr fun place' hplace' => ?_
        have hne : place ≠ place' := by
          rintro rfl
          have hkey := (hm _ _).mp h
          rw [(hm _ _).mp hplace'] at hkey
          exact hother (Option.some.inj hkey)
        rw [if_neg hne]
  | none =>
      rw [insert_of_index_eq_none h]
      simp only [get?]
      by_cases hother : other = key
      · simp [hother]
      · rw [if_neg hother, if_neg hother]
        refine Option.bind_congr fun place hplace => ?_
        obtain ⟨old, hentry⟩ := hm.exists_entry hplace
        rw [Array.getElem?_push, if_neg (Nat.ne_of_lt (Array.getElem?_eq_some_iff.mp hentry).1)]

/-- Without their indexes, maps take an insertion alike. -/
theorem toOrderedMap_insert (hm : m.Sound) (key : κ) (value : υ) :
    (m.insert key value).toOrderedMap = m.toOrderedMap.insert key value := by
  cases h : m.index key with
  | some place =>
      rw [insert_of_index h, toOrderedMap, toOrderedMap, OrderedMap.insert, Array.toList_modify,
        OrderedMap.insertEntry_eq_modify value hm.nodup_keys ((hm key place).mp h)]
  | none =>
      rw [insert_of_index_eq_none h, toOrderedMap, toOrderedMap, OrderedMap.insert, Array.toList_push,
        OrderedMap.insertEntry_of_notMem value (hm.index_eq_none_iff.mp h)]

theorem get?_toOrderedMap (hm : m.Sound) (key : κ) : m.toOrderedMap.get? key = m.get? key := by
  refine Option.ext fun value => ?_
  rw [hm.get?_eq_some_iff]
  have hnodup : m.toOrderedMap.keys.Nodup := hm.nodup_keys
  exact ⟨OrderedMap.mem_entries_of_get?, OrderedMap.get?_of_mem_entries hnodup⟩

end Sound

/-- An insertion leaves the entries of other keys as they are, in their places. -/
theorem getElem?_insert_of_ne {entry : κ × υ} (hentry : m.entries[place]? = some entry)
    (hne : entry.1 ≠ key) (hm : m.Sound) (value : υ) :
    (m.insert key value).entries[place]? = some entry := by
  cases h : m.index key with
  | some place' =>
      obtain ⟨old, hold⟩ := hm.exists_entry h
      have hplace : place' ≠ place := by
        rintro rfl
        rw [hold] at hentry
        exact hne (congrArg Prod.fst (Option.some.inj hentry)).symm
      rw [insert_of_index h, Array.getElem?_modify, if_neg hplace, hentry]
  | none =>
      rw [insert_of_index_eq_none h, Array.getElem?_push,
        if_neg (Nat.ne_of_lt (Array.getElem?_eq_some_iff.mp hentry).1), hentry]

/-! ## Sequences of insertions -/

theorem ofList_append (inserted : List (κ × υ)) (key : κ) (value : υ) :
    ofList (inserted ++ [(key, value)]) = (ofList inserted).insert key value := by
  simp [ofList]

theorem sound_ofList (inserted : List (κ × υ)) : (ofList inserted).Sound := by
  induction inserted using List.reverseRecOn with
  | nil => exact sound_empty
  | append_singleton inserted last ih =>
      rw [ofList_append]
      exact ih.insert _ _

/-- A map built from a list of insertions is the one that they make of pairs alone. -/
theorem toOrderedMap_ofList (inserted : List (κ × υ)) :
    (ofList inserted).toOrderedMap = inserted.foldl (fun m e => m.insert e.1 e.2) .empty := by
  induction inserted using List.reverseRecOn with
  | nil => rfl
  | append_singleton inserted last ih =>
      rw [ofList_append, (sound_ofList inserted).toOrderedMap_insert, ih, List.foldl_concat]

/-- A key has the value of the last insertion under it. -/
theorem get?_ofList (inserted : List (κ × υ)) (key : κ) :
    (ofList inserted).get? key = inserted.reverse.lookup key := by
  induction inserted using List.reverseRecOn with
  | nil => rfl
  | append_singleton inserted last ih =>
      rw [ofList_append, (sound_ofList inserted).get?_insert, ih, List.reverse_concat,
        List.lookup_cons]
      by_cases h : key = last.1
      · simp [h]
      · simp [h, beq_false_of_ne h]

theorem mem_keys_ofList_iff (inserted : List (κ × υ)) (key : κ) :
    key ∈ (ofList inserted).keys ↔ key ∈ inserted.map (·.1) := by
  induction inserted using List.reverseRecOn with
  | nil => rfl
  | append_singleton inserted last ih =>
      rw [ofList_append, List.map_append, List.mem_append, ← ih, List.map_singleton,
        List.mem_singleton]
      cases h : (ofList inserted).index last.1 with
      | some place =>
          have hmem := List.mem_of_getElem? ((sound_ofList inserted _ _).mp h)
          rw [keys_insert_of_index h]
          exact ⟨.inl, fun hor => hor.elim id fun heq => heq ▸ hmem⟩
      | none => rw [keys_insert_of_index_eq_none h, List.mem_append, List.mem_singleton]

/-- The keys stand in the order of their first insertions. -/
theorem pairwise_keys_ofList (inserted : List (κ × υ)) :
    (ofList inserted).keys.Pairwise fun a b =>
      (inserted.map (·.1)).idxOf a < (inserted.map (·.1)).idxOf b := by
  induction inserted using List.reverseRecOn with
  | nil => exact .nil
  | append_singleton inserted last ih =>
      have hkept : ∀ key ∈ (ofList inserted).keys,
          ((inserted ++ [last]).map (·.1)).idxOf key = (inserted.map (·.1)).idxOf key := by
        intro key hkey
        rw [List.map_append, List.idxOf_append_of_mem ((mem_keys_ofList_iff inserted key).mp hkey)]
      have hordered : (ofList inserted).keys.Pairwise fun a b =>
          ((inserted ++ [last]).map (·.1)).idxOf a < ((inserted ++ [last]).map (·.1)).idxOf b :=
        ih.imp_of_mem fun ha hb hlt => by rwa [hkept _ ha, hkept _ hb]
      rw [ofList_append]
      cases h : (ofList inserted).index last.1 with
      | some place => rwa [keys_insert_of_index h]
      | none =>
          have hnew := (sound_ofList inserted).index_eq_none_iff.mp h
          rw [keys_insert_of_index_eq_none h]
          refine List.pairwise_append.mpr ⟨hordered, List.pairwise_singleton _ _, ?_⟩
          intro key hkey other hother
          obtain rfl := List.mem_singleton.mp hother
          rw [hkept key hkey, List.map_append,
            List.idxOf_append_of_notMem fun hmem => hnew ((mem_keys_ofList_iff inserted _).mpr hmem)]
          exact Nat.lt_add_right _
            (List.idxOf_lt_length_iff.mpr ((mem_keys_ofList_iff inserted key).mp hkey))

/-- What a map has to hold after a list of insertions. -/
structure Holds (m : IndexedMap κ υ) (inserted : List (κ × υ)) : Prop where
  nodup_keys : m.keys.Nodup
  mem_keys_iff : ∀ key, key ∈ m.keys ↔ key ∈ inserted.map (·.1)
  pairwise_keys : m.keys.Pairwise fun a b =>
    (inserted.map (·.1)).idxOf a < (inserted.map (·.1)).idxOf b
  size_eq : m.size = (inserted.map (·.1)).dedup.length
  index_eq_some_iff : ∀ key place, m.index key = some place ↔ m.keys[place]? = some key
  get?_eq : ∀ key, m.get? key = inserted.reverse.lookup key
  contains_iff : ∀ key, m.contains key ↔ key ∈ inserted.map (·.1)
  mem_entries_iff : ∀ key value,
    (key, value) ∈ m.entries.toList ↔ inserted.reverse.lookup key = some value

/-- Whatever the insertions, the map holds them; a further one leaves the entries of other keys as they
are in their places; and the same insertions without an index make the same map. -/
theorem holds_ofList (inserted : List (κ × υ)) :
    (ofList inserted).Holds inserted ∧
      (∀ (key : κ) (value : υ) (place : Nat) (entry : κ × υ),
        (ofList inserted).entries[place]? = some entry → entry.1 ≠ key →
          ((ofList inserted).insert key value).entries[place]? = some entry) ∧
      (ofList inserted).toOrderedMap = inserted.foldl (fun m e => m.insert e.1 e.2) .empty ∧
      ∀ key, (ofList inserted).toOrderedMap.get? key = (ofList inserted).get? key := by
  have hsound := sound_ofList inserted
  have hperm : (ofList inserted).keys.Perm (inserted.map (·.1)).dedup :=
    (List.perm_ext_iff_of_nodup hsound.nodup_keys (List.nodup_dedup _)).mpr fun key =>
      (mem_keys_ofList_iff inserted key).trans List.mem_dedup.symm
  refine ⟨?_, fun _ value _ _ hentry hne => getElem?_insert_of_ne hentry hne hsound value,
    toOrderedMap_ofList inserted, hsound.get?_toOrderedMap⟩
  exact {
    nodup_keys := hsound.nodup_keys
    mem_keys_iff := mem_keys_ofList_iff inserted
    pairwise_keys := pairwise_keys_ofList inserted
    size_eq := by rw [← hperm.length_eq]; simp [size, keys]
    index_eq_some_iff := hsound
    get?_eq := get?_ofList inserted
    contains_iff := fun key => hsound.contains_iff.trans (mem_keys_ofList_iff inserted key)
    mem_entries_iff := fun key value => by rw [← get?_ofList, hsound.get?_eq_some_iff] }

end ModelGraph.IndexedMap

namespace ModelGraph.OrderedMap

variable {κ υ : Type} [DecidableEq κ]

theorem ofList_eq_foldl (entries : List (κ × υ)) :
    ofList entries = entries.foldl (fun m e => m.insert e.1 e.2) empty :=
  IndexedMap.toOrderedMap_ofList entries

theorem ofList_of_nodup {entries : List (κ × υ)} (h : (entries.map (·.1)).Nodup) :
    ofList entries = ⟨entries⟩ := by
  rw [ofList_eq_foldl]
  exact foldl_insert entries empty h

end ModelGraph.OrderedMap
