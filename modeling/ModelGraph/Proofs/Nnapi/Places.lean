import Mathlib.Tactic.SplitIfs
import ModelGraph.Proofs.Nnapi.Consumption

/-!
# Readings at places

Whatever stands before a place of the data, a reading from there depends on the bytes behind it only.
A reading spans the part between two places if it succeeds just where the data reach so far and a
condition on their words holds; what it gives is then told by these words. Readings in sequence span
adjoining parts, and so do items that are read one after another.
-/

namespace ModelGraph.Nnapi

/-- The cursor that stands at a place of the data. -/
def Cursor.atPlace (data : Bytes) (place : Nat) : Cursor := ⟨place, data.drop place⟩

def bytesAt (data : Bytes) (place length : Nat) : Bytes := (data.drop place).take length

def signedAt (data : Bytes) (place : Nat) : Int32 :=
  Int32.ofInt (intOfBytes (bytesAt data place 4))

def unsignedAt (data : Bytes) (place : Nat) : UInt32 :=
  UInt32.ofNat (natOfBytes (bytesAt data place 4))

namespace Read

variable {α β : Type}

/-- From the place `start` the reading succeeds just where the data reach to `stop` and the condition
holds. It then gives the value and stands at `stop`. -/
structure Spans (r : Read α) (data : Bytes) (start stop : Nat) (accepts : Prop) (a : α) : Prop where
  start_le : accepts → start ≤ stop
  eq_ok_iff : start ≤ data.length → ∀ b c, r (.atPlace data start) = .ok (b, c) ↔
    (stop ≤ data.length ∧ accepts) ∧ b = a ∧ c = .atPlace data stop

variable {data : Bytes} {start middle stop : Nat} {accepts accepts' : Prop} {a : α} {b : β}
  {r : Read α} {next : α → Read β}

theorem Spans.congr {stop' : Nat} (h : Spans r data start stop accepts a) (hstop : stop = stop')
    (haccepts : accepts ↔ accepts') : Spans r data start stop' accepts' a := by
  obtain rfl := propext haccepts
  exact hstop ▸ h

theorem spans_pure (a : α) : Spans (Read.pure a) data start start True a where
  start_le _ := Nat.le_refl start
  eq_ok_iff hstart b c := by
    constructor
    · intro h
      obtain ⟨rfl, rfl⟩ := Prod.mk.inj (Except.ok.inj h)
      exact ⟨⟨hstart, trivial⟩, rfl, rfl⟩
    · rintro ⟨-, rfl, rfl⟩
      rfl

theorem spans_fail (e : DecodeError) (a : α) : Spans (fail e) data start stop False a where
  start_le h := h.elim
  eq_ok_iff _ b c := by
    constructor
    · intro h
      cases h
    · intro h
      exact h.1.2.elim

theorem spans_bytes (length : Nat) :
    Spans (bytes length) data start (start + length) True (bytesAt data start length) where
  start_le _ := Nat.le_add_right start length
  eq_ok_iff hstart b c := by
    have hrest : (data.drop start).length = data.length - start := List.length_drop
    have hskip : (data.drop start).drop length = data.drop (start + length) := List.drop_drop
    unfold bytes Cursor.atPlace
    dsimp only
    rw [hrest, hskip]
    split_ifs with hshort
    · constructor
      · intro h
        cases h
      · intro h
        omega
    · constructor
      · intro h
        obtain ⟨rfl, rfl⟩ := Prod.mk.inj (Except.ok.inj h)
        exact ⟨⟨by omega, trivial⟩, rfl, rfl⟩
      · rintro ⟨-, rfl, rfl⟩
        rfl

/-! ## Readings in sequence -/

theorem Spans.bind (h : Spans r data start middle accepts a)
    (hnext : accepts → Spans (next a) data middle stop accepts' b) :
    Spans (r >>= next) data start stop (accepts ∧ accepts') b where
  start_le hboth := Nat.le_trans (h.start_le hboth.1) ((hnext hboth.1).start_le hboth.2)
  eq_ok_iff hstart b' c := by
    constructor
    · intro hrun
      obtain ⟨a', c', hfirst, hrest⟩ := exists_of_bind hrun
      obtain ⟨⟨hmiddle, haccepts⟩, rfl, rfl⟩ := (h.eq_ok_iff hstart a' c').mp hfirst
      obtain ⟨⟨hstop, haccepts'⟩, hvalues⟩ := ((hnext haccepts).eq_ok_iff hmiddle b' c).mp hrest
      exact ⟨⟨hstop, haccepts, haccepts'⟩, hvalues⟩
    · rintro ⟨⟨hstop, haccepts, haccepts'⟩, hvalues⟩
      have hmiddle : middle ≤ data.length := 
        Nat.le_trans ((hnext haccepts).start_le haccepts') hstop
      have hfirst := (h.eq_ok_iff hstart a _).mpr ⟨⟨hmiddle, haccepts⟩, rfl, rfl⟩
      change Read.bind r next _ = _
      rw [Read.bind, hfirst]
      exact ((hnext haccepts).eq_ok_iff hmiddle b' c).mpr ⟨⟨hstop, haccepts'⟩, hvalues⟩

/-- A reading that accepts all bytes adds no condition. -/
theorem Spans.andThen (h : Spans r data start middle True a)
    (hnext : Spans (next a) data middle stop accepts b) :
    Spans (r >>= next) data start stop accepts b :=
  (h.bind fun _ => hnext).congr rfl (Iff.of_eq (true_and accepts))

theorem Spans.map (h : Spans r data start stop accepts a) (f : α → β) :
    Spans (r >>= fun a => return f a) data start stop accepts (f a) :=
  (h.bind fun _ => spans_pure (f a)).congr rfl (Iff.of_eq (and_true accepts))

/-- A check before a reading. -/
theorem Spans.unless {refused : Prop} [Decidable refused] (e : DecodeError)
    (h : Spans r data start stop accepts a) :
    Spans (if refused then fail e else r) data start stop (¬ refused ∧ accepts) a := by
  split_ifs with hrefused
  · exact (spans_fail e a).congr rfl (by simp [hrefused])
  · exact h.congr rfl (by simp [hrefused])

theorem spans_signed : Spans signed data start (start + 4) True (signedAt data start) :=
  (spans_bytes 4).map fun bytes => Int32.ofInt (intOfBytes bytes)

theorem spans_unsigned : Spans unsigned data start (start + 4) True (unsignedAt data start) :=
  (spans_bytes 4).map fun bytes => UInt32.ofNat (natOfBytes bytes)

theorem spans_count (what : String) :
    Spans (count what) data start (start + 4) (0 ≤ signedAt data start)
      (signedAt data start).toInt.toNat := by
  apply spans_signed.andThen
  exact ((spans_pure _).unless _).congr rfl (by simp)

theorem spans_checkIndex (index : Int) (count : Nat) :
    Spans (checkIndex index count) data start start (0 ≤ index ∧ index < count) index.toNat := by
  unfold checkIndex
  split_ifs with hindex
  · exact (spans_pure _).congr rfl (by simp [hindex])
  · exact (spans_fail _ _).congr rfl (by simp [hindex])

/-! ## Items one after another -/

theorem Spans.each_from (item : α → Read β) (key : Nat → α) {place : Nat → Nat} {accepts : Nat → Prop}
    {value : Nat → β} (first count : Nat)
    (h : ∀ i, first ≤ i → i < first + count →
      Spans (item (key i)) data (place i) (place (i + 1)) (accepts i) (value i)) :
    Spans (Read.each item ((List.range' first count).map key)) data (place first)
      (place (first + count)) (∀ i, first ≤ i → i < first + count → accepts i)
      ((List.range' first count).map value) := by
  induction count generalizing first with
  | zero =>
      refine (spans_pure []).congr rfl (iff_of_true trivial ?_)
      intro i hfirst hlast
      omega
  | succ count ih =>
      have hrest := ih (first + 1) fun i hfirst hlast => h i (by omega) (by omega)
      rw [Nat.add_right_comm first 1 count] at hrest
      have hone := h first (Nat.le_refl first) (by omega)
      refine (hone.bind fun _ => hrest.map (value first :: ·)).congr rfl ?_
      constructor
      · rintro ⟨hhead, htail⟩ i hfirst hlast
        rcases Nat.eq_or_lt_of_le hfirst with rfl | hlater
        · exact hhead
        · exact htail i hlater (by omega)
      · intro hall
        exact ⟨hall first (Nat.le_refl first) (by omega), fun i hfirst hlast => hall i (by omega) (by omega)⟩

/-- Items that are read one after another span adjoining parts. -/
theorem Spans.each (item : α → Read β) (key : Nat → α) {place : Nat → Nat} {accepts : Nat → Prop}
    {value : Nat → β} (count : Nat)
    (h : ∀ i < count, Spans (item (key i)) data (place i) (place (i + 1)) (accepts i) (value i)) :
    Spans (Read.each item ((List.range count).map key)) data (place 0) (place count)
      (∀ i < count, accepts i) ((List.range count).map value) := by
  have hfrom := Spans.each_from item key 0 count fun i _ hlast => h i (by omega)
  rw [Nat.zero_add] at hfrom
  rw [List.range_eq_range']
  exact hfrom.congr rfl ⟨fun hall i hi => hall i (Nat.zero_le i) hi, fun hall i _ hi => hall i hi⟩

theorem each_const (item : Read β) (as : List α) : each (fun _ => item) as = times item as.length := by
  induction as with
  | nil => rfl
  | cons a as ih => rw [each, ih, List.length_cons, times]

/-- Items that are read as often as a count says. -/
theorem Spans.times {item : Read β} {place : Nat → Nat} {accepts : Nat → Prop} {value : Nat → β}
    (count : Nat)
    (h : ∀ i < count, Spans item data (place i) (place (i + 1)) (accepts i) (value i)) :
    Spans (Read.times item count) data (place 0) (place count) (∀ i < count, accepts i)
      ((List.range count).map value) := by
  have heach := Spans.each (fun _ : Nat => item) id count h
  rwa [each_const, List.length_map, List.length_range] at heach

end Read

end ModelGraph.Nnapi
