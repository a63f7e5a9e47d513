import ModelGraph.Machine.Standard
import ModelGraph.Proofs.Machine.Outcome
import ModelGraph.Proofs.Number.Word

/-!
# Ranges

A range is listed by a loop, its length is found by a division, and the number at a place by a
product. The three agree for steps of either sign.
-/

namespace ModelGraph

open Exec

/-- A number stands before the end of a range, in the direction of its step. -/
def Before (step stop i : Int) : Prop := 0 < step ∧ i < stop ∨ step < 0 ∧ stop < i

/-- The numbers `step` apart from `start` on, as long as they stand before `stop`. -/
def IsRange (start stop step : Int) (items : List Int) : Prop :=
  ∀ (n : Nat) (i : Int), items[n]? = some i ↔ i = start + n * step ∧ Before step stop i

namespace IsRange

variable {start stop step : Int} {items : List Int}

theorem nil (hend : ¬ Before step stop start) : IsRange start stop step [] := by
  refine fun n i => iff_of_false nofun fun ⟨hi, hbefore⟩ => hend ?_
  rcases hbefore with ⟨hstep, hlt⟩ | ⟨hstep, hlt⟩
  · have hpast := Int.mul_nonneg (Int.natCast_nonneg n) (Int.le_of_lt hstep)
    exact .inl ⟨hstep, by omega⟩
  · have hpast := Int.mul_nonpos_of_nonneg_of_nonpos (Int.natCast_nonneg n) (Int.le_of_lt hstep)
    exact .inr ⟨hstep, by omega⟩

theorem cons (hbefore : Before step stop start) (h : IsRange (start + step) stop step items) :
    IsRange start stop step (start :: items) := by
  intro n i
  cases n with
  | zero =>
      rw [List.getElem?_cons_zero, Option.some.injEq, Int.natCast_zero, Int.zero_mul, Int.add_zero]
      exact ⟨fun hi => ⟨hi.symm, hi ▸ hbefore⟩, fun hi => hi.1.symm⟩
  | succ n =>
      have hnext : start + (n + 1 : Nat) * step = start + step + n * step := by
        rw [Int.natCast_succ, Int.add_mul, Int.one_mul]
        omega
      rw [List.getElem?_cons_succ, hnext, h n i]

theorem getElem_eq (h : IsRange start stop step items) {n : Nat} (hn : n < items.length) :
    items[n] = start + n * step ∧ Before step stop items[n] :=
  (h n _).mp (List.getElem?_eq_getElem hn)

theorem lt_length_iff (h : IsRange start stop step items) (n : Nat) :
    n < items.length ↔ Before step stop (start + n * step) := by
  constructor
  · intro hn
    obtain ⟨hitem, hbefore⟩ := h.getElem_eq hn
    exact hitem ▸ hbefore
  · intro hbefore
    exact (List.getElem?_eq_some_iff.mp ((h n _).mpr ⟨rfl, hbefore⟩)).1

/-- The ends and the step determine the numbers of a range. -/
theorem unique {items' : List Int} (h : IsRange start stop step items)
    (h' : IsRange start stop step items') : items = items' :=
  List.ext_getElem? fun n => Option.ext fun i => (h n i).trans (h' n i).symm

end IsRange

/-- The loop adds the range from its number on to what is done. -/
theorem exists_rangeFrom_eq (stop step i : Int) (done : List Int) :
    ∃ items, IsRange i stop step items ∧
      Builtin.rangeFrom stop step i done = done.reverse ++ items := by
  fun_induction Builtin.rangeFrom stop step i done with
  | case1 i done hbefore ih =>
      obtain ⟨items, hitems, heq⟩ := ih
      refine ⟨i :: items, .cons hbefore hitems, ?_⟩
      rw [heq, List.reverse_cons, List.append_assoc, List.singleton_append]
  | case2 i done hend => exact ⟨[], .nil hend, (List.append_nil _).symm⟩

/-- How far the end of a range lies from its start, in the direction of its step. -/
def span (start stop step : Int) : Int := if 0 < step then stop - start else start - stop

theorem before_iff {start stop step : Int} (hstep : step ≠ 0) (n : Nat) :
    Before step stop (start + n * step) ↔ n * step.natAbs < span start stop step := by
  rcases Int.lt_or_gt_of_ne hstep with hneg | hpos
  · have hsize : n * (step.natAbs : Int) = -(n * step) := by
      rw [Int.ofNat_natAbs_of_nonpos (Int.le_of_lt hneg), Int.mul_neg]
    rw [Before, span, hsize, if_neg (by omega)]
    omega
  · have hsize : (step.natAbs : Int) = step := Int.natAbs_of_nonneg (Int.le_of_lt hpos)
    rw [Before, span, hsize, if_pos hpos]
    omega

/-- A range has as many numbers as its span has steps, the last of which may be cut short. -/
theorem IsRange.length_eq {start stop step : Int} {items : List Int}
    (h : IsRange start stop step items) (hstep : step ≠ 0) :
    (items.length : Int) =
      max 0 ((span start stop step + step.natAbs - 1).tdiv step.natAbs) := by
  have hsize : 0 < (step.natAbs : Int) := by omega
  have hlength : ∀ n : Nat, n < items.length ↔ n * (step.natAbs : Int) < span start stop step :=
    fun n => (h.lt_length_iff n).trans (before_iff hstep n)
  rcases Int.lt_or_le (span start stop step + step.natAbs - 1) 0 with hneg | hpos
  · have hempty := mt (hlength 0).mp (by omega)
    have hquotient := Int.tdiv_nonneg (Int.neg_nonneg_of_nonpos (Int.le_of_lt hneg))
      (Int.le_of_lt hsize)
    rw [Int.neg_tdiv] at hquotient
    omega
  · rw [Int.tdiv_eq_ediv_of_nonneg hpos]
    have hcount : ∀ n : Nat, (n : Int) < (span start stop step + step.natAbs - 1) / step.natAbs ↔
        n < items.length := fun n => by
      rw [hlength, ← Int.add_one_le_iff, Int.le_ediv_iff_mul_le hsize, Int.add_mul, Int.one_mul]
      omega
    have hquotient := Int.ediv_nonneg hpos (Int.le_of_lt hsize)
    have hle := hcount items.length
    have hge := hcount ((span start stop step + step.natAbs - 1) / step.natAbs).toNat
    omega

section Words

variable {start stop step : Int64}

theorem toInt_size (hsize : inInt64 step.toInt.natAbs) :
    (if step < 0 then -step else step).toInt = step.toInt.natAbs := by
  rw [inInt64_iff] at hsize
  simp only [Int64.lt_iff_toInt_lt, Int64.toInt_zero]
  split_ifs with hneg
  · have hword : inInt64 (-step.toInt) := inInt64_iff.mpr (by omega)
    rw [Int64.toInt_neg, bmod_of_inInt64 hword]
    omega
  · omega

theorem toInt_span (hspan : inInt64 (span start.toInt stop.toInt step.toInt)) :
    (if 0 < step then stop - start else start - stop).toInt =
      span start.toInt stop.toInt step.toInt := by
  simp only [span, Int64.lt_iff_toInt_lt, Int64.toInt_zero] at hspan ⊢
  split_ifs at hspan ⊢
  · exact toInt_sub_of_inInt64 hspan
  · exact toInt_sub_of_inInt64 hspan

/-- A sum of words less one, where the sum itself may be just past the largest word. -/
theorem toInt_add_sub_one {a b : Int64} (h : inInt64 (a.toInt + b.toInt - 1)) :
    (a + b - 1).toInt = a.toInt + b.toInt - 1 := by
  rw [Int64.toInt_sub, Int64.toInt_add, Int64.toInt_one, Int.bmod_sub_bmod, bmod_of_inInt64 h]

theorem toInt_max_zero (a : Int64) : (max 0 a).toInt = max 0 a.toInt := by
  have hmax : max 0 a = if 0 ≤ a then a else 0 := rfl
  simp only [hmax, apply_ite Int64.toInt, Int64.le_iff_toInt_le, Int64.toInt_zero]
  omega

/-- The numbers of a range of words are words, as none is past its ends. -/
theorem IsRange.inInt64_of_mem {items : List Int}
    (h : IsRange start.toInt stop.toInt step.toInt items) {i : Int} (hi : i ∈ items) :
    inInt64 i := by
  obtain ⟨n, hn, rfl⟩ := List.mem_iff_getElem.mp hi
  obtain ⟨hitem, hbefore⟩ := h.getElem_eq hn
  have hstart := inInt64_iff.mp (inInt64_toInt start)
  have hstop := inInt64_iff.mp (inInt64_toInt stop)
  rw [inInt64_iff]
  rcases hbefore with ⟨hpos, hlt⟩ | ⟨hneg, hlt⟩
  · have hpast := Int.mul_nonneg (Int.natCast_nonneg n) (Int.le_of_lt hpos)
    omega
  · have hpast := Int.mul_nonpos_of_nonneg_of_nonpos (Int.natCast_nonneg n) (Int.le_of_lt hneg)
    omega

/-- A number of steps that stays before the end of a range is itself no further than its span. -/
theorem inInt64_steps {n : Nat} (hspan : inInt64 (span start.toInt stop.toInt step.toInt))
    (hn : n * (step.toInt.natAbs : Int) < span start.toInt stop.toInt step.toInt) :
    inInt64 (n * step.toInt) := by
  have hsize : (n * step.toInt).natAbs = n * (step.toInt.natAbs : Int) := by
    rw [Int.natAbs_mul, Int.natAbs_natCast, Int.natCast_mul]
  rw [inInt64_iff] at hspan ⊢
  omega

/-- The number at a place of a range is reached without loss. -/
theorem IsRange.add_mul_eq {items : List Int64}
    (h : IsRange start.toInt stop.toInt step.toInt (items.map Int64.toInt)) (hstep : step ≠ 0)
    (hspan : inInt64 (span start.toInt stop.toInt step.toInt)) {i item : Int64}
    (hi : 0 ≤ i) (hitem : items[i.toInt.toNat]? = some item) :
    inInt64 (i.toInt * step.toInt) ∧ start + i * step = item := by
  have hplace : (i.toInt.toNat : Int) = i.toInt := Int.toNat_of_nonneg (Int64.le_iff_toInt_le.mp hi)
  have hmapped : (items.map Int64.toInt)[i.toInt.toNat]? = some item.toInt := by
    rw [List.getElem?_map, hitem]
    rfl
  obtain ⟨heq, hbefore⟩ := (h _ _).mp hmapped
  rw [heq, before_iff (toInt_ne_zero hstep)] at hbefore
  have hsteps := inInt64_steps hspan hbefore
  rw [hplace] at hsteps heq
  refine ⟨hsteps, Int64.toInt_inj.mp ?_⟩
  rw [Int64.toInt_add, Int64.toInt_mul, bmod_of_inInt64 hsteps, ← heq,
    bmod_of_inInt64 (inInt64_toInt item)]

end Words

/-- The length of a range of words is counted without loss. -/
theorem toInt_rangeSize {start stop step : Int64}
    (hspan : inInt64 (span start.toInt stop.toInt step.toInt))
    (hsize : inInt64 step.toInt.natAbs)
    (hrounded : inInt64 (span start.toInt stop.toInt step.toInt + step.toInt.natAbs - 1)) :
    (Builtin.rangeSize start stop step).toInt =
      max 0 ((span start.toInt stop.toInt step.toInt + step.toInt.natAbs - 1).tdiv
        step.toInt.natAbs) := by
  have hspanWord := toInt_span hspan
  have hsizeWord := toInt_size hsize
  unfold Builtin.rangeSize
  generalize (if 0 < step then stop - start else start - stop) = spanWord at hspanWord
  generalize (if step < 0 then -step else step) = sizeWord at hsizeWord
  rw [← hspanWord, ← hsizeWord] at hrounded ⊢
  have hnegative : (-1 : Int64).toInt = -1 := by decide
  have hne : sizeWord ≠ -1 := fun h => by
    rw [h] at hsizeWord
    omega
  rw [toInt_max_zero, Int64.toInt_div_of_ne_right _ _ hne, toInt_add_sub_one hrounded]

theorem outcome_rangeLength {start stop step : Int64} (hstep : step ≠ 0) (m : Machine) :
    (Builtin.rangeLength (.int start) (.int stop) (.int step)).outcome m =
      (.ok (.int (Builtin.rangeSize start stop step)), m) := by
  unfold Builtin.rangeLength
  split
  case h_1 hzero => exact absurd (Option.some.inj hzero) hstep
  case h_2 _ hstart hstop hword =>
    rw [← Option.some.inj hstart, ← Option.some.inj hstop, ← Option.some.inj hword]
    rfl
  case h_3 hother => exact absurd rfl (hother start stop step rfl rfl)

theorem outcome_rangeOf {start stop step : Int64} (hstep : step ≠ 0) (m : Machine) :
    (Builtin.range [.int start, .int stop, .int step]).outcome m =
      (.ok (.ref m.heap.size), m.withHeap (m.heap.push (.list
        ((Builtin.rangeFrom stop.toInt step.toInt start.toInt []).map
          fun i => .int (Int64.ofInt i))))) := by
  have hwhole : [Value.int start, .int stop, .int step].mapM Value.whole? =
      some [start, stop, step] := rfl
  simp only [Builtin.range, hwhole, if_neg hstep]
  rfl

/-- The list of a range, its length, and its number at each place below that. The loop ends with the
numbers of the range, and where no word overflows, the division and the product agree with it. -/
theorem outcome_range {start stop step : Int64} (hstep : step ≠ 0)
    (hspan : inInt64 (span start.toInt stop.toInt step.toInt))
    (hsize : inInt64 step.toInt.natAbs)
    (hrounded : inInt64 (span start.toInt stop.toInt step.toInt + step.toInt.natAbs - 1)) :
    ("range", .range) ∈ builtinFunctions ∧
    ("torch.__range_length", .rangeLength) ∈ builtinFunctions ∧
    ("torch.__derive_index", .deriveIndex) ∈ builtinFunctions ∧
    ∃ (items : List Int64) (length : Int64),
      IsRange start.toInt stop.toInt step.toInt (items.map Int64.toInt) ∧
      length.toInt = items.length ∧
      ∀ (host : Host) (m : Machine),
        (host.primitive .range [.int start, .int stop, .int step]).outcome m =
          (.ok (.ref m.heap.size), m.withHeap (m.heap.push (.list (items.map .int)))) ∧
        (host.primitive .rangeLength [.int start, .int stop, .int step]).outcome m =
          (.ok (.int length), m) ∧
        ∀ i item : Int64, 0 ≤ i → items[i.toInt.toNat]? = some item →
          inInt64 (i.toInt * step.toInt) ∧
          (host.primitive .deriveIndex [.int i, .int start, .int step]).outcome m =
            (.ok (.int item), m) := by
  obtain ⟨numbers, hnumbers, heq⟩ := exists_rangeFrom_eq stop.toInt step.toInt start.toInt []
  have hlist : (numbers.map Int64.ofInt).map Int64.toInt = numbers := by
    rw [List.map_map]
    exact (List.map_congr_left fun i hi => toInt_ofInt_of_inInt64 (hnumbers.inInt64_of_mem hi)).trans
      (List.map_id numbers)
  have hitems : IsRange start.toInt stop.toInt step.toInt
      ((numbers.map Int64.ofInt).map Int64.toInt) := hlist.symm ▸ hnumbers
  refine ⟨by simp [builtinFunctions], by simp [builtinFunctions], by simp [builtinFunctions],
    numbers.map Int64.ofInt, Builtin.rangeSize start stop step, hitems, ?_,
    fun host m => ⟨?_, outcome_rangeLength hstep m, fun i item hi hitem => ?_⟩⟩
  · rw [toInt_rangeSize hspan hsize hrounded, List.length_map,
      hnumbers.length_eq (toInt_ne_zero hstep)]
  · rw [List.map_map]
    exact (outcome_rangeOf hstep m).trans (by rw [heq]; rfl)
  · obtain ⟨hsteps, hword⟩ := hitems.add_mul_eq hstep hspan hi hitem
    exact ⟨hsteps, by rw [← hword]; rfl⟩

/-- Down from 5 in steps of 3, the last of which is cut short. -/
theorem outcome_range_down :
    (-3 : Int64) ≠ 0 ∧ inInt64 (span (5 : Int64).toInt (-5 : Int64).toInt (-3 : Int64).toInt) ∧
    inInt64 (-3 : Int64).toInt.natAbs ∧
    inInt64 (span (5 : Int64).toInt (-5 : Int64).toInt (-3 : Int64).toInt +
      (-3 : Int64).toInt.natAbs - 1) ∧
    (Host.standard.primitive .range [.int 5, .int (-5), .int (-3)]).outcome .standard =
      (.ok (.ref Machine.standard.heap.size), Machine.standard.withHeap
        (Machine.standard.heap.push (.list [.int 5, .int 2, .int (-1), .int (-4)]))) ∧
    (Host.standard.primitive .rangeLength [.int 5, .int (-5), .int (-3)]).outcome .standard =
      (.ok (.int 4), .standard) ∧
    (Host.standard.primitive .deriveIndex [.int 3, .int 5, .int (-3)]).outcome .standard =
      (.ok (.int (-4)), .standard) := by
  have hstep : (-3 : Int64) ≠ 0 := by decide
  have hspan : inInt64 (span (5 : Int64).toInt (-5 : Int64).toInt (-3 : Int64).toInt) := by decide
  have hsize : inInt64 (-3 : Int64).toInt.natAbs := by decide
  have hrounded : inInt64 (span (5 : Int64).toInt (-5 : Int64).toInt (-3 : Int64).toInt +
      (-3 : Int64).toInt.natAbs - 1) := by decide
  obtain ⟨-, -, -, items, length, hitems, hlength, houtcome⟩ :=
    outcome_range hstep hspan hsize hrounded
  have hdown : IsRange (5 : Int64).toInt (-5 : Int64).toInt (-3 : Int64).toInt
      ([5, 2, -1, -4].map Int64.toInt) :=
    .cons (.inr (by decide)) (.cons (.inr (by decide)) (.cons (.inr (by decide))
      (.cons (.inr (by decide)) (.nil (by unfold Before; decide)))))
  obtain rfl : items = [5, 2, -1, -4] :=
    (List.map_inj_right fun _ _ => Int64.toInt_inj.mp).mp (hitems.unique hdown)
  obtain rfl : length = 4 := Int64.toInt_inj.mp (hlength.trans (by decide))
  obtain ⟨hrange, hrangeLength, hderiveIndex⟩ := houtcome Host.standard .standard
  exact ⟨hstep, hspan, hsize, hrounded, hrange, hrangeLength,
    (hderiveIndex 3 (-4) (by decide) rfl).2⟩

end ModelGraph
