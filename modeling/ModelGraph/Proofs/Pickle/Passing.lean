import ModelGraph.Proofs.Number.Word
import ModelGraph.Proofs.Object.Heap
import ModelGraph.Proofs.OrderedMap
import ModelGraph.Proofs.Pickle.Locality
import ModelGraph.Proofs.Pickle.ObjectGraph
import ModelGraph.Proofs.Text.Utf8

/-!
# Passing bytes

Some bytes lead from one state of a load to another if loading goes on from there, whatever bytes
follow. What single instructions do is stated in this form, for any stack, marks, memo and heap; runs
of instructions are composed by appending their bytes.
-/

namespace ModelGraph.Pickle

open Reading

variable {τ : Type}

/-- The workspace with another heap. -/
def withHeap (w : Workspace τ) (h : Heap) : Workspace τ :=
  { w with machine := { w.machine with heap := h } }

@[simp] theorem table_withHeap (w : Workspace τ) (h : Heap) : (withHeap w h).table = w.table := rfl

@[simp] theorem heap_withHeap (w : Workspace τ) (h : Heap) : (withHeap w h).machine.heap = h := rfl

@[simp] theorem withHeap_withHeap (w : Workspace τ) (h h' : Heap) :
    withHeap (withHeap w h) h' = withHeap w h' := rfl

variable (persistent : Value → Restore τ Value)

/-- The outcome of a load that stands at a cursor, with a bound that is enough. -/
def proceed (work : Work) (c : Cursor) (w : Workspace τ) :
    (Except LoadError Value × Cursor) × Workspace τ :=
  (run persistent (c.rest.length + 1) work).outcome c w

theorem outcome_byte (start : Nat) (b : UInt8) (rest : Bytes) (w : Workspace τ) :
    (bytes 1 : Reading τ Bytes).outcome ⟨start, b :: rest⟩ w =
      ((.ok [b], ⟨start + 1, rest⟩), w) := by
  rw [outcome_bytes]
  simp

theorem outcome_bytes_append (start : Nat) (taken rest : Bytes) (w : Workspace τ) {length : Nat}
    (h : taken.length = length) :
    (bytes length : Reading τ Bytes).outcome ⟨start, taken ++ rest⟩ w =
      ((.ok taken, ⟨start + length, rest⟩), w) := by
  rw [outcome_bytes, if_neg (by simp [← h]), List.take_left' h, List.drop_left' h]

theorem proceed_step {b : UInt8} {op : Opcode} (hop : Opcode.ofByte? b = some op)
    (hstop : op ≠ .stop) {work work' : Work} {start : Nat} {rest : Bytes} {c : Cursor}
    {w w' : Workspace τ}
    (hstep : (step persistent start op work).outcome ⟨start + 1, rest⟩ w = ((.ok work', c), w')) :
    proceed persistent work ⟨start, b :: rest⟩ w = proceed persistent work' c w' := by
  obtain ⟨taken, rfl, -⟩ := local_step persistent _ _ _ hstep
  unfold proceed
  rw [run, outcome_bind_ok (outcome_offset _ _), outcome_bind_ok (outcome_byte _ _ _ _)]
  simp only [List.headD_cons, hop]
  rw [outcome_bind_ok hstep]
  refine run_bound persistent work' w' ?_ (Nat.lt_succ_self _)
  simp only [List.length_cons, List.length_append]
  omega

theorem proceed_stop {work : Work} {v : Value} {stack : List Value} (h : work.stack = v :: stack)
    (start : Nat) (rest : Bytes) (w : Workspace τ) :
    proceed persistent work ⟨start, 0x2e :: rest⟩ w = ((.ok v, ⟨start + 1, rest⟩), w) := by
  obtain ⟨_, marks, memo⟩ := work
  obtain rfl : _ = v :: stack := h
  unfold proceed
  rw [run, outcome_bind_ok (outcome_offset _ _), outcome_bind_ok (outcome_byte _ _ _ _)]
  rfl

section Passes

variable (w : Workspace τ)

/-- Bytes that lead from a state to another, whatever follows them. -/
def Passes (bytes : Bytes) (work : Work) (h : Heap) (work' : Work) (h' : Heap) : Prop :=
  ∀ start rest, proceed persistent work ⟨start, bytes ++ rest⟩ (withHeap w h) =
    proceed persistent work' ⟨start + bytes.length, rest⟩ (withHeap w h')

variable {persistent w}

theorem Passes.refl (work : Work) (h : Heap) : Passes persistent w [] work h work h :=
  fun _ _ => rfl

theorem Passes.append {xs ys : Bytes} {work work₁ work₂ : Work} {h h₁ h₂ : Heap}
    (hxs : Passes persistent w xs work h work₁ h₁) (hys : Passes persistent w ys work₁ h₁ work₂ h₂) :
    Passes persistent w (xs ++ ys) work h work₂ h₂ := by
  intro start rest
  rw [List.append_assoc, hxs, hys, List.length_append, Nat.add_assoc]

/-- An instruction passes its byte and its operand. -/
theorem Passes.instruction {b : UInt8} (op : Opcode) {operand : Bytes} {work work' : Work}
    {h h' : Heap} (hop : Opcode.ofByte? b = some op) (hstop : op ≠ .stop)
    (hstep : ∀ start rest, (step persistent start op work).outcome ⟨start + 1, operand ++ rest⟩
      (withHeap w h) = ((.ok work', ⟨start + 1 + operand.length, rest⟩), withHeap w h')) :
    Passes persistent w (b :: operand) work h work' h' := by
  intro start rest
  rw [List.cons_append, proceed_step persistent hop hstop (hstep start rest), List.length_cons,
    Nat.add_assoc, Nat.add_comm 1]

/-- An instruction that only pushes a value. -/
theorem Passes.push {b : UInt8} (op : Opcode) {operand : Bytes} {work : Work} {h h' : Heap}
    {v : Value} {value : Reading τ Value} (hop : Opcode.ofByte? b = some op) (hstop : op ≠ .stop)
    (hstep : ∀ start, step persistent start op work = value >>= fun v => return work.push v)
    (hvalue : ∀ start rest, value.outcome ⟨start, operand ++ rest⟩ (withHeap w h) =
      ((.ok v, ⟨start + operand.length, rest⟩), withHeap w h')) :
    Passes persistent w (b :: operand) work h (work.push v) h' := by
  refine Passes.instruction op hop hstop fun start rest => ?_
  rw [hstep, outcome_bind_ok (hvalue _ _)]
  rfl

variable (persistent w)

/-! ## Scalars -/

theorem passes_none (work : Work) (h : Heap) :
    Passes persistent w [0x4e] work h (work.push .none) h :=
  Passes.push .none rfl (by decide) (fun _ => rfl) fun _ _ => rfl

theorem passes_bool (b : Bool) (work : Work) (h : Heap) :
    Passes persistent w [if b then 0x88 else 0x89] work h (work.push (.bool b)) h := by
  cases b with
  | false => exact Passes.push (.bool false) rfl (by decide) (fun _ => rfl) fun _ _ => rfl
  | true => exact Passes.push (.bool true) rfl (by decide) (fun _ => rfl) fun _ _ => rfl

theorem outcome_size (start : Nat) {width n : Nat} (hn : n < twoPow (8 * width)) (rest : Bytes)
    (w : Workspace τ) :
    (size width : Reading τ Nat).outcome ⟨start, bytesOfNat width n ++ rest⟩ w =
      ((.ok n, ⟨start + width, rest⟩), w) := by
  unfold size
  rw [outcome_bind_ok (outcome_bytes_append _ _ _ _ (length_bytesOfNat width n)),
    natOfBytes_bytesOfNat hn]
  rfl

theorem outcome_counted (start width : Nat) (data rest : Bytes)
    (hdata : data.length < twoPow (8 * width)) (w : Workspace τ) :
    (counted width : Reading τ Bytes).outcome
        ⟨start, bytesOfNat width data.length ++ data ++ rest⟩ w =
      ((.ok data, ⟨start + (bytesOfNat width data.length ++ data).length, rest⟩), w) := by
  unfold counted
  rw [List.append_assoc, outcome_bind_ok (outcome_size _ hdata _ _),
    outcome_bytes_append _ _ _ _ rfl, List.length_append, length_bytesOfNat, Nat.add_assoc]

theorem outcome_signed (start : Nat) {width : Nat} {i : Int64}
    (hlow : -(twoPow (8 * width) : Int) ≤ 2 * i.toInt) (hhigh : 2 * i.toInt < twoPow (8 * width))
    (rest : Bytes) (w : Workspace τ) :
    (signed width : Reading τ Int64).outcome ⟨start, bytesOfInt width i.toInt ++ rest⟩ w =
      ((.ok i, ⟨start + width, rest⟩), w) := by
  unfold signed
  rw [outcome_bind_ok (outcome_bytes_append start _ rest _ (length_bytesOfInt width _)),
    intOfBytes_bytesOfInt hlow hhigh, Int64.ofInt_toInt]
  rfl

/-- A word of eight bytes is read back. -/
theorem outcome_word (start : Nat) (i : Int64) (rest : Bytes) (w : Workspace τ) :
    (signed 8 : Reading τ Int64).outcome ⟨start, bytesOfInt 8 i.toInt ++ rest⟩ w =
      ((.ok i, ⟨start + 8, rest⟩), w) := by
  have hlow := i.le_toInt
  have hhigh := i.toInt_lt
  have height : twoPow (8 * 8) = 0x10000000000000000 := rfl
  exact outcome_signed start (by omega) (by omega) rest w

theorem passes_int (i : Int64) (work : Work) (h : Heap) :
    Passes persistent w (encodeInt i) work h (work.push (.int i)) h := by
  have hlow := i.le_toInt
  have hhigh := i.toInt_lt
  have hfour : twoPow (8 * 4) = 0x100000000 := rfl
  have height : twoPow (8 * 8) = 0x10000000000000000 := rfl
  unfold encodeInt
  split_ifs with hword
  · refine Passes.push .int32 rfl (by decide) (fun _ => rfl) fun start rest => ?_
    rw [outcome_bind_ok (outcome_signed start (by omega) (by omega) rest _), length_bytesOfInt]
    rfl
  · have hread : intOfBytes (bytesOfInt 8 i.toInt) = i.toInt :=
      intOfBytes_bytesOfInt (by omega) (by omega)
    have hlong : long (bytesOfInt 8 i.toInt) = .int i := by
      rw [long, if_pos (by simp), hread, Int64.ofInt_toInt]
    refine Passes.push (.long 1) rfl (by decide) (fun _ => rfl) fun start rest => ?_
    have hcounted := outcome_counted start 1 (bytesOfInt 8 i.toInt) rest
      (by rw [length_bytesOfInt]; decide) (withHeap w h)
    have hlength : bytesOfNat 1 8 = [0x08] := rfl
    rw [length_bytesOfInt, hlength, List.singleton_append] at hcounted
    rw [outcome_bind_ok hcounted, hlong]
    rfl

theorem passes_float (bits : UInt64) (work : Work) (h : Heap) :
    Passes persistent w (0x47 :: (bytesOfNat 8 bits.toNat).reverse) work h
      (work.push (.float (Float.ofBits bits))) h := by
  refine Passes.push .double rfl (by decide) (fun _ => rfl) fun start rest => ?_
  have hlength : (bytesOfNat 8 bits.toNat).reverse.length = 8 := by simp
  rw [outcome_bind_ok (outcome_bytes_append start _ rest _ hlength), List.reverse_reverse, natOfBytes_bytesOfNat bits.toNat_lt]
  simp

theorem passes_text (s : ShortText) (work : Work) (h : Heap) :
    Passes persistent w (encodeText s) work h (work.push (.str s.text)) h := by
  refine Passes.push (.utf8 4) rfl (by decide) (fun _ => rfl) fun start rest => ?_
  rw [outcome_bind_ok (outcome_counted start 4 _ rest s.short _), Text.utf8Lossy_utf8]
  rfl

/-- The characters of the text are bytes, none of which ends a line. -/
structure OneLine (s : String) : Prop where
  latin1_utf8 : Text.latin1 (Text.utf8 s) = s
  notMem : (10 : UInt8) ∉ Text.utf8 s

theorem outcome_line_of_notMem {data : Bytes} (hdata : (10 : UInt8) ∉ data) (start : Nat)
    (rest : Bytes) (w : Workspace τ) :
    (line : Reading τ String).outcome ⟨start, data ++ [10] ++ rest⟩ w =
      ((.ok (Text.latin1 data), ⟨start + (data ++ [10]).length, rest⟩), w) := by
  have htext : (data ++ [10] ++ rest).takeWhile (· != 10) = data := by
    rw [List.append_assoc, List.takeWhile_append_of_pos fun b hb => ?_]
    · simp
    · simpa using ne_of_mem_of_not_mem hb hdata
  rw [outcome_line]
  simp only [htext]
  rw [if_pos (by simp)]
  simp [Nat.add_assoc]

theorem outcome_line_text {s : String} (hs : OneLine s) (start : Nat) (rest : Bytes)
    (w : Workspace τ) :
    (line : Reading τ String).outcome ⟨start, Text.utf8 s ++ [10] ++ rest⟩ w =
      ((.ok s, ⟨start + (Text.utf8 s ++ [10]).length, rest⟩), w) := by
  rw [outcome_line_of_notMem hs.notMem, hs.latin1_utf8]

theorem passes_global {module name : String} (hmodule : OneLine module) (hname : OneLine name)
    (work : Work) (h : Heap) :
    Passes persistent w (encodeGlobal module name) work h
      (work.push (.str (module ++ "." ++ name))) h := by
  refine Passes.push .global rfl (by decide) (fun _ => rfl) fun start rest => ?_
  have hglobal : (globalName : Reading τ String).outcome
      ⟨start, Text.utf8 module ++ [10] ++ (Text.utf8 name ++ [10]) ++ rest⟩ (withHeap w h) =
        ((.ok (module ++ "." ++ name), ⟨start + (Text.utf8 module ++ [10] ++
          (Text.utf8 name ++ [10])).length, rest⟩), withHeap w h) := by
    have hlength : (Text.utf8 module ++ [10] ++ (Text.utf8 name ++ [10])).length =
        (Text.utf8 module ++ [10]).length + (Text.utf8 name ++ [10]).length := List.length_append
    unfold globalName
    rw [List.append_assoc (Text.utf8 module ++ [10]), outcome_bind_ok (outcome_line_text hmodule _ _ _),
      outcome_bind_ok (outcome_line_text hname _ _ _), hlength, ← Nat.add_assoc]
    rfl
  exact outcome_bind_ok hglobal _

/-! ## New objects -/

theorem passes_bytes (data : ShortBytes) (work : Work) (h : Heap) :
    Passes persistent w (0x42 :: (bytesOfNat 4 data.data.length ++ data.data)) work h
      (work.push (.ref h.size)) (h.push (.bytes data.data)) := by
  refine Passes.push (.bytes 4) rfl (by decide) (fun _ => rfl) fun start rest => ?_
  rw [outcome_bind_ok (outcome_counted start 4 _ rest data.short _)]
  rfl

theorem passes_emptyList (work : Work) (h : Heap) :
    Passes persistent w [0x5d] work h (work.push (.ref h.size)) (h.push (.list [])) :=
  Passes.push .emptyList rfl (by decide) (fun _ => rfl) fun _ _ => rfl

theorem passes_emptyDict (work : Work) (h : Heap) :
    Passes persistent w [0x7d] work h (work.push (.ref h.size)) (h.push (.dict {})) :=
  Passes.push .emptyDict rfl (by decide) (fun _ => rfl) fun _ _ => rfl

/-! ## Memo and marks -/

variable (stack : List Value) (marks : List Nat) (memo : OrderedMap Nat Value) (h : Heap)

theorem passes_put {number : Nat} (hnumber : number < 0x100000000) (v : Value) :
    Passes persistent w (encodePut number) ⟨v :: stack, marks, memo⟩ h
      ⟨v :: stack, marks, memo.insert number v⟩ h := by
  refine Passes.instruction (.put 4) rfl (by decide) fun start rest => ?_
  change (size 4 >>= fun index => ofFault start (Work.remember ⟨v :: stack, marks, memo⟩ index)).outcome
    _ _ = _
  rw [outcome_bind_ok (outcome_size _ hnumber _ _), length_bytesOfNat]
  rfl

theorem passes_get {number : Nat} (hnumber : number < 0x100000000) {v : Value}
    (hv : memo.get? number = some v) :
    Passes persistent w (encodeGet number) ⟨stack, marks, memo⟩ h ⟨v :: stack, marks, memo⟩ h := by
  refine Passes.instruction (.fetch 4) rfl (by decide) fun start rest => ?_
  change (size 4 >>= fun index => pushMemo start ⟨stack, marks, memo⟩ index).outcome _ _ = _
  rw [outcome_bind_ok (outcome_size _ hnumber _ _), length_bytesOfNat]
  simp only [pushMemo, hv]
  rfl

theorem passes_mark :
    Passes persistent w [0x28] ⟨stack, marks, memo⟩ h ⟨stack, stack.length :: marks, memo⟩ h :=
  Passes.instruction .mark rfl (by decide) fun _ _ => rfl

/-- What was pushed since the last mark is taken back in the order in which it was pushed. -/
theorem popToMark?_append (items : List Value) :
    (⟨items.reverse ++ stack, stack.length :: marks, memo⟩ : Work).popToMark? =
      .ok (items, ⟨stack, marks, memo⟩) := by
  have htake : (items.reverse ++ stack).take items.length = items.reverse :=
    List.take_left' List.length_reverse
  have hdrop : (items.reverse ++ stack).drop items.length = stack :=
    List.drop_left' List.length_reverse
  have hbeyond : ¬ (items.reverse ++ stack).length < stack.length := by simp
  have hcount : (items.reverse ++ stack).length - stack.length = items.length := by simp
  have henough : ¬ (items.reverse ++ stack).length < items.length := by simp
  change (if (items.reverse ++ stack).length < stack.length then .error .markBeyondStack
    else (⟨items.reverse ++ stack, marks, memo⟩ : Work).take?
      ((items.reverse ++ stack).length - stack.length) .stackUnderflow) = _
  rw [if_neg hbeyond, hcount, Work.take?, if_neg henough]
  simp only [htake, hdrop, List.reverse_reverse]

theorem passes_tuple (items : List Value) :
    Passes persistent w [0x74] ⟨items.reverse ++ stack, stack.length :: marks, memo⟩ h
      ⟨.ref h.size :: stack, marks, memo⟩ (h.push (.list items)) := by
  refine Passes.instruction .list rfl (by decide) fun start rest => ?_
  change (ofFault start (Work.popToMark? ⟨items.reverse ++ stack, stack.length :: marks, memo⟩) >>=
    fun taken => act (.exec (Exec.list taken.1)) >>= fun made =>
      pure (taken.2.push made)).outcome _ _ = _
  rw [popToMark?_append]
  rfl

theorem outcome_heap (c : Cursor) :
    (act Restore.heap : Reading τ Heap).outcome c (withHeap w h) = ((.ok h, c), withHeap w h) :=
  outcome_act _ c _

/-- A list with more items; any other object stays as it is. -/
def appendItems (items : List Value) : Object → Object
  | .list old => .list (old ++ items)
  | o => o

/-- The items since the mark go to the end of the list below it. -/
theorem passes_appends {id : Nat} {old : List Value} (hid : h.get? id = some (.list old))
    (items : List Value) :
    Passes persistent w [0x65] ⟨items.reverse ++ .ref id :: stack, (stack.length + 1) :: marks, memo⟩
      h ⟨.ref id :: stack, marks, memo⟩ (h.modify id (appendItems items)) := by
  refine Passes.instruction .appends rfl (by decide) fun start rest => ?_
  change (ofFault start (Work.popToMark?
      ⟨items.reverse ++ .ref id :: stack, (.ref id :: stack).length :: marks, memo⟩) >>=
    fun taken => ofFault start taken.2.top? >>= fun target =>
      extendList start target taken.1 >>= fun _ => pure taken.2).outcome _ _ = _
  rw [popToMark?_append]
  have hitems : h.items? (.ref id) = some old := by simp [Heap.items?, Heap.object?, Value.ref?, hid]
  have hextend : (extendList start (.ref id) items).outcome ⟨start + 1, [] ++ rest⟩ (withHeap w h) =
      ((.ok (), ⟨start + 1, rest⟩), withHeap w (h.modify id (appendItems items))) := by
    unfold extendList
    rw [outcome_bind_ok (outcome_heap w h _)]
    simp only [hitems]
    rfl
  exact outcome_bind_ok hextend _

/-- Sets entries with texts as keys, one after another. -/
def setTexts (id : Nat) (entries : List (String × Value)) (h : Heap) : Heap :=
  entries.foldl (fun h e => h.setItem (.ref id) (.str e.1) e.2) h

theorem updates_setTexts {id : Nat} (entries : List (String × Value)) {h : Heap} {d : Dict}
    (hid : h.get? id = some (.dict d)) :
    h.Updates id (.dict (entries.foldl (fun d e => d.insert (.str e.1) e.2) d))
      (setTexts id entries h) := by
  induction entries generalizing h d with
  | nil => exact ⟨rfl, hid, fun _ _ => rfl⟩
  | cons entry entries ih =>
      have hset := Heap.updates_setItem hid (.str entry.1) entry.2
      exact hset.trans (ih hset.get?_self)

/-- Distinct texts are inserted at the end, one after another. -/
theorem foldl_insert_texts {entries : List (String × Value)} (distinct : (entries.map (·.1)).Nodup) :
    entries.foldl (fun d e => d.insert (.str e.1) e.2) ({} : Dict) =
      ⟨entries.map fun e => (.str e.1, e.2)⟩ := by
  let added := entries.map fun e => (Key.str e.1, e.2)
  have hkeys : (added.map (·.1)).Nodup := by
    have hmap := distinct.map fun _ _ => Key.str.inj
    rwa [List.map_map] at hmap ⊢
  have hinsert := OrderedMap.foldl_insert added {} hkeys
  rw [List.foldl_map] at hinsert
  rw [hinsert]
  rfl

/-- Keys and values in turn are inserted one pair after another. -/
theorem outcome_setItems {id : Nat} (entries : List (String × Value)) {h : Heap} {d : Dict}
    (hid : h.get? id = some (.dict d)) (start : Nat) (c : Cursor) :
    (setItems start (.ref id) (entries.flatMap fun e => [.str e.1, e.2])).outcome c (withHeap w h) =
      ((.ok (), c), withHeap w (setTexts id entries h)) := by
  induction entries generalizing h d with
  | nil => rfl
  | cons entry entries ih =>
      obtain ⟨key, value⟩ := entry
      have hset := Heap.updates_setItem hid (.str key) value
      have htakes : h.takesItem (.ref id) (.str key) = true := by
        simp [Heap.takesItem, Heap.object?, Value.ref?, hid]
      change (act Restore.heap >>= fun heap =>
        if heap.takesItem (.ref id) (.str key) then
          act (Restore.modifyHeap (·.setItem (.ref id) (.str key) value)) >>= fun _ =>
            setItems start (.ref id) (entries.flatMap fun e => [.str e.1, e.2])
        else failAt start (.itemTarget (heap.describe (.ref id)))).outcome c (withHeap w h) = _
      rw [outcome_bind_ok (outcome_heap w h c), if_pos htakes]
      exact ih hset.get?_self

/-- The keys and values since the mark are set in the dictionary below it. -/
theorem passes_setItems {id : Nat} {d : Dict} (hid : h.get? id = some (.dict d))
    (entries : List (String × Value)) :
    Passes persistent w [0x75]
      ⟨(entries.flatMap fun e => [.str e.1, e.2]).reverse ++ .ref id :: stack,
        (stack.length + 1) :: marks, memo⟩ h
      ⟨.ref id :: stack, marks, memo⟩ (setTexts id entries h) := by
  refine Passes.instruction .setItems rfl (by decide) fun start rest => ?_
  change (ofFault start (Work.popToMark?
      ⟨(entries.flatMap fun e => [.str e.1, e.2]).reverse ++ .ref id :: stack,
        (.ref id :: stack).length :: marks, memo⟩) >>=
    fun taken => ofFault start taken.2.top? >>= fun target =>
      setItems start target taken.1 >>= fun _ => pure taken.2).outcome _ _ = _
  rw [popToMark?_append]
  exact outcome_bind_ok (outcome_setItems w entries hid start _) _

/-- What the top of the stack refers to takes its place. -/
theorem passes_persistent {id v : Value}
    (hresolve : (persistent id).run.run (withHeap w h) = (.ok v, withHeap w h)) :
    Passes persistent w [0x51] ⟨id :: stack, marks, memo⟩ h ⟨v :: stack, marks, memo⟩ h := by
  refine Passes.instruction .persistent rfl (by decide) fun start rest => ?_
  have hact : (act (persistent id)).outcome ⟨start + 1, rest⟩ (withHeap w h) =
      ((.ok v, ⟨start + 1, rest⟩), withHeap w h) := by rw [outcome_act, hresolve]
  exact outcome_bind_ok hact _

end Passes

/-! ## Whole pickles -/

theorem passes_header (persistent : Value → Restore τ Value) (w : Workspace τ)
    (protocol : Option UInt8) (work : Work) (h : Heap) :
    Passes persistent w (protocol.elim [] fun version => [0x80, version]) work h work h := by
  cases protocol with
  | none => exact Passes.refl work h
  | some version =>
      refine Passes.instruction .protocol rfl (by decide) fun start rest => ?_
      exact Reading.outcome_bind_ok (outcome_bytes_append _ [version] rest _ rfl) _

variable {persistent : Value → Restore τ Value} {w : Workspace τ} {h h' : Heap}

theorem outcome_loadWith_of_passes {body : Bytes} {work : Work} {v : Value} {stack : List Value}
    (hbody : Passes persistent w body {} h work h') (hwork : work.stack = v :: stack)
    (version : Option UInt8) (start : Nat) (rest : Bytes) :
    (loadWith persistent).outcome ⟨start, pickled version body ++ rest⟩ (withHeap w h) =
      ((.ok v, ⟨start + (pickled version body).length, rest⟩), withHeap w h') := by
  have hpasses := (passes_header persistent w version {} h).append hbody
  rw [outcome_loadWith persistent _ (Nat.lt_succ_self _), pickled, List.append_assoc]
  refine (hpasses start _).trans ?_
  rw [List.singleton_append, proceed_stop persistent hwork]
  simp [Nat.add_assoc]

/-- Bytes that push values. -/
def Pushes (persistent : Value → Restore τ Value) (w : Workspace τ) (h : Heap) (body : Bytes)
    (values : List Value) : Prop :=
  ∀ stack marks memo, Passes persistent w body ⟨stack, marks, memo⟩ h
    ⟨values.reverse ++ stack, marks, memo⟩ h

theorem pushes_text (s : ShortText) : Pushes persistent w h (encodeText s) [.str s.text] :=
  fun _ _ _ => passes_text persistent w s _ h

theorem Pushes.append {body body' : Bytes} {values values' : List Value}
    (first : Pushes persistent w h body values) (second : Pushes persistent w h body' values') :
    Pushes persistent w h (body ++ body') (values ++ values') := by
  intro stack marks memo
  rw [List.reverse_append, List.append_assoc]
  exact (first stack marks memo).append (second _ marks memo)

theorem Pushes.flatMap {α : Type} {encode : α → Bytes} {values : α → List Value} {items : List α}
    (hitems : ∀ a ∈ items, Pushes persistent w h (encode a) (values a)) :
    Pushes persistent w h (items.flatMap encode) (items.flatMap values) := by
  induction items with
  | nil => exact fun _ _ _ => Passes.refl _ _
  | cons a items ih =>
      obtain ⟨ha, hrest⟩ := List.forall_mem_cons.mp hitems
      exact ha.append (ih hrest)

/-- A tuple is read as a new list. -/
theorem outcome_loadWith_tuple {body : Bytes} {items : List Value}
    (hbody : Pushes persistent w h body items) (version : Option UInt8) (start : Nat) (rest : Bytes) :
    (loadWith persistent).outcome
        ⟨start, pickled version ([0x28] ++ body ++ [0x74]) ++ rest⟩ (withHeap w h) =
      ((.ok (.ref h.size), ⟨start + (pickled version ([0x28] ++ body ++ [0x74])).length, rest⟩),
        withHeap w (h.push (.list items))) := by
  have hitems := (passes_mark persistent w [] [] {} h).append (hbody [] [0] {})
  exact outcome_loadWith_of_passes (hitems.append (passes_tuple persistent w [] [] {} h items)) rfl
    version start rest

/-- A dictionary is read as a new one. -/
theorem outcome_loadWith_dict {body : Bytes} {entries : List (String × Value)}
    (hbody : Pushes persistent w (h.push (.dict {})) body (entries.flatMap fun e => [.str e.1, e.2]))
    (version : Option UInt8) (start : Nat) (rest : Bytes) :
    (loadWith persistent).outcome
        ⟨start, pickled version ([0x7d] ++ [0x28] ++ body ++ [0x75]) ++ rest⟩ (withHeap w h) =
      ((.ok (.ref h.size),
          ⟨start + (pickled version ([0x7d] ++ [0x28] ++ body ++ [0x75])).length, rest⟩),
        withHeap w (setTexts h.size entries (h.push (.dict {})))) := by
  have hopen := (passes_emptyDict persistent w {} h).append
    (passes_mark persistent w [.ref h.size] [] {} (h.push (.dict {})))
  have hitems := hopen.append (hbody [.ref h.size] [1] {})
  exact outcome_loadWith_of_passes (hitems.append (passes_setItems persistent w [] [] {} _
    (Heap.get?_push_size h _) entries)) rfl version start rest

end ModelGraph.Pickle
