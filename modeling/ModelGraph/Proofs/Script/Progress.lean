import ModelGraph.Proofs.Script.Reading
import ModelGraph.Proofs.Script.TokenStream

/-!
# Progress of readers

How far a reader comes in any tokens, and what stands in its way. It passes over tokens and never
over the mark of the end, so what it leaves is never empty, and a fault stands on the line of one of
its tokens. The rules for readers that are put together from others count the tokens that are taken:
each of them makes room for twenty more steps before the bound on the nesting is used up.
-/

namespace ModelGraph.Script

/-! ## Places among tokens -/

theorem next_tail (ts : List Placed) : next ts.tail = second ts := by
  cases ts with
  | nil => rfl
  | cons t ts => cases ts <;> rfl

/-- Reading `ts` has come to `rest`, at least `n` tokens further and not behind the end. -/
def Behind (n : Nat) (ts rest : List Placed) : Prop :=
  ∃ passed, ts = passed ++ rest ∧ n ≤ passed.length ∧ ∀ t ∈ passed, t.token ≠ .eof

/-- What the scanner gives: a mark of the layout, content of a line, or the mark of the end. -/
def Token.IsScanned (t : Token) : Prop := t.isLayout = true ∨ t.IsContent ∨ t = .eof

theorem Token.IsScanned.int {i : Int64} (h : (Token.int i).IsScanned) : 0 ≤ i.toInt := by
  simpa [IsScanned, isLayout, IsContent] using h

theorem Token.IsScanned.name {n : String} (h : (Token.name n).IsScanned) : IsNoNumber n := by
  simpa [IsScanned, isLayout, IsContent] using h

/-- Tokens of the scanner, the mark of the end among them. -/
structure Readable (ts : List Placed) : Prop where
  mem_eof : ∃ t ∈ ts, t.token = .eof
  scanned : ∀ t ∈ ts, t.token.IsScanned

namespace Behind

variable {m n : Nat} {ts middle rest : List Placed}

theorem refl (ts : List Placed) : Behind 0 ts ts := ⟨[], rfl, Nat.le_refl 0, nofun⟩

theorem trans (h : Behind m ts middle) (h' : Behind n middle rest) : Behind (m + n) ts rest := by
  obtain ⟨passed, rfl, hm, heof⟩ := h
  obtain ⟨passed', rfl, hn, heof'⟩ := h'
  refine ⟨passed ++ passed', by simp, ?_, List.forall_mem_append.mpr ⟨heof, heof'⟩⟩
  rw [List.length_append]
  omega

theorem mono (h : Behind n ts rest) (hm : m ≤ n) : Behind m ts rest := by
  obtain ⟨passed, hpassed, hn, heof⟩ := h
  exact ⟨passed, hpassed, Nat.le_trans hm hn, heof⟩

theorem tail (h : next ts ≠ .eof) : Behind 1 ts ts.tail := by
  cases ts with
  | nil => exact absurd rfl h
  | cons t ts => exact ⟨[t], rfl, Nat.le_refl 1, List.forall_mem_singleton.mpr h⟩

theorem length_le (h : Behind n ts rest) : rest.length + n ≤ ts.length := by
  obtain ⟨passed, rfl, hn, -⟩ := h
  rw [List.length_append]
  omega

theorem mem {t : Placed} (h : Behind n ts rest) (ht : t ∈ rest) : t ∈ ts := by
  obtain ⟨passed, rfl, -, -⟩ := h
  exact List.mem_append_right passed ht

theorem readable (h : Behind n ts rest) (hts : Readable ts) : Readable rest where
  mem_eof := by
    obtain ⟨passed, rfl, -, heof⟩ := h
    obtain ⟨t, ht, hend⟩ := hts.mem_eof
    exact ⟨t, (List.mem_append.mp ht).resolve_left fun hmem => heof t hmem hend, hend⟩
  scanned t ht := hts.scanned t (h.mem ht)

end Behind

theorem Readable.ne_nil {ts : List Placed} (h : Readable ts) : ts ≠ [] := by
  obtain ⟨t, ht, -⟩ := h.mem_eof
  exact List.ne_nil_of_mem ht

/-! ## Readers -/

/-- How reading `ts` comes out: at least `n` tokens further with a good result, or with a fault on
the line of one of them. With room for twenty steps for each token, the bound is not the fault. -/
inductive Outcome {α : Type} (room n : Nat) (good : α → Prop) (ts : List Placed) :
    Except SyntaxError (α × List Placed) → Prop
  | ok {a : α} {rest : List Placed} (hbehind : Behind n ts rest) (ha : good a) :
    Outcome room n good ts (.ok (a, rest))
  | error {e : SyntaxError} (hline : ∃ t ∈ ts, t.line = e.line)
      (hdeep : 20 * ts.length ≤ room → e.fault ≠ .tooDeep) : Outcome room n good ts (.error e)

/-- The reader gets on by at least `n` of any tokens, with a good result. -/
def Advances {α : Type} (room n : Nat) (good : α → Prop) (p : Parse α) : Prop :=
  ∀ ts, Readable ts → Outcome room n good ts (p ts)

/-- The same where a token is next. -/
def AdvancesAt {α : Type} (t : Token) (room n : Nat) (good : α → Prop) (p : Parse α) : Prop :=
  ∀ ts, Readable ts → next ts = t → Outcome room n good ts (p ts)

/-- The reader has no fault here, and takes a token where its result says so. -/
def TakesAt {α : Type} (ts : List Placed) (takes : α → Bool) (p : Parse α) : Prop :=
  ∃ a rest, p ts = .ok (a, rest) ∧ Behind (takes a).toNat ts rest

abbrev Takes {α : Type} (takes : α → Bool) (p : Parse α) : Prop := ∀ ts, TakesAt ts takes p

section Rules

variable {α β : Type} {room room' m n : Nat} {good : α → Prop} {good' : β → Prop} {p q : Parse α}
  {f : α → Parse β} {t : Token}

theorem Outcome.bind {ts : List Placed} {result : Except SyntaxError (α × List Placed)}
    (h : Outcome room' m good ts result) (hroom : room ≤ room')
    (hf : ∀ a rest, Behind m ts rest → good a →
      Outcome (room - 20 * m) (n - m) good' rest (f a rest)) :
    Outcome room n good' ts (result.bind fun r => f r.1 r.2) := by
  cases h with
  | @ok a rest hbehind ha =>
      have hlength := hbehind.length_le
      have hrest := hf a rest hbehind ha
      change Outcome room n good' ts (f a rest)
      generalize f a rest = result at hrest
      cases hrest with
      | ok hbehind' hb => exact .ok ((hbehind.trans hbehind').mono (by omega)) hb
      | error hline hdeep =>
          obtain ⟨t, ht, hline⟩ := hline
          exact .error ⟨t, hbehind.mem ht, hline⟩ fun hle => hdeep (by omega)
  | error hline hdeep => exact .error hline fun hle => hdeep (Nat.le_trans hle hroom)

namespace Advances

theorem pure {a : α} (ha : good a) : Advances room 0 good (Pure.pure a) :=
  fun ts _ => .ok (.refl ts) ha

theorem mono (h : Advances room' m good p) (hroom : room ≤ room') (hn : n ≤ m) :
    Advances room n good p := by
  intro ts hts
  have houtcome := h ts hts
  generalize p ts = result at houtcome ⊢
  cases houtcome with
  | ok hbehind ha => exact .ok (hbehind.mono hn) ha
  | error hline hdeep => exact .error hline fun hle => hdeep (Nat.le_trans hle hroom)

/-- A reader that comes last needs no tokens where enough were taken before it. -/
theorem last (h : Advances room' m good p) (hroom : room ≤ room') : Advances room 0 good p :=
  h.mono hroom (Nat.zero_le m)

theorem fail {fault : Fault} (h : fault ≠ .tooDeep) : Advances room n good (Parse.fail fault) := by
  intro ts hts
  obtain ⟨t, ts, rfl⟩ := List.exists_cons_of_ne_nil hts.ne_nil
  exact .error ⟨t, List.mem_cons_self, rfl⟩ fun _ => h

theorem refuse (part : Refused) : Advances room n good (Parse.refuse part) := fail nofun

/-- Where the bound is used up there is no room for any tokens. -/
theorem deep : Advances 0 n good (Parse.fail .tooDeep) := by
  intro ts hts
  obtain ⟨t, ts, rfl⟩ := List.exists_cons_of_ne_nil hts.ne_nil
  exact .error ⟨t, List.mem_cons_self, rfl⟩ fun hle => absurd hle (by simp)

theorem bind (hp : Advances room' m good p) (hroom : room ≤ room')
    (hf : ∀ a, good a → Advances (room - 20 * m) (n - m) good' (f a)) :
    Advances room n good' (p >>= f) := by
  intro ts hts
  rw [Parse.bind_apply]
  exact (hp ts hts).bind hroom fun a rest hbehind ha => hf a ha rest (hbehind.readable hts)

theorem ite {b : Prop} [Decidable b] (hp : Advances room n good p) (hq : Advances room n good q) :
    Advances room n good (if b then p else q) := by
  split_ifs
  · exact hp
  · exact hq

/-- What is read on a condition may have taken nothing. -/
theorem when (condition : Bool) (hp : Advances room' m good p) (hroom : room ≤ room')
    {f : Option α → Parse β} (hf : ∀ a, Advances room n good' (f a)) :
    Advances room n good' (Parse.when condition p >>= f) := by
  cases condition with
  | true =>
      have hsome : Advances room' 0 (fun _ => True) (some <$> p) :=
        (hp.last (Nat.le_refl room')).bind (Nat.le_refl room') fun _ _ => pure trivial
      exact hsome.bind hroom fun a _ => hf a
  | false => exact hf none

/-- What is done next may depend on the next token. -/
theorem look {f : Token → Parse β}
    (hf : ∀ t : Token, t.IsScanned → AdvancesAt t room n good' (f t)) :
    Advances room n good' (Parse.peek >>= f) := by
  intro ts hts
  rw [Parse.bind_apply]
  obtain ⟨t, ts, rfl⟩ := List.exists_cons_of_ne_nil hts.ne_nil
  exact hf t.token (hts.scanned t List.mem_cons_self) (t :: ts) hts rfl

end Advances

theorem AdvancesAt.here (h : Advances room n good p) : AdvancesAt t room n good p :=
  fun ts hts _ => h ts hts

theorem AdvancesAt.skip {f : Unit → Parse β} (ht : t ≠ .eof)
    (hf : Advances (room - 20) (n - 1) good' (f ())) :
    AdvancesAt t room n good' (Parse.skip >>= f) := by
  rintro ts hts rfl
  rw [Parse.bind_apply]
  have hskip : Outcome room 1 (fun _ => True) ts (Parse.skip ts) := .ok (.tail ht) trivial
  exact hskip.bind (Nat.le_refl room) fun _ rest hbehind _ => hf rest (hbehind.readable hts)

theorem AdvancesAt.ite {b : Prop} [Decidable b] (hp : AdvancesAt t room n good p)
    (hq : AdvancesAt t room n good q) : AdvancesAt t room n good (if b then p else q) := by
  split_ifs
  · exact hp
  · exact hq

namespace TakesAt

variable {ts : List Placed} {takes : α → Bool} {takes' : β → Bool}

theorem pure {a : α} (ha : takes a = false) : TakesAt ts takes (Pure.pure a) :=
  ⟨a, ts, rfl, (Behind.refl ts).mono (by rw [ha]; exact Nat.le_refl 0)⟩

theorem look {f : Token → Parse β} (h : TakesAt ts takes' (f (next ts))) :
    TakesAt ts takes' (Parse.peek >>= f) := by
  rwa [TakesAt, Parse.bind_apply]

theorem lookSecond {f : Token → Parse β} (h : TakesAt ts takes' (f (second ts))) :
    TakesAt ts takes' (Parse.peekSecond >>= f) := by
  rwa [TakesAt, Parse.bind_apply]

theorem skip {f : Unit → Parse β} (h : next ts ≠ .eof)
    (hf : TakesAt ts.tail (fun _ => false) (f ())) : TakesAt ts takes' (Parse.skip >>= f) := by
  obtain ⟨b, rest, hrest, hbehind⟩ := hf
  refine ⟨b, rest, ?_, ((Behind.tail h).trans hbehind).mono (Bool.toNat_le _)⟩
  rw [Parse.bind_apply]
  exact hrest

theorem bind (hp : TakesAt ts takes p) (hf : ∀ a rest, TakesAt rest (fun _ => false) (f a)) :
    TakesAt ts (fun _ => false) (p >>= f) := by
  obtain ⟨a, middle, hmiddle, hbehind⟩ := hp
  obtain ⟨b, rest, hrest, hbehind'⟩ := hf a middle
  refine ⟨b, rest, ?_, (hbehind.trans hbehind').mono (Nat.zero_le _)⟩
  rw [Parse.bind_apply, hmiddle]
  exact hrest

end TakesAt

namespace Takes

variable {takes : α → Bool}

theorem bind (hp : Takes takes p)
    (hf : ∀ a, Advances (room - 20 * (takes a).toNat) (n - (takes a).toNat) good' (f a)) :
    Advances room n good' (p >>= f) := by
  intro ts hts
  rw [Parse.bind_apply]
  obtain ⟨a, rest, heq, hbehind⟩ := hp ts
  have hp : Outcome room (takes a).toNat (· = a) ts (p ts) := heq ▸ .ok hbehind rfl
  refine hp.bind (Nat.le_refl room) fun b rest hbehind hb => ?_
  subst hb
  exact hf b rest (hbehind.readable hts)

theorem eatOp (op : String) : Takes id (Parse.eatOp op) := by
  intro ts
  refine ⟨_, _, Parse.eatOp_apply op ts, ?_⟩
  by_cases h : next ts = .op op
  · simpa [h] using Behind.tail (by rw [h]; nofun)
  · simpa [h] using Behind.refl ts

theorem eatKeyword (keyword : String) : Takes id (Parse.eatKeyword keyword) := by
  intro ts
  refine ⟨_, _, Parse.eatKeyword_apply keyword ts, ?_⟩
  by_cases h : next ts = .name keyword
  · simpa [h] using Behind.tail (by rw [h]; nofun)
  · simpa [h] using Behind.refl ts

theorem comparison? : Takes Option.isSome comparison? := by
  intro ts
  refine .look ?_
  split
  case h_1 h | h_2 h | h_3 h | h_4 h | h_5 h | h_6 h | h_7 h => exact .skip (h ▸ nofun) (.pure rfl)
  case h_8 h =>
    refine .skip (h ▸ nofun) (.bind (eatKeyword "not" _) fun b rest => ?_)
    split_ifs <;> exact .pure rfl
  case h_9 h =>
    refine .lookSecond ?_
    split_ifs with hin
    · exact .skip (h ▸ nofun) (.skip (by rw [next_tail, hin]; nofun) (.pure rfl))
    · exact .pure rfl
  case h_10 => exact .pure rfl

theorem argumentName? : Takes (fun _ => false) argumentName? := by
  intro ts
  refine .look (.lookSecond ?_)
  split
  · rename_i n hname heq
    split_ifs
    · exact .pure rfl
    · exact .skip (hname ▸ nofun) (.skip (by rw [next_tail, heq]; nofun) (.pure rfl))
  · exact .pure rfl

end Takes

/-! ## Small readers -/

namespace Advances

theorem eatOp (op : String) (hp : Advances (room - 20) (n - 1) good p)
    (hq : Advances room n good q) :
    Advances room n good (Parse.eatOp op >>= fun found => if found then p else q) :=
  (Takes.eatOp op).bind fun found => by
    cases found
    · exact hq
    · exact hp

theorem eatKeyword (keyword : String) (hp : Advances (room - 20) (n - 1) good p)
    (hq : Advances room n good q) :
    Advances room n good (Parse.eatKeyword keyword >>= fun found => if found then p else q) :=
  (Takes.eatKeyword keyword).bind fun found => by
    cases found
    · exact hq
    · exact hp

theorem tryOp (op : String) {f : Bool → Parse β} (hf : ∀ found, Advances room n good' (f found)) :
    Advances room n good' (Parse.eatOp op >>= f) :=
  (Takes.eatOp op).bind fun found => (hf found).mono (Nat.sub_le _ _) (Nat.sub_le _ _)

/-- What is done next may depend on the next token, without a reader taking it. -/
theorem see {look : Parse α} {f : α → Parse β} (hlook : ∀ ts, ∃ a, look ts = .ok (a, ts))
    (hf : ∀ a, Advances room n good' (f a)) : Advances room n good' (look >>= f) := by
  have htakes : Takes (fun _ => false) look := fun ts =>
    (hlook ts).imp fun a h => ⟨ts, h, .refl ts⟩
  exact htakes.bind hf

theorem atOp (op : String) {f : Bool → Parse β} (hf : ∀ found, Advances room n good' (f found)) :
    Advances room n good' (Parse.atOp op >>= f) := see (fun _ => ⟨_, rfl⟩) hf

theorem atKeyword (keyword : String) {f : Bool → Parse β}
    (hf : ∀ found, Advances room n good' (f found)) :
    Advances room n good' (Parse.atKeyword keyword >>= f) := see (fun _ => ⟨_, rfl⟩) hf

theorem atLineEnd {f : Bool → Parse β} (hf : ∀ found, Advances room n good' (f found)) :
    Advances room n good' (Parse.atLineEnd >>= f) := see (fun _ => ⟨_, rfl⟩) hf

theorem argumentName? {f : Option String → Parse β}
    (hf : ∀ name, Advances room n good' (f name)) :
    Advances room n good' (Script.argumentName? >>= f) := Takes.argumentName?.bind hf

theorem comparison? {f : Option Comparison → Parse β} (hnone : Advances room n good' (f none))
    (hsome : ∀ c, Advances (room - 20) (n - 1) good' (f (some c))) :
    Advances room n good' (Script.comparison? >>= f) :=
  Takes.comparison?.bind fun c => by
    cases c with
    | none => exact hnone
    | some c => exact hsome c

theorem expected (what : String) : Advances room n good (Parse.expected what)  :=
  look fun _ _ => .here (.fail nofun)

theorem expectOp (op : String) : Advances room 1 (fun _ => True) (Parse.expectOp op) :=
  eatOp op (pure trivial) (expected _)

theorem expectKeyword (keyword : String) :
    Advances room 1 (fun _ => True) (Parse.expectKeyword keyword) :=
  eatKeyword keyword (pure trivial) (expected _)

theorem expectName : Advances room 1 IsNoNumber expectName := by
  refine look fun t ht => ?_
  split
  · exact .ite (.here (.expected _)) (.skip nofun (.pure ht.name))
  · exact .here (.expected _)

theorem expectLineEnd : Advances room 0 (fun _ => True) Parse.expectLineEnd := by
  refine look fun t _ => ?_
  split
  · exact .skip nofun (f := fun _ => Pure.pure ()) (pure trivial)
  · exact .here (.pure trivial)
  · exact .here (.expected _)

theorem takeOp (op : String) {f : Unit → Parse β}
    (hf : Advances (room - 20) (n - 1) good' (f ())) :
    Advances room n good' (Parse.expectOp op >>= f) :=
  (expectOp op).bind (Nat.le_refl room) fun _ _ => hf

theorem takeKeyword (keyword : String) {f : Unit → Parse β}
    (hf : Advances (room - 20) (n - 1) good' (f ())) :
    Advances room n good' (Parse.expectKeyword keyword >>= f) :=
  (expectKeyword keyword).bind (Nat.le_refl room) fun _ _ => hf

theorem takeName {f : String → Parse β}
    (hf : ∀ name, IsNoNumber name → Advances (room - 20) (n - 1) good' (f name)) :
    Advances room n good' (Script.expectName >>= f) :=
  expectName.bind (Nat.le_refl room) hf

theorem lineEnd {f : Unit → Parse β} (hf : Advances room n good' (f ())) :
    Advances room n good' (Parse.expectLineEnd >>= f) :=
  expectLineEnd.bind (Nat.le_refl room) fun _ _ => hf

theorem importLocalName : Advances room 0 (fun _ => True) importLocalName :=
  eatKeyword "as" (takeName fun _ _ => pure trivial) (pure trivial)

end Advances

end Rules

end ModelGraph.Script
