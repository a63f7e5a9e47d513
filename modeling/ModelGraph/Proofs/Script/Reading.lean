import Mathlib.Data.List.Basic
import ModelGraph.Proofs.Script.Writing

/-!
# Reading tokens

What the small readers do, by the next token alone, and how expressions begin and end. The token
after an expression decides whether it ends there: `bond` says up to which place it would be drawn
in.
-/

namespace ModelGraph.Script

/-- The next token; the end of the text once all are used. -/
def next (ts : List Placed) : Token := (ts.head?.map (·.token)).getD .eof

@[simp] theorem next_cons (t : Placed) (ts : List Placed) : next (t :: ts) = t.token := rfl

/-- The token after the next. -/
def second (ts : List Placed) : Token := (ts[1]?.map (·.token)).getD .eof

@[simp] theorem second_cons_cons (t u : Placed) (ts : List Placed) :
    second (t :: u :: ts) = u.token := rfl

/-- Tokens on one line. -/
def placed (line : Nat) (tokens : List Token) : List Placed := tokens.map (⟨·, line⟩)

@[simp] theorem placed_nil (line : Nat) : placed line [] = [] := rfl

@[simp] theorem placed_cons (line : Nat) (t : Token) (tokens : List Token) :
    placed line (t :: tokens) = ⟨t, line⟩ :: placed line tokens := rfl

@[simp] theorem placed_append (line : Nat) (xs ys : List Token) :
    placed line (xs ++ ys) = placed line xs ++ placed line ys := List.map_append

namespace Parse

variable {α β : Type}

@[simp] theorem pure_apply (a : α) (ts : List Placed) :
    (Pure.pure a : Parse α) ts = .ok (a, ts) := rfl

@[simp] theorem bind_apply (p : Parse α) (f : α → Parse β) (ts : List Placed) :
    (p >>= f) ts = (p ts).bind fun r => f r.1 r.2 := by
  change Parse.bind p f ts = _
  unfold Parse.bind
  cases p ts <;> rfl

@[simp] theorem map_apply (f : α → β) (p : Parse α) (ts : List Placed) :
    (f <$> p) ts = (p ts).bind fun r => .ok (f r.1, r.2) := bind_apply p _ ts

@[simp] theorem branch_apply (b : Prop) [Decidable b] (p q : Parse α) (ts : List Placed) :
    (if b then p else q) ts = if b then p ts else q ts := by
  split_ifs <;> rfl

@[simp] theorem ok_bind {ε : Type} (a : α) (f : α → Except ε β) :
    (Except.ok a).bind f = f a := rfl

@[simp] theorem peek_apply (ts : List Placed) : peek ts = .ok (next ts, ts) := rfl

@[simp] theorem peekSecond_apply (ts : List Placed) : peekSecond ts = .ok (second ts, ts) := rfl

@[simp] theorem skip_cons (t : Placed) (ts : List Placed) : skip (t :: ts) = .ok ((), ts) := rfl

@[simp] theorem atOp_apply (op : String) (ts : List Placed) :
    atOp op ts = .ok (decide (next ts = .op op), ts) := rfl

@[simp] theorem atKeyword_apply (keyword : String) (ts : List Placed) :
    atKeyword keyword ts = .ok (decide (next ts = .name keyword), ts) := rfl

@[simp] theorem eatOp_apply (op : String) (ts : List Placed) :
    eatOp op ts = .ok (decide (next ts = .op op), if next ts = .op op then ts.tail else ts) := by
  by_cases h : next ts = .op op <;> simp [eatOp, h, skip]

@[simp] theorem eatKeyword_apply (keyword : String) (ts : List Placed) :
    eatKeyword keyword ts =
      .ok (decide (next ts = .name keyword), if next ts = .name keyword then ts.tail else ts) := by
  by_cases h : next ts = .name keyword <;> simp [eatKeyword, h, skip]

@[simp] theorem expectOp_cons (op : String) (line : Nat) (ts : List Placed) :
    expectOp op (⟨.op op, line⟩ :: ts) = .ok ((), ts) := by
  simp [expectOp]

@[simp] theorem when_true (p : Parse α) (ts : List Placed) :
    Parse.when true p ts = (p ts).bind fun r => .ok (some r.1, r.2) := map_apply some p ts

@[simp] theorem when_false (p : Parse α) (ts : List Placed) :
    Parse.when false p ts = .ok (none, ts) := rfl

end Parse

open Parse

@[simp] theorem expectName_cons (n : Identifier) (line : Nat) (ts : List Placed) :
    expectName (⟨.name n.name, line⟩ :: ts) = .ok (n.name, ts) := by
  simp [expectName, n.not_keyword]

/-! ## Atoms

The first token tells which atom it is. -/

section Atom

variable (fuel line : Nat) (ts : List Placed)

theorem atom_name (n : Identifier) :
    atom (fuel + 1) (⟨.name n.name, line⟩ :: ts) = .ok (.id n.name, ts) := by
  change (if isKeyword n.name = true then _ else _ : Parse Expr) _ = _
  rw [n.not_keyword]
  rfl

theorem atom_int (i : Int64) : atom (fuel + 1) (⟨.int i, line⟩ :: ts) = .ok (.int i, ts) :=
  rfl

theorem atom_float (x : Float) : atom (fuel + 1) (⟨.float x, line⟩ :: ts) = .ok (.float x, ts) :=
  rfl

theorem atom_str (s : String) :
    atom (fuel + 1) (⟨.str s, line⟩ :: ts) = .ok (.str (stringRun s ts).1, (stringRun s ts).2) := rfl

theorem atom_list : atom (fuel + 1) (⟨.op "[", line⟩ :: ts) =
    (listItems fuel [] >>= fun items => expectOp "]" >>= fun _ => return .list items) ts := rfl

theorem atom_dict : atom (fuel + 1) (⟨.op "\x7b", line⟩ :: ts) =
    (dictEntries fuel [] >>= fun entries => expectOp "\x7d" >>= fun _ => return .dict entries) ts := rfl

theorem atom_enclosed : atom (fuel + 1) (⟨.op "(", line⟩ :: ts) =
    (do
      if ← eatOp ")" then return .tuple []
      else
        let first ← expression fuel
        if ← atKeyword "for" then refuse .generator
        else if ← eatOp ")" then return first
        else
          let items ← if ← eatOp "," then tupleItems fuel [first] else Parse.pure [first]
          expectOp ")"
          return .tuple items : Parse Expr) ts := rfl

end Atom

/-- A run of string literals passes over string literals only. -/
theorem exists_eq_append_stringRun (text : String) (ts : List Placed) :
    ∃ passed, ts = passed ++ (stringRun text ts).2 ∧ ∀ t ∈ passed, ∃ s, t.token = .str s := by
  fun_induction stringRun text ts with
  | case1 text next line rest ih =>
      obtain ⟨passed, hpassed, hstr⟩ := ih
      exact ⟨⟨.str next, line⟩ :: passed, congrArg _ hpassed,
        List.forall_mem_cons.mpr ⟨⟨next, rfl⟩, hstr⟩⟩
  | case2 text ts _ => exact ⟨[], rfl, nofun⟩

theorem parse_of_tokenize {source : String} {tokens : List Placed}
    (h : tokenize source.toList = .ok tokens) :
    parse source = (statements (nestingBound tokens) [] tokens).map Prod.fst := by
  rw [parse, h]
  rfl

/-! ## Ends of expressions -/

/-- The weakest place whose expressions do not go on with a token: closing marks end any expression,
an operator ends the operands on its left. -/
def bond : Token → Option Nat
  | .newline | .eof => some 0
  | .name n =>
    if n = "or" then some 1
    else if n = "and" then some 2
    else if n ∈ ["in", "is", "not"] then some 4
    else none
  | .op op =>
    if op ∈ [")", "]", "\x7d", ",", ":", "="] then some 0
    else if op ∈ ["==", "!=", "<", "<=", ">", ">="] then some 4
    else if op = "|" then some 5
    else if op = "&" then some 6
    else if op ∈ ["+", "-"] then some 7
    else if op ∈ ["*", "/", "//", "%", "@"] then some 8
    else if op = "**" then some 10
    else if op ∈ ["(", "[", "."] then some 11
    else none
  | _ => none

/-- An expression at a place ends before the next token. -/
def Ends (place : Nat) (ts : List Placed) : Prop := ∃ b ∈ bond (next ts), b ≤ place

theorem Ends.mono {p q : Nat} {ts : List Placed} (h : Ends p ts) (hpq : p ≤ q) : Ends q ts := by
  obtain ⟨b, hb, hle⟩ := h
  exact ⟨b, hb, Nat.le_trans hle hpq⟩

/-- A token that would be drawn into an expression is not next where the expression ends. -/
theorem Ends.next_ne {place : Nat} {ts : List Placed} (h : Ends place ts) {t : Token}
    (ht : ∀ b ∈ bond t, place < b) : next ts ≠ t := by
  rintro rfl
  obtain ⟨b, hb, hle⟩ := h
  exact absurd (ht b hb) (by omega)

theorem Ends.next_ne_op {place : Nat} {ts : List Placed} (h : Ends place ts) (op : String)
    (hop : ∀ b ∈ bond (.op op), place < b) : next ts ≠ .op op := h.next_ne hop

theorem ends_cons {place : Nat} {t : Token} {line : Nat} {ts : List Placed} {b : Nat}
    (ht : bond t = some b) (hb : b ≤ place) : Ends place (⟨t, line⟩ :: ts) := ⟨b, ht, hb⟩

/-! ## Beginnings of expressions -/

/-- What begins an expression at a place. -/
def opens (place : Nat) : Token → Prop
  | .name n => isKeyword n = false ∨ n = "not" ∧ place ≤ 2
  | .int _ | .str _ => True
  | .op op => op ∈ ["(", "[", "\x7b"] ∨ op ∈ ["-", "+", "~"] ∧ place ≤ 8
  | _ => False

/-- Tokens that begin like an expression at a place, and unlike a named argument. -/
def Begins (place : Nat) (tokens : List Token) : Prop :=
  ∃ t rest, tokens = t :: rest ∧ opens place t ∧ ((∃ n, t = .name n) → rest.head? ≠ some (.op "="))

theorem opens.mono {p q : Nat} {t : Token} (h : opens q t) (hpq : p ≤ q) : opens p t := by
  cases t with
  | name n => exact h.imp_right fun h => ⟨h.1, Nat.le_trans hpq h.2⟩
  | op op => exact h.imp_right fun h => ⟨h.1, Nat.le_trans hpq h.2⟩
  | _ => exact h

theorem Begins.mono {p q : Nat} {tokens : List Token} (h : Begins q tokens) (hpq : p ≤ q) :
    Begins p tokens := by
  obtain ⟨t, rest, htokens, hopens, hname⟩ := h
  exact ⟨t, rest, htokens, hopens.mono hpq, hname⟩

theorem Begins.append {place : Nat} {tokens : List Token} (h : Begins place tokens)
    {others : List Token} (hothers : others.head? ≠ some (.op "=")) :
    Begins place (tokens ++ others) := by
  obtain ⟨t, rest, rfl, hopens, hname⟩ := h
  refine ⟨t, rest ++ others, rfl, hopens, fun hn => ?_⟩
  cases rest with
  | nil => exact hothers
  | cons u rest => exact hname hn

theorem Begins.head?_ne {place : Nat} {tokens : List Token} (h : Begins place tokens) {t : Token}
    (ht : ¬ opens place t) : tokens.head? ≠ some t := by
  obtain ⟨u, rest, rfl, hopens, -⟩ := h
  rintro heq
  obtain rfl := Option.some.inj heq
  exact ht hopens

theorem Begins.next_ne {place : Nat} {tokens : List Token} (h : Begins place tokens) {t : Token}
    (ht : ¬ opens place t) (line : Nat) (ts : List Placed) :
    next (placed line tokens ++ ts) ≠ t := by
  obtain ⟨u, rest, rfl, hopens, -⟩ := h
  rintro rfl
  exact ht hopens

theorem Begins.length_pos {place : Nat} {tokens : List Token} (h : Begins place tokens) :
    0 < tokens.length := by
  obtain ⟨t, rest, rfl, -, -⟩ := h
  simp

theorem Begins.ne_nil {place : Nat} {tokens : List Token} (h : Begins place tokens) : tokens ≠ [] :=
  List.ne_nil_of_length_pos h.length_pos

theorem argumentName?_eq_none {ts : List Placed}
    (h : ∀ n, next ts = .name n → second ts ≠ .op "=") : argumentName? ts = .ok (none, ts) := by
  unfold argumentName?
  simp only [bind_apply, peek_apply, ok_bind, peekSecond_apply]
  rfl

/-- An expression is no named argument. -/
theorem Begins.argumentName? {place : Nat} {tokens : List Token} (h : Begins place tokens)
    (line : Nat) {ts : List Placed} (hts : next ts ≠ .op "=") :
    argumentName? (placed line tokens ++ ts) = .ok (none, placed line tokens ++ ts) := by
  obtain ⟨t, rest, rfl, -, hname⟩ := h
  refine argumentName?_eq_none fun n hn => ?_
  have hrest := hname ⟨n, hn⟩
  cases rest with
  | nil => cases ts <;> exact hts
  | cons u rest => simpa using hrest

namespace Surface

theorem begins_enclose {e : Surface} (h : Begins e.strength e.tokens) (place : Nat) :
    Begins place (e.tokensAt place) := by
  unfold tokensAt enclose
  split_ifs with hplace
  · exact ⟨_, _, rfl, Or.inl (by simp), by simp⟩
  · exact h.mono (by omega)

theorem begins_tokens (e : Surface) : Begins e.strength e.tokens := by
  induction e with
  | name n => exact ⟨_, _, rfl, Or.inl n.not_keyword, by simp⟩
  | text s => exact ⟨_, _, rfl, trivial, by simp⟩
  | integer n => exact ⟨_, _, rfl, trivial, by simp⟩
  | list items => exact ⟨_, _, rfl, Or.inl (by simp), by simp⟩
  | tuple items => exact ⟨_, _, rfl, Or.inl (by simp), by simp⟩
  | dict entries => exact ⟨_, _, rfl, Or.inl (by simp), by simp⟩
  | attr target member ih => exact (begins_enclose ih 10).append (by simp)
  | call target arguments ih =>
      simp only [tokens, List.append_assoc]
      exact (begins_enclose ih 10).append (by simp)
  | index target first others ih =>
      simp only [tokens, List.append_assoc]
      exact (begins_enclose ih 10).append (by simp)
  | slice target start stop step ih =>
      simp only [tokens, List.append_assoc]
      exact (begins_enclose ih 10).append (by simp)
  | binary op left right ih =>
      rw [tokens]
      refine (begins_enclose ih op.level.strength).append ?_
      cases op <;> simp [BinaryOperator.token]
  | not operand ih =>
      refine ⟨_, _, rfl, Or.inr ⟨rfl, Nat.le_refl 2⟩, fun _ => ?_⟩
      exact (begins_enclose ih 2).head?_ne (by simp [opens])
  | compare first op second others ih =>
      simp only [tokens, List.append_assoc]
      refine (begins_enclose ih 4).mono (by simp [strength]) |>.append ?_
      cases op <;> simp [ComparisonOperator.tokens]
  | unary op operand =>
      refine ⟨_, _, rfl, ?_, ?_⟩ <;> cases op <;> simp [UnaryOperator.token, opens, strength]
  | power base exponent ih =>
      exact ((begins_enclose ih 10).append (by simp)).mono (by simp [strength])

theorem begins_tokensAt (place : Nat) (e : Surface) : Begins place (e.tokensAt place) :=
  begins_enclose e.begins_tokens place

end Surface

end ModelGraph.Script
