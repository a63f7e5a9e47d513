import ModelGraph.Proofs.Script.Operators
import ModelGraph.Proofs.Script.Primaries
import ModelGraph.Proofs.Script.Scanning

/-!
# Parsing undoes printing

A printed expression is scanned to its tokens, the descent reads them at every stage, and the script
that assigns it has that one assignment.
-/

namespace ModelGraph.Script

open Parse

/-! ## Printed tokens can be scanned -/

/-- Every one of the tokens can be written. -/
def AllWritten (tokens : List Token) : Prop := ∀ t ∈ tokens, t.IsWritten

@[simp] theorem allWritten_nil : AllWritten [] := by simp [AllWritten]

@[simp] theorem allWritten_cons {t : Token} {tokens : List Token} :
    AllWritten (t :: tokens) ↔ t.IsWritten ∧ AllWritten tokens := List.forall_mem_cons

@[simp] theorem allWritten_append {xs ys : List Token} :
    AllWritten (xs ++ ys) ↔ AllWritten xs ∧ AllWritten ys := List.forall_mem_append

@[simp] theorem isWritten_op {op : String} : (Token.op op).IsWritten ↔ op ∈ operators := Iff.rfl

@[simp] theorem isWritten_name {n : String} : (Token.name n).IsWritten ↔ isWord n := Iff.rfl

theorem BinaryOperator.isWritten_token (op : BinaryOperator) : op.token.IsWritten := by
  cases op <;> simp [token, operators] <;> decide

theorem allWritten_commas {runs : List (List Token)} (h : ∀ run ∈ runs, AllWritten run) :
    AllWritten (commas runs) := by
  induction runs with
  | nil => simp
  | cons run runs ih =>
      have hrest := ih fun run hrun => h run (List.mem_cons_of_mem _ hrun)
      have hrun := h run (by simp)
      cases runs with
      | nil => simpa using hrun
      | cons next runs =>
          rw [commas_cons_cons, allWritten_append, allWritten_cons]
          exact ⟨hrun, by simp [operators], hrest⟩

namespace Surface

theorem allWritten_enclose {e : Surface} (h : AllWritten e.tokens) (place : Nat) :
    AllWritten (enclose place e e.tokens) := by
  unfold enclose
  split_ifs
  · simp [h, operators]
  · exact h

theorem allWritten_argument {a : Option Identifier × Surface} (h : AllWritten a.2.tokens) :
    AllWritten (argument a) := by
  obtain ⟨keyword, value⟩ := a
  cases keyword with
  | none => exact h
  | some keyword => simpa [argument, keyword.isWord_name, operators] using h

theorem allWritten_bound {bound : Option Surface} (h : ∀ e ∈ bound, AllWritten e.tokens) :
    AllWritten (boundTokens bound) ∧ AllWritten (stepTokens bound) := by
  cases bound with
  | none => simp [boundTokens, stepTokens]
  | some e => simpa [boundTokens, stepTokens, operators] using h e rfl

theorem allWritten_comparison (op : ComparisonOperator) : AllWritten op.tokens := by
  cases op <;> simp [ComparisonOperator.tokens, operators] <;> decide

theorem allWritten_chain {others : List (ComparisonOperator × Surface)}
    (h : ∀ link ∈ others, AllWritten link.2.tokens) : AllWritten (chainTokens others) := by
  induction others with
  | nil => simp [chainTokens]
  | cons link others ih =>
      obtain ⟨op, e⟩ := link
      have hrest := ih fun link hlink => h link (List.mem_cons_of_mem _ hlink)
      have he : AllWritten e.tokens := h (op, e) (by simp)
      simp [chainTokens, allWritten_comparison, allWritten_enclose he, hrest]

theorem allWritten_tokens (e : Surface) : AllWritten e.tokens := by
  induction e with
  | name n => simp [tokens, n.isWord_name]
  | text s => simp [tokens, Token.IsWritten]
  | integer n => simpa [tokens] using ⟨n, n.isLt, rfl⟩
  | list items ih =>
      have hitems := allWritten_commas (List.forall_mem_map.mpr ih)
      simp [tokens, hitems, operators]
  | tuple items ih =>
      have hitems := allWritten_commas (List.forall_mem_map.mpr ih)
      rw [tokens]
      split_ifs <;> simp [hitems, operators]
  | dict entries ih =>
      have hentries : ∀ entry ∈ entries,
          AllWritten (entry.1.tokens ++ .op ":" :: entry.2.tokens) := by
        intro entry hentry
        simp [ih entry hentry, operators]
      have hitems := allWritten_commas (List.forall_mem_map.mpr hentries)
      simp [tokens, hitems, operators]
  | attr target member ih => simp [tokens, allWritten_enclose ih, member.isWord_name, operators]
  | call target arguments ih iharguments =>
      have hitems := allWritten_commas
        (List.forall_mem_map.mpr fun a ha => allWritten_argument (iharguments a ha))
      simp [tokens, allWritten_enclose ih, hitems, operators]
  | index target first others ih ihfirst ihothers =>
      have hruns : ∀ run ∈ first.tokens :: others.map tokens, AllWritten run :=
        List.forall_mem_cons.mpr ⟨ihfirst, List.forall_mem_map.mpr ihothers⟩
      have hitems := allWritten_commas hruns
      simp [tokens, allWritten_enclose ih, hitems, operators]
  | slice target start stop step ih ihstart ihstop ihstep =>
      simp [tokens, allWritten_enclose ih, allWritten_bound ihstart, allWritten_bound ihstop,
        allWritten_bound ihstep, operators]
  | binary op left right ihleft ihright =>
      simp only [tokens, allWritten_append, allWritten_cons]
      exact ⟨allWritten_enclose ihleft _, op.isWritten_token, allWritten_enclose ihright _⟩
  | not operand ih =>
      simp only [tokens, allWritten_cons]
      exact ⟨by simp; decide, allWritten_enclose ih _⟩
  | compare first op second others ihfirst ihsecond ihothers =>
      simp [tokens, allWritten_enclose ihfirst, allWritten_enclose ihsecond,
        allWritten_comparison, allWritten_chain ihothers]
  | unary op operand ih =>
      simp only [tokens, allWritten_cons]
      exact ⟨by cases op <;> simp [UnaryOperator.token, operators], allWritten_enclose ih _⟩
  | power base exponent ihbase ihexponent =>
      simp [tokens, allWritten_enclose ihbase, allWritten_enclose ihexponent, operators]

/-! ## The descent -/

/-- The descent reads every expression at every stage, with the parentheses that its place needs. -/
theorem understood (e : Surface) : e.Understood := by
  induction e with
  | name n => exact understands_tokensAt (understands_name n)
  | text s => exact understands_tokensAt (understands_text s)
  | integer n => exact understands_tokensAt (understands_integer n)
  | list items ih => exact understands_tokensAt (understands_list ih)
  | tuple items ih => exact understands_tokensAt (understands_tuple ih)
  | dict entries ih => exact understands_tokensAt (understands_dict ih)
  | attr target member ih => exact understands_tokensAt (understands_attr member ih)
  | call target arguments ih iharguments =>
      exact understands_tokensAt (understands_call ih iharguments)
  | index target first others ih ihfirst ihothers =>
      exact understands_tokensAt (understands_index ih ihfirst ihothers)
  | slice target start stop step ih ihstart ihstop ihstep =>
      exact understands_tokensAt (understands_slice ih ihstart ihstop ihstep)
  | binary op left right ihleft ihright =>
      exact understands_tokensAt (understands_binary op ihleft ihright)
  | not operand ih => exact understands_tokensAt (understands_not ih)
  | compare first op second others ihfirst ihsecond ihothers =>
      exact understands_tokensAt (understands_compare op ihfirst ihsecond ihothers)
  | unary op operand ih => exact understands_tokensAt (understands_unary op ih)
  | power base exponent ihbase ihexponent =>
      exact understands_tokensAt (understands_power ihbase ihexponent)

end Surface

/-! ## The assignment -/

/-- The tokens of a line that assigns an expression to a name. -/
def assigning (target : Identifier) (e : Surface) : List Token :=
  .name target.name :: .op "=" :: e.tokens

/-- The name that printed expressions are assigned to. -/
def printTarget : Identifier := ⟨"x", by decide, by decide⟩

theorem spaced_assigning (style : Style) (e : Surface) :
    ("x = " ++ e.print style).toList = style.spaced (assigning printTarget e) := by
  obtain ⟨t, rest, htokens, -, -⟩ := e.begins_tokens
  simp [assigning, printTarget, Surface.print, htokens, Style.spell]

section Statement

variable (target : Identifier) (e : Surface) {tokens : List Token} {value : Expr} {fuel : Nat}
  (line : Nat) {ts : List Placed}

theorem expressionList_of_reads (h : Reads expression 0 0 tokens value)
    (hfuel : 20 * tokens.length ≤ fuel) (hends : Ends 0 ts) (hcomma : next ts ≠ .op ",") :
    expressionList fuel (placed line tokens ++ ts) = .ok (value, ts) := by
  have hread := h fuel line ts hfuel hends
  simp [expressionList, hread, hcomma]

theorem expressionList_tokens (hfuel : 20 * e.tokens.length ≤ fuel) (hends : Ends 0 ts)
    (hcomma : next ts ≠ .op ",") :
    expressionList fuel (placed line e.tokens ++ ts) = .ok (e.lower, ts) :=
  expressionList_of_reads line e.understood.whole hfuel hends hcomma

theorem assignment_of_reads (h : Reads expression 0 0 tokens value)
    (hfuel : 20 * (tokens.length + 2) ≤ fuel) (hts : next ts = .newline) :
    assignment fuel (placed line (.name target.name :: .op "=" :: tokens) ++ ts) =
      .ok (.assign (.id target.name) value, ts) := by
  have henough : 20 * (Surface.name target).tokens.length ≤ fuel := by
    simp only [Surface.tokens, List.length_singleton]
    omega
  have hequals : Ends 0 (⟨.op "=", line⟩ :: (placed line tokens ++ ts)) :=
    ends_cons rfl (Nat.le_refl 0)
  have htarget := expressionList_tokens (.name target) line henough hequals (by simp)
  have henough' : 20 * tokens.length ≤ fuel := by omega
  have hends : Ends 0 ts := ⟨0, by rw [hts]; rfl, Nat.le_refl 0⟩
  have hvalue := expressionList_of_reads line h henough' hends (by simp [hts])
  simp only [Surface.tokens, placed_cons, placed_nil, List.cons_append, List.nil_append,
    Surface.lower] at htarget
  simp [assignment, htarget, hvalue, hts]

theorem Identifier.ne_of_isKeyword (n : Identifier) (keyword : String)
    (h : isKeyword keyword = true) : n.name ≠ keyword := by
  rintro rfl
  simp [n.not_keyword] at h

/-- A statement that begins with a name that is no keyword is an assignment. -/
theorem simpleStatement_identifier (n : Identifier) :
    simpleStatement fuel (⟨.name n.name, line⟩ :: ts) =
      assignment fuel (⟨.name n.name, line⟩ :: ts) := by
  have hpass := n.ne_of_isKeyword "pass" (by decide)
  have hreturn := n.ne_of_isKeyword "return" (by decide)
  have himport := n.ne_of_isKeyword "import" (by decide)
  have hfrom := n.ne_of_isKeyword "from" (by decide)
  have hraise := n.ne_of_isKeyword "raise" (by decide)
  simp [simpleStatement, n.not_keyword]

theorem statement_identifier (n : Identifier) :
    statement (fuel + 1) (⟨.name n.name, line⟩ :: ts) =
      simpleStatements fuel [] (⟨.name n.name, line⟩ :: ts) := by
  have hdef := n.ne_of_isKeyword "def" (by decide)
  have hclass := n.ne_of_isKeyword "class" (by decide)
  have hif := n.ne_of_isKeyword "if" (by decide)
  have hfor := n.ne_of_isKeyword "for" (by decide)
  have hwhile := n.ne_of_isKeyword "while" (by decide)
  simp [statement, hdef, hclass, hif, hfor, hwhile]

theorem statements_of_reads (h : Reads expression 0 0 tokens value)
    (hfuel : 20 * (tokens.length + 2) + 5 ≤ fuel) :
    statements fuel [] (placed line (.name target.name :: .op "=" :: tokens) ++
      [⟨.newline, line⟩, ⟨.eof, line⟩]) =
        .ok ([.assign (.id target.name) value], [⟨.eof, line⟩]) := by
  obtain ⟨fuel, rfl⟩ : ∃ n, fuel = n + 5 := ⟨fuel - 5, by omega⟩
  have henough : 20 * (tokens.length + 2) ≤ fuel + 2 := by omega
  have hnext : next [⟨.newline, line⟩, ⟨.eof, line⟩] = .newline := rfl
  have hassignment := assignment_of_reads target line h henough hnext
  simp only [placed_cons, List.cons_append] at hassignment ⊢
  simp [statements, statement_identifier, simpleStatements, simpleStatement_identifier,
    hassignment, expectLineEnd]

theorem statements_assigning (hfuel : 20 * (assigning target e).length + 5 ≤ fuel) :
    statements fuel [] (placed line (assigning target e) ++ [⟨.newline, line⟩, ⟨.eof, line⟩]) =
      .ok ([.assign (.id target.name) e.lower], [⟨.eof, line⟩]) :=
  statements_of_reads target line e.understood.whole hfuel

end Statement

end ModelGraph.Script
