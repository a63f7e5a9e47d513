import ModelGraph.Proofs.Number.Word
import ModelGraph.Proofs.Script.Layout
import ModelGraph.Proofs.Script.RoundTrip

/-!
# Integer literals

An integer is written with the digits of its magnitude, after a minus sign if it is negative. The
scanner reads digits without their sign, and the descent puts the sign to what they are. Every word is
read back in this way but the least one: its magnitude is no word, so its digits are read as a double.
-/

namespace ModelGraph.Script

open Parse

/-- The text of a word: a minus sign if it is negative, and the digits of its magnitude, with any
underscores after the first. -/
def IsLiteral (n : Int64) (text : List Char) : Prop :=
  ∃ digits, IsNumeral n.toInt.natAbs digits ∧ text = if n < 0 then '-' :: digits else digits

/-- The tokens of the literal of a word. -/
def literalTokens (n : Int64) : List Token :=
  if n < 0 then [.op "-", .ofNat n.toInt.natAbs] else [.ofNat n.toInt.natAbs]

/-! ## Scanning -/

theorem digit_notMem_operators {c : Char} (hc : c.isDigit) : ∀ op ∈ operators, c ∉ op.toList := by
  have hnone : ∀ op ∈ operators, op.toList.any Char.isDigit = false := by decide
  exact fun op hop hmem => List.any_eq_false.mp (hnone op hop) c hmem hc

namespace Scan

theorem step_minus {s : Scan} {c : Char} {rest : List Char} (hline : s.lineStart = false)
    (hc : c.isDigit) (hrest : s.rest = '-' :: c :: rest) :
    s.step = .ok { s.push (.op "-") with rest := c :: rest } := by
  have hfind : operators.find? (fun o => o.toList.isPrefixOf ("-".toList ++ c :: rest)) = some "-" :=
    find?_operators_append_cons (by simp [operators]) (digit_notMem_operators hc)
  have hdash : "-".toList = ['-'] := rfl
  have hdepth : depthAfter s.depth "-" = s.depth := by simp [depthAfter]
  rw [hdash, List.singleton_append, ← hrest] at hfind
  rw [step_of_startsToken hline hrest (by simp [StartsToken]), if_neg (by decide),
    if_neg (by decide), if_neg (by simp), if_neg (by decide), Scan.operator, hfind, hrest]
  simp only [hdepth]
  rfl

/-- A literal is taken up to the end of the text. -/
theorem reaches_literal {n : Int64} {s : Scan} (hline : s.lineStart = false)
    (hrest : IsLiteral n s.rest) :
    s.Reaches { s with
      rest := []
      tokens := ((literalTokens n).map (⟨·, s.line⟩)).reverse ++ s.tokens } := by
  obtain ⟨digits, hdigits, htext⟩ := hrest
  -- The digits are taken as a whole, wherever they begin.
  have hmagnitude : ∀ s' : Scan, s'.lineStart = false → s'.rest = digits →
      s'.Reaches { s'.push (.ofNat n.toInt.natAbs) with rest := [] } := by
    intro s' hline' hrest'
    have hstep := step_numeral hline' hdigits (hrest'.trans (List.append_nil _).symm) (Or.inl rfl)
    obtain ⟨c, others, hcons, -⟩ := hdigits.eq_cons
    exact reaches_of_step hstep (by simp [toDo, push, hline', hrest', hcons])
  unfold literalTokens
  by_cases hneg : n < 0
  · rw [if_pos hneg] at htext ⊢
    obtain ⟨c, others, hcons, hc⟩ := hdigits.eq_cons
    have hstep := step_minus hline hc (htext.trans (by rw [hcons]))
    have hminus : s.Reaches { s.push (.op "-") with rest := c :: others } :=
      reaches_of_step hstep (by simp [toDo, push, hline, htext, hcons])
    exact hminus.trans (hmagnitude _ hline hcons.symm)
  · rw [if_neg hneg] at htext ⊢
    exact hmagnitude s hline htext

end Scan

/-- After a literal the end of a line ends a logical line. -/
theorem hasContent_literalTokens {n : Int64} {s : Scan} {before : List Placed} {line : Nat}
    (h : s.tokens = ((literalTokens n).map (⟨·, line⟩)).reverse ++ before) : s.hasContent := by
  obtain ⟨others, hlast⟩ : ∃ others, s.tokens = ⟨.ofNat n.toInt.natAbs, line⟩ :: others := by
    rw [h, literalTokens]
    split_ifs <;> exact ⟨_, rfl⟩
  rw [Scan.hasContent, hlast]
  rcases Token.ofNat_cases n.toInt.natAbs with ⟨i, hi⟩ | ⟨x, hx⟩
  · simp [hi]
  · simp [hx]

/-- The start of the line is scanned up to the value. -/
theorem Scan.reaches_value (text : List Char) :
    (Scan.start ("x = ".toList ++ text)).Reaches
      ⟨text, 1, false, 0, [], [⟨.op "=", 1⟩, ⟨.name "x", 1⟩]⟩ := by
  have hchars : "x = ".toList ++ text = 'x' :: ' ' :: '=' :: ' ' :: text := rfl
  have hwritten : ∀ t ∈ [Token.name "x", .op "="], t.IsWritten :=
    List.forall_mem_cons.mpr ⟨printTarget.isWord_name,
      List.forall_mem_singleton.mpr (by simp [Token.IsWritten, operators])⟩
  have hlayout : (Scan.start ('x' :: ' ' :: '=' :: ' ' :: text)).Reaches
      ⟨'x' :: ' ' :: '=' :: ' ' :: text, 1, false, 0, [], []⟩ :=
    reaches_of_step (step_start (by simp [StartsToken])) (by simp [toDo, start])
  have htarget : Scan.Reaches ⟨'x' :: ' ' :: '=' :: ' ' :: text, 1, false, 0, [], []⟩
      ⟨' ' :: text, 1, false, 0, [], [⟨.op "=", 1⟩, ⟨.name "x", 1⟩]⟩ :=
    reaches_spaced ⟨fun _ => true, fun _ => true⟩ hwritten (.blank text) rfl rfl
  rw [hchars]
  exact (hlayout.trans htarget).trans (reaches_of_step (step_blank rfl rfl) (by simp [toDo]))

theorem tokenize_literal {n : Int64} {text : List Char} (h : IsLiteral n text) :
    tokenize ("x = ".toList ++ text) =
      .ok (placed 1 (.name "x" :: .op "=" :: literalTokens n) ++ [⟨.newline, 1⟩, ⟨.eof, 1⟩]) := by
  have hreaches := (Scan.reaches_value text).trans (Scan.reaches_literal rfl h)
  rw [tokenize_of_reaches hreaches rfl rfl,
    Scan.finish_of_hasContent (hasContent_literalTokens rfl)]
  simp [placed, lineTokens]

/-! ## The descent -/

/-- A number as an expression: its word, or past the words the double nearest to it. -/
def Expr.ofNat (n : Nat) : Expr :=
  ((int64? n).map .int).getD (.float (floatOfDecimal false n 0))

theorem atom_ofNat (n fuel line : Nat) (ts : List Placed) :
    atom (fuel + 1) (⟨.ofNat n, line⟩ :: ts) = .ok (.ofNat n, ts) := by
  unfold Token.ofNat Expr.ofNat
  cases int64? n with
  | none => exact atom_float fuel line ts _
  | some i => exact atom_int fuel line ts i

/-- A token that is an expression and no operator is read as an operand. -/
theorem reads_signed_of_atom {t : Token} {e : Expr} (hsign : ∀ op, t ≠ .op op)
    (hatom : ∀ fuel line ts, atom (fuel + 1) (⟨t, line⟩ :: ts) = .ok (e, ts)) :
    Reads signed 14 8 [t] e := by
  intro fuel line ts hfuel hends
  simp only [List.length_singleton] at hfuel
  obtain ⟨fuel, rfl⟩ : ∃ m, fuel = m + 2 := ⟨fuel - 2, by omega⟩
  have htrailers := trailers_of_ends fuel e (hends.mono (by decide))
  have hpower := hends.next_ne_op "**" (by decide)
  simp [signed, hsign, hatom, htrailers, hpower]

theorem reads_signed_ofNat (n : Nat) : Reads signed 14 8 [.ofNat n] (.ofNat n) := by
  refine reads_signed_of_atom (fun op => ?_) (atom_ofNat n)
  rcases Token.ofNat_cases n with ⟨i, hi⟩ | ⟨x, hx⟩
  · simp [hi]
  · simp [hx]

theorem reads_signed_minus {t : Token} {e : Expr} (h : Reads signed 14 8 [t] e) :
    Reads signed 14 8 [.op "-", t] (negate e) := by
  intro fuel line ts hfuel hends
  simp only [List.length_cons, List.length_nil] at hfuel
  obtain ⟨fuel, rfl⟩ : ∃ m, fuel = m + 1 := ⟨fuel - 1, by omega⟩
  have hread := h fuel line ts (by simp only [List.length_singleton]; omega) hends
  simp only [placed_cons, placed_nil, List.cons_append, List.nil_append] at hread
  simp [signed, hread]

/-- What the tokens of a literal are read as. -/
def literalExpr (n : Int64) : Expr :=
  if n < 0 then negate (.ofNat n.toInt.natAbs) else .ofNat n.toInt.natAbs

theorem reads_literalTokens (n : Int64) : Reads expression 0 0 (literalTokens n) (literalExpr n) := by
  have hmagnitude := reads_signed_ofNat n.toInt.natAbs
  unfold literalTokens literalExpr
  split_ifs with hneg
  · have hsigned : Stage.signed.Understands _ _ := reads_signed_minus hmagnitude
    have hbegins : Begins 8 [.op "-", .ofNat n.toInt.natAbs] :=
      ⟨_, _, rfl, Or.inr ⟨by simp, Nat.le_refl 8⟩, by simp⟩
    exact hsigned.outward (s := .whole) hbegins (Nat.zero_le _)
  · have hsigned : Stage.signed.Understands _ _ := hmagnitude
    have htoken : Token.ofNat n.toInt.natAbs = .int n := by
      rw [Token.ofNat, int64?_natAbs hneg, Option.map_some, Option.getD_some]
    have hbegins : Begins 8 [.ofNat n.toInt.natAbs] := by
      rw [htoken]
      exact ⟨_, _, rfl, trivial, by simp⟩
    exact hsigned.outward (s := .whole) hbegins (Nat.zero_le _)

/-- The digits of the least word are those of no word, and the double that they are is negated. -/
theorem negate_ofNat_minValue :
    negate (.ofNat Int64.minValue.toInt.natAbs) = .float (floatOfWord Int64.minValue) := by
  have hmagnitude : Int64.minValue.toInt.natAbs = 0x8000000000000000 := by decide
  have hnone : int64? (0x8000000000000000 : Nat) = none :=
    int64?_eq_none_iff.mpr fun w hw => by
      have hhigh := Int64.toInt_lt w
      omega
  have hdouble : -(floatOfDecimal false 0x8000000000000000 0) = floatOfWord Int64.minValue := by
    decide
  rw [hmagnitude, Expr.ofNat, hnone, Option.map_none, Option.getD_none, negate, hdouble]

theorem literalExpr_eq (n : Int64) :
    literalExpr n = if n = Int64.minValue then .float (floatOfWord n) else .int n := by
  unfold literalExpr
  split_ifs with hneg hmin hmin
  · rw [hmin, negate_ofNat_minValue]
  · rw [Expr.ofNat, int64?_natAbs_of_neg hneg hmin, Option.map_some, Option.getD_some, negate,
      Int64.neg_neg]
  · exact absurd (hmin ▸ by decide) hneg
  · rw [Expr.ofNat, int64?_natAbs hneg, Option.map_some, Option.getD_some]

/-- The line that assigns the literal of a word to `x` is read as the one assignment of that word, but
for the least word, of which it is the double. -/
theorem parse_literal {n : Int64} {text : String} (h : IsLiteral n text.toList) :
    parse ("x = " ++ text) =
      .ok [.assign (.id "x") (if n = Int64.minValue then .float (floatOfWord n) else .int n)] := by
  have hbound : 20 * ((literalTokens n).length + 2) + 5 ≤ nestingBound
      (placed 1 (.name "x" :: .op "=" :: literalTokens n) ++ [⟨.newline, 1⟩, ⟨.eof, 1⟩]) := by
    simp only [nestingBound, placed, List.length_append, List.length_map, List.length_cons]
    omega
  have htarget : printTarget.name = "x" := rfl
  have hstatements := statements_of_reads printTarget 1 (reads_literalTokens n) hbound
  rw [htarget] at hstatements
  rw [parse, String.toList_append, tokenize_literal h]
  change (statements _ [] _).bind _ = _
  rw [hstatements, literalExpr_eq]
  rfl

/-- The least word is a double, and the next one an integer, here with underscores. -/
theorem parse_literal_least :
    IsLiteral Int64.minValue "-9223372036854775808".toList ∧
    parse ("x = " ++ "-9223372036854775808") =
      .ok [.assign (.id "x") (.float (floatOfWord Int64.minValue))] ∧
    IsLiteral (-9223372036854775807) "-9_223_372_036_854_775_807".toList ∧
    parse ("x = " ++ "-9_223_372_036_854_775_807") =
      .ok [.assign (.id "x") (.int (-9223372036854775807))] := by
  have hleast : IsLiteral Int64.minValue "-9223372036854775808".toList :=
    ⟨"9223372036854775808".toList, ⟨by decide, by decide⟩, by decide⟩
  have hnext : IsLiteral (-9223372036854775807) "-9_223_372_036_854_775_807".toList :=
    ⟨"9_223_372_036_854_775_807".toList, ⟨by decide, by decide⟩, by decide⟩
  exact ⟨hleast, parse_literal hleast, hnext, parse_literal hnext⟩

end ModelGraph.Script
