import Mathlib.Logic.Relation
import ModelGraph.Proofs.Number.Word
import ModelGraph.Proofs.Script.Layout

/-!
# Steps of the scanner

What one step of the scanner can do, over any text. It passes over characters, finds a token, or
opens and closes blocks at the start of a line, and never goes back: the text that is left is an end
of the text before, and lines are counted at most once for each end of a line. So scanning ends, and
a fault stands on a line of the text.
-/

namespace ModelGraph.Script

/-! ## Places in a text -/

/-- Reading on line `line` before `cs` has come to `rest` on line `line'`. -/
structure Ahead (line : Nat) (cs : List Char) (line' : Nat) (rest : List Char) : Prop where
  suffix : rest <:+ cs
  le : line ≤ line'
  count_le : line' + rest.count '\n' ≤ line + cs.count '\n'

/-- A fault of a text on one of the lines from `line` that `cs` stands on. -/
structure FaultWithin (line : Nat) (cs : List Char) (e : SyntaxError) : Prop where
  le : line ≤ e.line
  le_count : e.line ≤ line + cs.count '\n'
  fault_ne : e.fault ≠ .tooDeep

namespace Ahead

variable {line line' line'' : Nat} {cs rest rest' : List Char}

theorem of_suffix (h : rest <:+ cs) (line : Nat) : Ahead line cs line rest :=
  ⟨h, Nat.le_refl line, Nat.add_le_add_left (h.sublist.count_le '\n') line⟩

theorem newline (line : Nat) (rest : List Char) : Ahead line ('\n' :: rest) (line + 1) rest :=
  ⟨List.suffix_cons _ _, Nat.le_succ line, by rw [List.count_cons_self]; omega⟩

theorem trans (h : Ahead line cs line' rest) (h' : Ahead line' rest line'' rest') :
    Ahead line cs line'' rest' :=
  ⟨h'.suffix.trans h.suffix, Nat.le_trans h.le h'.le, Nat.le_trans h'.count_le h.count_le⟩

theorem fault {e : SyntaxError} (h : Ahead line cs line' rest) (he : FaultWithin line' rest e) :
    FaultWithin line cs e :=
  ⟨Nat.le_trans h.le he.le, Nat.le_trans he.le_count h.count_le, he.fault_ne⟩

end Ahead

theorem faultWithin_line (line : Nat) (cs : List Char) (fault : Fault) (h : fault ≠ .tooDeep) :
    FaultWithin line cs ⟨line, fault⟩ := ⟨Nat.le_refl line, Nat.le_add_right line _, h⟩

/-! ## String literals -/

/-- What one round of reading a string literal does, whatever the bound. -/
inductive BodyRound (q : Quoting) (line : Nat) (done cs : List Char) : Prop where
  | closes {text : String} {rest : List Char} (hsuffix : rest <:+ cs)
      (hless : rest.length < cs.length)
      (heq : ∀ fuel, stringBody q (fuel + 1) line done cs = .ok (text, line, rest))
  | fails {e : SyntaxError} (he : FaultWithin line cs e)
      (heq : ∀ fuel, stringBody q (fuel + 1) line done cs = .error e)
  | goesOn {line' : Nat} {done' rest : List Char} (hahead : Ahead line cs line' rest)
      (hless : rest.length < cs.length)
      (heq : ∀ fuel, stringBody q (fuel + 1) line done cs = stringBody q fuel line' done' rest)

theorem escapedChar_error {line count : Nat} {cs : List Char} {e : SyntaxError}
    (h : escapedChar line count cs = .error e) : ∃ digits, e = ⟨line, .invalidEscape digits⟩ := by
  unfold escapedChar at h
  dsimp only at h
  split at h
  · split_ifs at h
    exact ⟨_, (Except.error.inj h).symm⟩
  · exact ⟨_, (Except.error.inj h).symm⟩

/-- A numeric escape is passed over with its digits, or is a fault. -/
theorem bodyRound_numeric {q : Quoting} {line : Nat} (count : Nat) {done cs rest : List Char}
    (hrest : rest <:+ cs) (hless : rest.length < cs.length)
    (hok : ∀ c, escapedChar line count rest = .ok c → ∀ fuel,
      stringBody q (fuel + 1) line done cs = stringBody q fuel line (c :: done) (rest.drop count))
    (herror : ∀ e, escapedChar line count rest = .error e → ∀ fuel,
      stringBody q (fuel + 1) line done cs = .error e) : BodyRound q line done cs := by
  cases h : escapedChar line count rest with
  | ok c =>
      have hdrop := List.drop_suffix count rest
      exact .goesOn (.of_suffix (hdrop.trans hrest) line) (Nat.lt_of_le_of_lt hdrop.length_le hless)
        (hok c h)
  | error e =>
      obtain ⟨digits, rfl⟩ := escapedChar_error h
      exact .fails (faultWithin_line line cs (.invalidEscape digits) nofun) (herror _ h)

/-- What stands behind a backslash for one other character. -/
def plainEscapes : List (Char × Char) :=
  [('n', '\n'), ('t', '\t'), ('r', '\r'), ('0', '\x00'), ('\\', '\\'), ('\'', '\''), ('"', '"')]

/-- What stands behind a backslash before a number of digits. -/
def numericEscapes : List (Char × Nat) := [('x', 2), ('u', 4), ('U', 8)]

/-- A round at a backslash that does not close the literal. -/
theorem bodyRound_backslash {q : Quoting} {next : Char} {rest : List Char}
    (hclose : ¬ ('\\' = q.quote ∧ ¬ q.triple))
    (htriple : ¬ ('\\' = q.quote ∧ (next :: rest).take 2 = [q.quote, q.quote])) (line : Nat)
    (done : List Char) : BodyRound q line done ('\\' :: next :: rest) := by
  have htail : next :: rest <:+ '\\' :: next :: rest := List.suffix_cons _ _
  have hrest : rest <:+ '\\' :: next :: rest := (List.suffix_cons next rest).trans htail
  have hless : rest.length < ('\\' :: next :: rest).length :=
    Nat.lt_add_of_pos_right Nat.zero_lt_two
  have hsame : Ahead line ('\\' :: next :: rest) line rest := .of_suffix hrest line
  have hopen : ¬ ('\\' = '\n' ∧ ¬ q.triple) := fun h => absurd h.1 (by decide)
  by_cases hraw : q.raw
  · have heq : ∀ fuel, stringBody q (fuel + 1) line done ('\\' :: next :: rest) =
        stringBody q fuel line (next :: '\\' :: done) rest := fun fuel => by
      rw [stringBody, if_neg hclose, if_neg htriple, if_neg hopen]
      simp [hraw]
    exact .goesOn hsame hless heq
  by_cases hplain : next ∈ plainEscapes.map (·.1)
  · obtain ⟨⟨next, c⟩, hc, rfl⟩ := List.mem_map.mp hplain
    have heq : ∀ fuel, stringBody q (fuel + 1) line done ('\\' :: next :: rest) =
        stringBody q fuel line (c :: done) rest := fun fuel => by
      rw [stringBody, if_neg hclose, if_neg htriple, if_neg hopen]
      simp only [plainEscapes, List.mem_cons, Prod.mk.injEq, List.not_mem_nil, or_false] at hc
      rcases hc with ⟨rfl, rfl⟩ | ⟨rfl, rfl⟩ | ⟨rfl, rfl⟩ | ⟨rfl, rfl⟩ | ⟨rfl, rfl⟩ | ⟨rfl, rfl⟩ |
          ⟨rfl, rfl⟩ <;>
        simp [hraw]
    exact .goesOn hsame hless heq
  by_cases hnumeric : next ∈ numericEscapes.map (·.1)
  · obtain ⟨⟨next, count⟩, hcount, rfl⟩ := List.mem_map.mp hnumeric
    simp only [numericEscapes, List.mem_cons, Prod.mk.injEq, List.not_mem_nil, or_false] at hcount
    refine bodyRound_numeric count hrest hless (fun c hc fuel => ?_) fun e he fuel => ?_
    all_goals
      rw [stringBody, if_neg hclose, if_neg htriple, if_neg hopen]
      rcases hcount with ⟨rfl, rfl⟩ | ⟨rfl, rfl⟩ | ⟨rfl, rfl⟩ <;> simp [*]
  by_cases hnewline : next = '\n'
  · subst hnewline
    have heq : ∀ fuel, stringBody q (fuel + 1) line done ('\\' :: '\n' :: rest) =
        stringBody q fuel (line + 1) done rest := fun fuel => by
      rw [stringBody, if_neg hclose, if_neg htriple, if_neg hopen]
      simp [hraw]
    exact .goesOn ((Ahead.of_suffix htail line).trans (.newline line rest)) hless heq
  have heq : ∀ fuel, stringBody q (fuel + 1) line done ('\\' :: next :: rest) =
      stringBody q fuel line (next :: '\\' :: done) rest := fun fuel => by
    rw [stringBody, if_neg hclose, if_neg htriple, if_neg hopen]
    simp only [plainEscapes, numericEscapes, List.map_cons, List.map_nil, List.mem_cons,
      List.not_mem_nil, or_false, not_or] at hplain hnumeric
    simp [*]
  exact .goesOn hsame hless heq

theorem bodyRound (q : Quoting) (line : Nat) (done cs : List Char) : BodyRound q line done cs := by
  cases cs with
  | nil => exact .fails (faultWithin_line line [] .unterminatedString nofun) fun fuel => rfl
  | cons c rest =>
      have htail : rest <:+ c :: rest := List.suffix_cons c rest
      by_cases hclose : c = q.quote ∧ ¬ q.triple
      · exact .closes htail (by simp) fun fuel => by rw [stringBody, if_pos hclose]
      by_cases htriple : c = q.quote ∧ rest.take 2 = [q.quote, q.quote]
      · have hdrop := List.drop_suffix 2 rest
        exact .closes (hdrop.trans htail) (Nat.lt_succ_of_le hdrop.length_le) fun fuel => by
          rw [stringBody, if_neg hclose, if_pos htriple]
      by_cases hopen : c = '\n' ∧ ¬ q.triple
      · exact .fails (faultWithin_line line _ .unterminatedString nofun) fun fuel => by
          rw [stringBody, if_neg hclose, if_neg htriple, if_pos hopen]
      by_cases hplain : c ≠ '\\'
      · have heq : ∀ fuel, stringBody q (fuel + 1) line done (c :: rest) =
            stringBody q fuel (if c = '\n' then line + 1 else line) (c :: done) rest := by
          intro fuel
          rw [stringBody, if_neg hclose, if_neg htriple, if_neg hopen]
          dsimp only
          rw [if_pos hplain]
        refine .goesOn ?_ (by simp) heq
        split_ifs with hnewline
        · exact hnewline ▸ .newline line rest
        · exact .of_suffix htail line
      obtain rfl := not_not.mp hplain
      cases rest with
      | nil =>
          exact .fails (faultWithin_line line _ .unterminatedString nofun) fun fuel => by
            rw [stringBody, if_neg hclose, if_neg htriple, if_neg hopen]
            rfl
      | cons next rest => exact bodyRound_backslash hclose htriple line done

/-- A string literal ends ahead of where it began, or has a fault on one of its lines. -/
theorem stringBody_cases (q : Quoting) (fuel line : Nat) (done cs : List Char) :
    (∃ text line' rest, stringBody q fuel line done cs = .ok (text, line', rest) ∧
      Ahead line cs line' rest ∧ rest.length < cs.length) ∨
    ∃ e, stringBody q fuel line done cs = .error e ∧ FaultWithin line cs e := by
  induction fuel generalizing line done cs with
  | zero => exact .inr ⟨_, rfl, faultWithin_line line cs .unterminatedString nofun⟩
  | succ fuel ih =>
      cases bodyRound q line done cs with
      | closes hsuffix hless heq => exact .inl ⟨_, _, _, heq fuel, .of_suffix hsuffix line, hless⟩
      | fails he heq => exact .inr ⟨_, heq fuel, he⟩
      | @goesOn line' done' rest hahead hless heq =>
          rw [heq]
          rcases ih line' done' rest with
            ⟨text, line'', rest', hread, hrest, hshorter⟩ | ⟨e, hread, he⟩
          · exact .inl ⟨text, line'', rest', hread, hahead.trans hrest, Nat.lt_trans hshorter hless⟩
          · exact .inr ⟨e, hread, hahead.fault he⟩

/-- A bound above the number of characters is not used up. -/
theorem stringBody_eq_of_lt (q : Quoting) {fuel fuel' : Nat} (line : Nat) (done : List Char)
    {cs : List Char} (hfuel : cs.length < fuel) (hfuel' : cs.length < fuel') :
    stringBody q fuel line done cs = stringBody q fuel' line done cs := by
  induction fuel generalizing fuel' line done cs with
  | zero => exact absurd hfuel (Nat.not_lt_zero _)
  | succ fuel ih =>
      obtain ⟨fuel', rfl⟩ := Nat.exists_eq_succ_of_ne_zero (Nat.ne_zero_of_lt hfuel')
      cases bodyRound q line done cs with
      | closes hsuffix hless heq => rw [heq, heq]
      | fails he heq => rw [heq, heq]
      | goesOn hahead hless heq =>
          rw [heq, heq]
          exact ih _ _ (by omega) (by omega)

/-! ## Numbers -/

/-- What is taken of a number: nothing is lost, and without the form of a float there are digits and
underscores only. -/
structure IsTail (isFloat : Bool) (cs : List Char) (r : List Char × Bool × List Char) : Prop where
  append_eq : r.1 ++ r.2.2 = cs
  float_of_float : isFloat = true → r.2.1 = true
  digit_of_mem : r.2.1 = false → ∀ c ∈ r.1, ('0' ≤ c ∧ c ≤ '9') ∨ c = '_'

namespace IsTail

variable {isFloat : Bool} {cs : List Char} {r : List Char × Bool × List Char}

theorem stop (isFloat : Bool) (cs : List Char) : IsTail isFloat cs ([], isFloat, cs) :=
  ⟨rfl, id, fun _ => nofun⟩

theorem digit {c : Char} (hc : ('0' ≤ c ∧ c ≤ '9') ∨ c = '_') (h : IsTail isFloat cs r) :
    IsTail isFloat (c :: cs) ([c] ++ r.1, r.2) where
  append_eq := congrArg (c :: ·) h.append_eq
  float_of_float := h.float_of_float
  digit_of_mem hr := List.forall_mem_cons.mpr ⟨hc, h.digit_of_mem hr⟩

theorem float (isFloat : Bool) (taken : List Char) (h : IsTail true cs r) :
    IsTail isFloat (taken ++ cs) (taken ++ r.1, r.2) where
  append_eq := by rw [List.append_assoc, h.append_eq]
  float_of_float _ := h.float_of_float rfl
  digit_of_mem hr := by simp [h.float_of_float rfl] at hr

end IsTail

theorem isTail_numberTail (isFloat : Bool) (cs : List Char) :
    IsTail isFloat cs (numberTail isFloat cs) := by
  fun_induction numberTail isFloat cs with
  | case1 isFloat => exact .stop isFloat []
  | case2 isFloat c rest _ hc ih => exact ih.digit hc
  | case3 isFloat c rest _ _ _ ih => exact ih.float isFloat [c]
  | case4 isFloat c _ _ _ _ rest ih => exact ih.float isFloat [c, '+']
  | case5 isFloat c _ _ _ _ rest ih => exact ih.float isFloat [c, '-']
  | case6 isFloat c _ _ _ _ rest _ _ ih => exact ih.float isFloat [c]
  | case7 isFloat c rest => exact .stop isFloat (c :: rest)

/-- A number begins with a digit or a point, and that is taken. -/
theorem length_numberTail_lt {c : Char} (rest : List Char) (hc : ('0' ≤ c ∧ c ≤ '9') ∨ c = '.') :
    (numberTail false (c :: rest)).2.2.length < (c :: rest).length := by
  have hstart : ∃ isFloat, (numberTail false (c :: rest)).2.2 = (numberTail isFloat rest).2.2 := by
    rw [numberTail.eq_def]
    by_cases hdigit : ('0' ≤ c ∧ c ≤ '9') ∨ c = '_'
    · exact ⟨false, by simp only [if_pos hdigit]⟩
    · have hpoint : c = '.' ∧ ¬ false = true :=
        ⟨hc.resolve_left fun h => hdigit (.inl h), by decide⟩
      exact ⟨true, by simp only [if_neg hdigit, if_pos hpoint]⟩
  obtain ⟨isFloat, hrest⟩ := hstart
  have happend := congrArg List.length (isTail_numberTail isFloat rest).append_eq
  rw [List.length_append] at happend
  rw [hrest, List.length_cons]
  omega

/-! ## Moves -/

/-- The text does not begin with a digit. -/
def IsNoNumber (text : String) : Prop := ∀ c rest, text.toList = c :: rest → ¬('0' ≤ c ∧ c ≤ '9')

/-- What stands on a line: no mark of the layout and not the end of the text. No name begins with a
digit, and no number has a sign. -/
def Token.IsContent : Token → Prop
  | .newline | .indent | .dedent | .eof => False
  | .name text => IsNoNumber text
  | .int i => 0 ≤ i.toInt
  | _ => True

theorem isContent_int_of_nat {n : Nat} {i : Int64} (h : int64? n = some i) :
    (Token.int i).IsContent := by
  have hvalue := int64?_eq_some_iff.mp h
  change 0 ≤ i.toInt
  omega

namespace Scan

/-- What one step can do. -/
inductive Move (s : Scan) : Scan → Prop where
  /-- Blanks, comments, joined lines and lines without tokens are passed over. -/
  | pass {line : Nat} {rest : List Char} (hahead : Ahead s.line s.rest line rest)
      (hless : rest.length < s.rest.length) : Move s { s with rest, line }
  | content (token : Token) {line : Nat} {rest : List Char} (hline : s.lineStart = false)
      (htoken : token.IsContent) (hahead : Ahead s.line s.rest line rest)
      (hless : rest.length < s.rest.length) :
      Move s { { s with line }.push token with rest, depth := token.depthAfter s.depth }
  | endLine {rest : List Char} (hline : s.lineStart = false) (hdepth : s.depth = 0)
      (hrest : s.rest = '\n' :: rest) :
      Move s { s.endLine with rest, line := s.line + 1, lineStart := true }
  | indent {width : Nat} {rest : List Char} (hline : s.lineStart = true) (hrest : rest <:+ s.rest) :
      Move s { s.push .indent with rest, lineStart := false, indents := width :: s.indents }
  | dedent (closed : Nat) (indents : List Nat) {rest : List Char} (hline : s.lineStart = true)
      (hrest : rest <:+ s.rest) (hclosed : indents.length + closed = s.indents.length) :
      Move s { s with
        rest
        lineStart := false
        indents
        tokens := List.replicate closed ⟨.dedent, s.line⟩ ++ s.tokens }

/-- A step is a move or finds a fault on one of the lines ahead. -/
def Steps (s : Scan) (result : Except SyntaxError Scan) : Prop :=
  (∃ s', result = .ok s' ∧ s.Move s') ∨ ∃ e, result = .error e ∧ FaultWithin s.line s.rest e

variable {s : Scan}

theorem steps_fail (s : Scan) (fault : Fault) (h : fault ≠ .tooDeep) : s.Steps (s.fail fault) :=
  .inr ⟨_, rfl, faultWithin_line s.line s.rest fault h⟩

theorem steps_string (hline : s.lineStart = false) {cs : List Char} (hcs : cs <:+ s.rest)
    (raw : Bool) : s.Steps ({ s with rest := cs }.string raw) := by
  cases cs with
  | nil => exact s.steps_fail .unterminatedString nofun
  | cons quote rest =>
      have hbody : (if rest.take 2 = [quote, quote] then rest.drop 2 else rest) <:+
          quote :: rest := by
        split_ifs
        · exact (List.drop_suffix 2 rest).trans (List.suffix_cons quote rest)
        · exact List.suffix_cons quote rest
      have hahead := Ahead.of_suffix (hbody.trans hcs) s.line
      unfold Scan.string
      dsimp only
      generalize (if rest.take 2 = [quote, quote] then rest.drop 2 else rest) = body at hahead
      rcases stringBody_cases ⟨quote, rest.take 2 = [quote, quote], raw⟩ (body.length + 1) s.line []
          body with ⟨text, line, rest', hread, hrest, hless⟩ | ⟨e, hread, he⟩
      · rw [hread]
        exact .inl ⟨_, rfl, .content (.str text) hline trivial (hahead.trans hrest)
          (Nat.lt_of_lt_of_le hless hahead.suffix.length_le)⟩
      · rw [hread]
        exact .inr ⟨e, rfl, hahead.fault he⟩

theorem steps_number {c : Char} {rest : List Char} (hline : s.lineStart = false)
    (hrest : s.rest = c :: rest) (hc : ('0' ≤ c ∧ c ≤ '9') ∨ c = '.') : s.Steps s.number := by
  unfold Scan.number
  split
  case h_1 digits hdigits | h_2 digits hdigits =>
    have hsuffix : digits <:+ s.rest := by
      rw [hdigits]
      exact (List.suffix_cons _ _).trans (List.suffix_cons _ _)
    have hdrop := List.dropWhile_suffix (l := digits) fun c => isHexadecimal c || c == '_'
    dsimp only
    split
    · rename_i value hvalue
      obtain ⟨n, -, hn⟩ := Option.bind_eq_some_iff.mp hvalue
      refine .inl ⟨_, rfl, .content (.int value) hline (isContent_int_of_nat hn)
        (.of_suffix (hdrop.trans hsuffix) s.line) ?_⟩
      have hle := hdrop.length_le
      rw [hdigits, List.length_cons, List.length_cons]
      omega
    · exact .inr ⟨_, rfl, faultWithin_line s.line s.rest _ nofun⟩
  case h_3 =>
    have htail := isTail_numberTail false s.rest
    have hless := length_numberTail_lt rest hc
    rw [← hrest] at hless
    have hpush : ∀ token : Token, token.IsContent →
        s.Steps (.ok { s.push token with
          rest := (numberTail false s.rest).2.2
          depth := token.depthAfter s.depth }) := fun token htoken =>
      .inl ⟨_, rfl, .content token hline htoken
        (.of_suffix ⟨_, htail.append_eq⟩ s.line) hless⟩
    dsimp only
    generalize hfloat : floatNumeral? ((numberTail false s.rest).1.filter (· ≠ '_')) = float
    split_ifs with hform
    · cases float with
      | some x => exact hpush (.float x) trivial
      | none => exact s.steps_fail _ nofun
    · split
      · rename_i i hi
        have hdigits : ∀ c ∈ (numberTail false s.rest).1.filter (· ≠ '_'), c.isDigit := by
          intro c hc
          obtain ⟨hmem, hunderscore⟩ := List.mem_filter.mp hc
          have hdigit := (htail.digit_of_mem (Bool.eq_false_iff.mpr hform) c hmem).resolve_right
            (of_decide_eq_true hunderscore)
          exact (Bool.and_eq_true _ _).mpr ⟨decide_eq_true hdigit.1, decide_eq_true hdigit.2⟩
        rw [int64Numeral?, intNumeral?_of_isDigit 10 _ hdigits] at hi
        obtain ⟨j, hj, hi⟩ := Option.bind_eq_some_iff.mp hi
        obtain ⟨n, -, rfl⟩ := Option.map_eq_some_iff.mp hj
        exact hpush (.int i) (isContent_int_of_nat hi)
      · cases float with
        | some x => exact hpush (.float x) trivial
        | none => exact s.steps_fail _ nofun

theorem steps_name {c : Char} {rest : List Char} (hline : s.lineStart = false)
    (hrest : s.rest = c :: rest) (hdigit : ¬('0' ≤ c ∧ c ≤ '9')) (hc : Text.isLetter c ∨ c = '_') :
    s.Steps s.name := by
  have hpart : isNamePart c := by
    rw [isNamePart, Text.isLetterOrDigit, Bool.or_eq_true, Bool.or_eq_true, beq_iff_eq]
    exact hc.imp_left .inl
  have hsuffix : s.rest.dropWhile isNamePart <:+ s.rest := List.dropWhile_suffix _
  have hless : (s.rest.dropWhile isNamePart).length < s.rest.length := by
    rw [hrest, List.dropWhile_cons_of_pos hpart]
    exact Nat.lt_succ_of_le (List.dropWhile_suffix _).length_le
  have hname : IsNoNumber (String.ofList (s.rest.takeWhile isNamePart)) := by
    intro d others htext
    rw [String.toList_ofList, hrest, List.takeWhile_cons_of_pos hpart] at htext
    exact (List.cons.inj htext).1 ▸ hdigit
  have hplain : s.Steps (.ok { s.push (.name (String.ofList (s.rest.takeWhile isNamePart))) with
      rest := s.rest.dropWhile isNamePart }) :=
    .inl ⟨_, rfl, .content (.name _) hline hname (.of_suffix hsuffix s.line) hless⟩
  unfold Scan.name
  dsimp only
  split_ifs
  · exact steps_string hline hsuffix _
  · exact s.steps_fail (.refused .formattedString) (by simp)
  · exact hplain
  · exact hplain

theorem steps_operator {c : Char} {rest : List Char} (hline : s.lineStart = false)
    (hrest : s.rest = c :: rest) : s.Steps s.operator := by
  unfold Scan.operator
  cases hfind : operators.find? fun op => op.toList.isPrefixOf s.rest with
  | none =>
      rw [hrest]
      exact s.steps_fail (.unexpectedCharacter c) nofun
  | some op =>
      have hpos : ∀ op ∈ operators, 0 < op.length := by decide
      have hlength := hpos op (List.mem_of_find?_eq_some hfind)
      have hless : (s.rest.drop op.length).length < s.rest.length := by
        rw [List.length_drop, hrest, List.length_cons]
        omega
      exact .inl ⟨_, rfl, .content (.op op) hline trivial
        (.of_suffix (List.drop_suffix _ _) s.line) hless⟩

theorem indentation_suffix (width : Nat) (cs : List Char) : (indentation width cs).2 <:+ cs := by
  fun_induction indentation width cs with
  | case5 width rest => exact List.suffix_refl rest
  | _ => exact ‹_ <:+ _›.trans (List.suffix_cons _ _)

theorem steps_layout (hline : s.lineStart = true) : s.Steps s.layout := by
  have hsuffix := indentation_suffix 0 s.rest
  unfold Scan.layout
  generalize indentation 0 s.rest = measured at hsuffix
  obtain ⟨width, rest⟩ := measured
  dsimp only at hsuffix ⊢
  cases rest with
  | nil => exact .inl ⟨_, rfl, .dedent 0 s.indents hline hsuffix rfl⟩
  | cons c rest =>
      dsimp only
      by_cases hblank : c = '#' ∨ c = '\n'
      · rw [if_pos hblank]
        have hskip : skipLine (c :: rest) <:+ s.rest := (List.dropWhile_suffix _).trans hsuffix
        cases hnext : skipLine (c :: rest) with
        | nil =>
            exact .inl ⟨_, rfl, .pass (.of_suffix List.nil_suffix s.line)
              (Nat.lt_of_lt_of_le (Nat.succ_pos _) hsuffix.length_le)⟩
        | cons d next =>
            obtain rfl : d = '\n' := by
              have hhead := List.head?_dropWhile_not (· ≠ '\n') (c :: rest)
              rw [show (c :: rest).dropWhile (· ≠ '\n') = d :: next from hnext] at hhead
              simpa using hhead
            rw [hnext] at hskip
            exact .inl ⟨_, rfl, .pass ((Ahead.of_suffix hskip s.line).trans (.newline s.line next))
              (Nat.lt_of_lt_of_le (Nat.lt_succ_self _) hskip.length_le)⟩
      · rw [if_neg hblank]
        by_cases hdeeper : s.indents.headD 0 < width
        · rw [if_pos hdeeper]
          exact .inl ⟨_, rfl, .indent hline hsuffix⟩
        · rw [if_neg hdeeper, closeBlocks_eq]
          dsimp only
          split_ifs
          · refine .inl ⟨_, rfl, .dedent _ _ hline hsuffix ?_⟩
            rw [Nat.add_comm, ← List.length_append, List.takeWhile_append_dropWhile]
          · exact s.steps_fail .inconsistentDedent nofun

/-- Blanks, comments and joined lines add no token. -/
theorem steps_pass (passed : List Char) {rest : List Char} (hne : passed ≠ [])
    (hrest : s.rest = passed ++ rest) : s.Steps (.ok { s with rest }) := by
  have hpos := List.length_pos_of_ne_nil hne
  refine .inl ⟨_, rfl, .pass (.of_suffix ⟨passed, hrest.symm⟩ s.line) ?_⟩
  rw [hrest, List.length_append]
  omega

theorem steps_newline (passed : List Char) {rest : List Char}
    (hrest : s.rest = passed ++ '\n' :: rest) :
    s.Steps (.ok { s with rest, line := s.line + 1 }) := by
  have hahead : Ahead s.line s.rest s.line ('\n' :: rest) := .of_suffix ⟨passed, hrest.symm⟩ s.line
  refine .inl ⟨_, rfl, .pass (hahead.trans (.newline s.line rest)) ?_⟩
  rw [hrest, List.length_append, List.length_cons]
  omega

theorem steps_step (h : s.rest = [] → s.lineStart = true) : s.Steps s.step := by
  unfold Scan.step
  by_cases hline : s.lineStart
  · rw [if_pos hline]
    exact steps_layout hline
  · rw [if_neg hline]
    have hline : s.lineStart = false := Bool.eq_false_iff.mpr hline
    dsimp only
    split
    case h_1 hrest => exact absurd (h hrest) (by simp [hline])
    case h_2 hrest | h_3 hrest | h_4 hrest | h_5 hrest =>
      exact steps_pass [_] (List.cons_ne_nil _ []) hrest
    case h_6 rest hrest =>
      have hskip := List.takeWhile_append_dropWhile (p := (· ≠ '\n')) (l := rest)
      exact steps_pass ('#' :: rest.takeWhile (· ≠ '\n')) (List.cons_ne_nil _ _)
        (hrest.trans (congrArg ('#' :: ·) hskip.symm))
    case h_7 hrest => exact steps_newline ['\\'] hrest
    case h_8 hrest => exact steps_newline ['\\', '\r'] hrest
    case h_9 rest hrest =>
      by_cases hdepth : s.depth = 0
      · simp only [if_pos hdepth, line_endLine]
        exact .inl ⟨_, rfl, .endLine hline hdepth hrest⟩
      · simp only [if_neg hdepth]
        exact steps_newline [] hrest
    case h_10 c rest _ _ _ _ _ _ _ _ hrest =>
      split_ifs with hquote hdigit hpoint hletter
      · exact steps_string hline (List.suffix_refl s.rest) false
      · exact steps_number hline hrest (.inl hdigit)
      · exact steps_number hline hrest (.inr hpoint.1)
      · exact steps_name hline hrest hdigit hletter
      · exact steps_operator hline hrest

/-! ## Runs -/

namespace Move

variable {s' : Scan}

theorem ahead (h : s.Move s') : Ahead s.line s.rest s'.line s'.rest := by
  cases h with
  | pass hahead => exact hahead
  | content _ _ _ hahead => exact hahead
  | endLine _ _ hrest => exact hrest ▸ .newline s.line _
  | indent _ hrest => exact .of_suffix hrest s.line
  | dedent _ _ _ hrest => exact .of_suffix hrest s.line

/-- Every move uses up characters or leaves the start of a line. -/
theorem toDo_lt (h : s.Move s') : s'.toDo < s.toDo := by
  cases h with
  | pass _ hless | content _ _ _ _ hless =>
      exact Nat.add_lt_add_right (Nat.mul_lt_mul_of_pos_left hless Nat.two_pos) _
  | endLine hline _ hrest =>
      simp only [toDo, hline, hrest, List.length_cons, if_true, Bool.false_eq_true, if_false]
      omega
  | indent hline hrest =>
      have hle := hrest.length_le
      simp only [toDo, hline, if_true, Bool.false_eq_true, if_false]
      omega
  | dedent _ _ hline hrest =>
      have hle := hrest.length_le
      simp only [toDo, hline, if_true, Bool.false_eq_true, if_false]
      omega

end Move

/-- Where scanning has come to the end of the text. -/
structure Through (s s' : Scan) : Prop where
  moves : Relation.ReflTransGen Move s s'
  rest_eq : s'.rest = []
  lineStart_eq : s'.lineStart = false

theorem Through.ahead {s' : Scan} (h : s.Through s') : Ahead s.line s.rest s'.line [] := by
  have hmoves : ∀ {s' : Scan}, Relation.ReflTransGen Move s s' →
      Ahead s.line s.rest s'.line s'.rest := fun hmoves => by
    induction hmoves with
    | refl => exact .of_suffix List.suffix_rfl s.line
    | tail _ hmove ih => exact ih.trans hmove.ahead
  exact h.rest_eq ▸ hmoves h.moves

theorem run_cases {fuel : Nat} (hfuel : s.toDo < fuel) :
    (∃ s', s.run fuel = .ok s' ∧ s.Through s') ∨
      ∃ e, s.run fuel = .error e ∧ FaultWithin s.line s.rest e := by
  induction fuel generalizing s with
  | zero => exact absurd hfuel (Nat.not_lt_zero _)
  | succ fuel ih =>
      by_cases hend : s.rest.isEmpty ∧ ¬ s.lineStart
      · refine .inl ⟨s, by rw [run, if_pos hend], .refl, List.isEmpty_iff.mp hend.1, ?_⟩
        exact Bool.eq_false_iff.mpr hend.2
      · rw [run, if_neg hend]
        have hmore : s.rest = [] → s.lineStart = true := fun hrest =>
          not_not.mp fun hline => hend ⟨List.isEmpty_iff.mpr hrest, hline⟩
        rcases steps_step hmore with ⟨s', hstep, hmove⟩ | ⟨e, hstep, he⟩
        · rw [hstep]
          have hless := hmove.toDo_lt
          rcases ih (s := s') (by omega) with ⟨s'', hrun, hthrough⟩ | ⟨e, hrun, he⟩
          · exact .inl ⟨s'', hrun, { hthrough with moves := .head hmove hthrough.moves }⟩
          · exact .inr ⟨e, hrun, hmove.ahead.fault he⟩
        · rw [hstep]
          exact .inr ⟨e, rfl, he⟩

/-- A bound above the work that is left is not used up. -/
theorem run_eq_of_lt {fuel fuel' : Nat} (hfuel : s.toDo < fuel) (hfuel' : s.toDo < fuel') :
    s.run fuel = s.run fuel' := by
  induction fuel generalizing fuel' s with
  | zero => exact absurd hfuel (Nat.not_lt_zero _)
  | succ fuel ih =>
      obtain ⟨fuel', rfl⟩ := Nat.exists_eq_succ_of_ne_zero (Nat.ne_zero_of_lt hfuel')
      by_cases hend : s.rest.isEmpty ∧ ¬ s.lineStart
      · rw [run, run, if_pos hend, if_pos hend]
      · rw [run, run, if_neg hend, if_neg hend]
        have hmore : s.rest = [] → s.lineStart = true := fun hrest =>
          not_not.mp fun hline => hend ⟨List.isEmpty_iff.mpr hrest, hline⟩
        rcases steps_step hmore with ⟨s', hstep, hmove⟩ | ⟨e, hstep, -⟩
        · rw [hstep]
          have hless := hmove.toDo_lt
          exact ih (by omega) (by omega)
        · rw [hstep]

end Scan

theorem tokenize_cases (text : List Char) :
    (∃ s, tokenize text = .ok s.finish ∧ (Scan.start text).Through s) ∨
      ∃ e, tokenize text = .error e ∧ FaultWithin 1 text e := by
  rcases Scan.run_cases (s := .start text) (Nat.lt_succ_self _) with ⟨s, hrun, hs⟩ | ⟨e, hrun, he⟩
  · exact .inl ⟨s, congrArg (Except.map Scan.finish) hrun, hs⟩
  · exact .inr ⟨e, congrArg (Except.map Scan.finish) hrun, he⟩

theorem exists_through_of_tokenize {text : List Char} {tokens : List Placed}
    (h : tokenize text = .ok tokens) : ∃ s, (Scan.start text).Through s ∧ s.finish = tokens := by
  rcases tokenize_cases text with ⟨s, htokens, hs⟩ | ⟨e, htokens, -⟩ <;> rw [htokens] at h
  · exact ⟨s, hs, Except.ok.inj h⟩
  · cases h

end ModelGraph.Script
