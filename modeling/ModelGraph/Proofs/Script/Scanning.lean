import Mathlib.Data.List.Find
import ModelGraph.Proofs.Script.Writing

/-!
# Scanning spaced tokens

Tokens that are written with single blanks between them are found again by the scanner. A written
token ends at the end of the text or the line or before a blank, so no operator, name or number
reaches beyond its own characters.
-/

namespace ModelGraph.Script

/-- What can stand in a written line: words, natural numbers, texts and operators. -/
def Token.IsWritten : Token → Prop
  | .name n => isWord n
  | .int i => ∃ n < 0x8000000000000000, i = Int64.ofNat n
  | .str _ => True
  | .op text => text ∈ operators
  | _ => False

/-- A text that is at its end or goes on with a blank or a new line. -/
def AtBlank (cs : List Char) : Prop := cs = [] ∨ ∃ c rest, cs = c :: rest ∧ c ∈ [' ', '\n']

theorem AtBlank.blank (rest : List Char) : AtBlank (' ' :: rest) := Or.inr ⟨_, _, rfl, by simp⟩

theorem AtBlank.newline (rest : List Char) : AtBlank ('\n' :: rest) := Or.inr ⟨_, _, rfl, by simp⟩

theorem AtBlank.head?_ne {cs : List Char} (h : AtBlank cs) {c : Char} (hc : c ∉ [' ', '\n']) :
    cs.head? ≠ some c := by
  rcases h with rfl | ⟨d, rest, rfl, hd⟩
  · simp
  · rintro hhead
    obtain rfl : d = c := Option.some.inj hhead
    exact hc hd

theorem takeWhile_append_of_atBlank {p : Char → Bool} {xs cs : List Char}
    (hp : ∀ c ∈ [' ', '\n'], p c = false) (hxs : ∀ c ∈ xs, p c) (h : AtBlank cs) :
    (xs ++ cs).takeWhile p = xs := by
  rw [List.takeWhile_append_of_pos hxs]
  rcases h with rfl | ⟨c, rest, rfl, hc⟩
  · simp
  · simp [hp c hc]

theorem dropWhile_append_of_atBlank {p : Char → Bool} {xs cs : List Char}
    (hp : ∀ c ∈ [' ', '\n'], p c = false) (hxs : ∀ c ∈ xs, p c) (h : AtBlank cs) :
    (xs ++ cs).dropWhile p = cs := by
  rw [List.dropWhile_append_of_pos hxs]
  rcases h with rfl | ⟨c, rest, rfl, hc⟩
  · simp
  · simp [hp c hc]

namespace Scan

/-- A character that begins neither layout nor a comment nor the joining of lines. -/
def StartsToken (c : Char) : Prop := c ∉ [' ', '\t', '\r', '\x0c', '#', '\\', '\n']

theorem step_of_startsToken {s : Scan} {c : Char} {rest : List Char} (hline : s.lineStart = false)
    (hrest : s.rest = c :: rest) (hc : StartsToken c) :
    s.step =
      if c = '"' ∨ c = '\'' then s.string false
      else if '0' ≤ c ∧ c ≤ '9' then s.number
      else if c = '.' ∧ (rest.head?.any fun d => '0' ≤ d ∧ d ≤ '9') then s.number
      else if Text.isLetter c ∨ c = '_' then s.name
      else s.operator := by
  simp only [StartsToken, List.mem_cons, List.not_mem_nil, or_false, not_or] at hc
  unfold Scan.step
  rw [hline, hrest]
  simp only [Bool.false_eq_true, if_false]
  split <;> simp_all

@[simp] theorem step_blank {s : Scan} {rest : List Char} (hline : s.lineStart = false)
    (hrest : s.rest = ' ' :: rest) : s.step = .ok { s with rest } := by
  unfold Scan.step
  rw [hline, hrest]
  rfl

/-! ## Names -/

theorem toNat_le_of_le {a b : Char} (h : a ≤ b) : a.toNat ≤ b.toNat := UInt32.le_iff_toNat_le.mp h

theorem isNamePart_of_continuesIdentifier {c : Char} (h : continuesIdentifier c) :
    isNamePart c := by
  simp only [continuesIdentifier, Char.isAlphanum, Bool.or_eq_true] at h
  simp only [isNamePart, Text.isLetterOrDigit, Bool.or_eq_true]
  rcases h with (halpha | hdigit) | hunderscore
  · exact Or.inl (Or.inl (Text.isLetter_of_isAlpha halpha))
  · have hsmall : c.toNat < 128 := by
      have := (toNat_of_isDigit hdigit).2
      omega
    have hbounds := le_of_isDigit hdigit
    simp [hsmall, hbounds]
  · exact Or.inr hunderscore

theorem continuesIdentifier_of_startsIdentifier {c : Char} (h : startsIdentifier c) :
    continuesIdentifier c := by
  simp only [startsIdentifier, continuesIdentifier, Char.isAlphanum, Bool.or_eq_true] at h ⊢
  exact h.imp_left Or.inl

/-- Any character that is no part of an ASCII word differs from one that begins such a word. -/
theorem ne_of_startsIdentifier {c d : Char} (h : startsIdentifier c)
    (hd : startsIdentifier d = false) : c ≠ d := by
  rintro rfl
  simp [hd] at h

theorem not_isDigit_of_startsIdentifier {c : Char} (h : startsIdentifier c) :
    ¬ ('0' ≤ c ∧ c ≤ '9') := by
  rintro ⟨-, hnine⟩
  have hnine : c.toNat ≤ 57 := toNat_le_of_le hnine
  delta startsIdentifier Char.isAlpha Char.isUpper Char.isLower at h
  simp only [Bool.or_eq_true,
    Bool.and_eq_true, decide_eq_true_eq, beq_iff_eq] at h
  rcases h with (h | h) | rfl
  · have hupper : 65 ≤ c.toNat := UInt32.le_iff_toNat_le.mp h.1
    omega
  · have hlower : 97 ≤ c.toNat := UInt32.le_iff_toNat_le.mp h.1
    omega
  · exact absurd hnine (by decide)

theorem startsToken_of_startsIdentifier {c : Char} (h : startsIdentifier c) : StartsToken c := by
  simp only [StartsToken, List.mem_cons, List.not_mem_nil, or_false, not_or]
  refine ⟨?_, ?_, ?_, ?_, ?_, ?_, ?_⟩ <;> exact ne_of_startsIdentifier h (by decide)

theorem isLetter_or_of_startsIdentifier {c : Char} (h : startsIdentifier c) :
    Text.isLetter c ∨ c = '_' := by
  simp only [startsIdentifier, Bool.or_eq_true, beq_iff_eq] at h
  exact h.imp_left Text.isLetter_of_isAlpha

theorem eq_cons_of_isWord {n : String} (hn : isWord n) :
    ∃ c others, n.toList = c :: others ∧ startsIdentifier c ∧
      ∀ d ∈ others, continuesIdentifier d := by
  unfold isWord at hn
  split at hn
  · simp at hn
  · rename_i c others hlist
    simp only [Bool.and_eq_true, List.all_eq_true] at hn
    exact ⟨c, others, hlist, hn⟩

theorem name_of_isWord {s : Scan} {n : String} {rest : List Char} (hn : isWord n)
    (hrest : s.rest = n.toList ++ rest) (hblank : AtBlank rest) :
    s.name = .ok { s.push (.name n) with rest } := by
  have hparts : ∀ c ∈ n.toList, isNamePart c := by
    intro c hc
    obtain ⟨first, others, hlist, hfirst, hothers⟩ := eq_cons_of_isWord hn
    rw [hlist] at hc
    rcases List.mem_cons.mp hc with rfl | hmem
    · exact isNamePart_of_continuesIdentifier (continuesIdentifier_of_startsIdentifier hfirst)
    · exact isNamePart_of_continuesIdentifier (hothers c hmem)
  have hends : ∀ c ∈ [' ', '\n'], isNamePart c = false :=
    List.forall_mem_cons.mpr ⟨by decide, List.forall_mem_singleton.mpr (by decide)⟩
  have htake := takeWhile_append_of_atBlank hends hparts hblank
  have hdrop := dropWhile_append_of_atBlank hends hparts hblank
  have hdouble : rest.head? ≠ some '"' := hblank.head?_ne (by decide)
  have hsingle : rest.head? ≠ some '\'' := hblank.head?_ne (by decide)
  simp [Scan.name, hrest, htake, hdrop, hdouble, hsingle]

theorem step_name {s : Scan} {n : String} {rest : List Char} (hline : s.lineStart = false)
    (hn : isWord n) (hrest : s.rest = n.toList ++ rest) (hblank : AtBlank rest) :
    s.step = .ok { s.push (.name n) with rest } := by
  obtain ⟨c, others, hlist, hc, -⟩ := eq_cons_of_isWord hn
  have hcons : s.rest = c :: (others ++ rest) := by simp [hrest, hlist]
  have hdouble : c ≠ '"' := ne_of_startsIdentifier hc (by decide)
  have hsingle : c ≠ '\'' := ne_of_startsIdentifier hc (by decide)
  have hpoint : c ≠ '.' := ne_of_startsIdentifier hc (by decide)
  rw [step_of_startsToken hline hcons (startsToken_of_startsIdentifier hc),
    if_neg (by simp [hdouble, hsingle]), if_neg (not_isDigit_of_startsIdentifier hc),
    if_neg (by simp [hpoint]), if_pos (isLetter_or_of_startsIdentifier hc)]
  exact name_of_isWord hn hrest hblank

/-! ## Operators -/

theorem isPrefixOf_append_cons (xs ys rest : List Char) {c : Char} (h : c ∉ xs) :
    xs.isPrefixOf (ys ++ c :: rest) = xs.isPrefixOf ys := by
  induction xs generalizing ys with
  | nil => simp
  | cons x xs ih =>
      simp only [List.mem_cons, not_or] at h
      cases ys with
      | nil =>
          have hne : (x == c) = false := by simpa using Ne.symm h.1
          simp [List.isPrefixOf, hne]
      | cons y ys => simp only [List.cons_append, List.isPrefixOf, ih ys h.2]

theorem blank_notMem_operators : ∀ op ∈ operators, ∀ c ∈ [' ', '\n'], c ∉ op.toList := by
  have hnone : ∀ op ∈ operators, ' ' ∉ op.toList ∧ '\n' ∉ op.toList := by decide
  intro op hop
  obtain ⟨hspace, hnewline⟩ := hnone op hop
  exact List.forall_mem_cons.mpr ⟨hspace, List.forall_mem_singleton.mpr hnewline⟩

/-- Longer operators come before their beginnings. -/
theorem find?_operators : ∀ op ∈ operators,
    operators.find? (fun o => o.toList.isPrefixOf op.toList) = some op := by decide

/-- An operator ends before a character that is in none. -/
theorem find?_operators_append_cons {op : String} {c : Char} {rest : List Char}
    (hop : op ∈ operators) (hc : ∀ o ∈ operators, c ∉ o.toList) :
    operators.find? (fun o => o.toList.isPrefixOf (op.toList ++ c :: rest)) = some op := by
  rw [← find?_operators op hop]
  exact List.find?_congr fun o ho => isPrefixOf_append_cons _ _ _ (hc o ho)

theorem find?_operators_append {op : String} {rest : List Char} (hop : op ∈ operators)
    (hblank : AtBlank rest) :
    operators.find? (fun o => o.toList.isPrefixOf (op.toList ++ rest)) = some op := by
  rcases hblank with rfl | ⟨c, rest, rfl, hc⟩
  · simpa using find?_operators op hop
  · exact find?_operators_append_cons hop fun o ho => blank_notMem_operators o ho c hc

/-- What the first two characters of an operator are not. -/
theorem start_of_mem_operators : ∀ op ∈ operators, ∃ c rest, op.toList = c :: rest ∧
    StartsToken c ∧ c ≠ '"' ∧ c ≠ '\'' ∧ ¬ ('0' ≤ c ∧ c ≤ '9') ∧ ¬ (Text.isLetter c ∨ c = '_') ∧
    ¬ (rest.head?.any fun d => '0' ≤ d ∧ d ≤ '9') := by
  intro op hop
  have hcheck : ∀ op ∈ operators, op.toList = op.toList.headD ' ' :: op.toList.tail ∧
      op.toList.headD ' ' ∉ [' ', '\t', '\r', '\x0c', '#', '\\', '\n'] ∧
      op.toList.headD ' ' ≠ '"' ∧ op.toList.headD ' ' ≠ '\'' ∧
      ¬ ('0' ≤ op.toList.headD ' ' ∧ op.toList.headD ' ' ≤ '9') ∧
      ¬ (Text.isLetter (op.toList.headD ' ') ∨ op.toList.headD ' ' = '_') ∧
      ¬ (op.toList.tail.head?.any fun d => '0' ≤ d ∧ d ≤ '9') := by decide
  exact ⟨_, _, hcheck op hop⟩

theorem step_operator {s : Scan} {op : String} {rest : List Char} (hline : s.lineStart = false)
    (hop : op ∈ operators) (hrest : s.rest = op.toList ++ rest) (hblank : AtBlank rest) :
    s.step = .ok { s.push (.op op) with rest, depth := depthAfter s.depth op } := by
  obtain ⟨c, others, hlist, hstart, hdouble, hsingle, hdigit, hletter, hnext⟩ :=
    start_of_mem_operators op hop
  have hcons : s.rest = c :: (others ++ rest) := by simp [hrest, hlist]
  have hnumber : ¬ (c = '.' ∧ ((others ++ rest).head?.any fun d => '0' ≤ d ∧ d ≤ '9')) := by
    rintro ⟨-, hany⟩
    cases others with
    | cons d others => exact hnext (by simpa using hany)
    | nil =>
        rcases hblank with rfl | ⟨c, rest, rfl, hc⟩
        · simp at hany
        · have hdigits : ∀ c ∈ [' ', '\n'], ¬ ('0' ≤ c ∧ c ≤ '9') :=
            List.forall_mem_cons.mpr ⟨by decide, List.forall_mem_singleton.mpr (by decide)⟩
          exact hdigits c hc (by simpa using hany)
  rw [step_of_startsToken hline hcons hstart, if_neg (by simp [hdouble, hsingle]), if_neg hdigit,
    if_neg hnumber, if_neg hletter]
  have hfind := find?_operators_append hop hblank
  have hdrop : (op.toList ++ rest).drop op.length = rest := by
    rw [← String.length_toList, List.drop_left]
  simp [Scan.operator, hrest, hfind, hdrop]

end Scan

/-! ## Numbers -/

/-- A run of digits and underscores is taken as a whole and is no float. -/
theorem numberTail_append {cs rest : List Char}
    (hcs : ∀ c ∈ cs, ('0' ≤ c ∧ c ≤ '9') ∨ c = '_') (hblank : AtBlank rest) :
    numberTail false (cs ++ rest) = (cs, false, rest) := by
  induction cs with
  | nil =>
      rcases hblank with rfl | ⟨c, rest, rfl, hc⟩
      · rfl
      · simp only [List.mem_cons, List.not_mem_nil, or_false] at hc
        rw [List.nil_append, numberTail.eq_def]
        rcases hc with rfl | rfl <;> rfl
  | cons c cs ih =>
      have hrest := ih fun d hd => hcs d (by simp [hd])
      rw [List.cons_append, numberTail.eq_def]
      simp only [if_pos (hcs c (by simp)), hrest, List.singleton_append]

/-- The decimal digits of a number, with any underscores after the first of them. -/
structure IsNumeral (n : Nat) (text : List Char) : Prop where
  digits_eq : text.filter (· ≠ '_') = Nat.toDigits 10 n
  head?_ne : text.head? ≠ some '_'

theorem isNumeral_toDigits (n : Nat) : IsNumeral n (Nat.toDigits 10 n) where
  digits_eq := by
    apply List.filter_eq_self.mpr
    rintro c hc
    have hne : c ≠ '_' := by
      rintro rfl
      exact Nat.underscore_not_in_toDigits hc
    simpa using hne
  head?_ne h := Nat.underscore_not_in_toDigits (List.mem_of_head? h)

namespace IsNumeral

variable {n : Nat} {text : List Char}

theorem isDigit_or_eq (h : IsNumeral n text) : ∀ c ∈ text, c.isDigit ∨ c = '_' := by
  intro c hc
  by_cases hunderscore : c = '_'
  · exact Or.inr hunderscore
  · refine Or.inl (isDigit_of_mem_decimal (n := n) ?_)
    rw [← h.digits_eq]
    exact List.mem_filter.mpr ⟨hc, by simpa using hunderscore⟩

theorem eq_cons (h : IsNumeral n text) : ∃ c others, text = c :: others ∧ c.isDigit := by
  cases text with
  | nil => exact absurd h.digits_eq.symm Nat.toDigits_ne_nil
  | cons c others =>
      refine ⟨c, others, rfl, (h.isDigit_or_eq c (by simp)).resolve_right ?_⟩
      rintro rfl
      exact h.head?_ne rfl

end IsNumeral

/-- A number as a token: its word, or past the words the double nearest to it. -/
def Token.ofNat (n : Nat) : Token :=
  ((int64? n).map .int).getD (.float (floatOfDecimal false n 0))

theorem Token.ofNat_of_lt {n : Nat} (hn : n < 0x8000000000000000) :
    Token.ofNat n = .int (Int64.ofInt n) := by
  rw [Token.ofNat, int64?, if_pos (inInt64_of_lt hn), Option.map_some, Option.getD_some]

theorem Token.ofNat_cases (n : Nat) :
    (∃ i, Token.ofNat n = .int i) ∨ ∃ x, Token.ofNat n = .float x := by
  unfold Token.ofNat
  cases int64? n with
  | none => exact Or.inr ⟨_, rfl⟩
  | some i => exact Or.inl ⟨i, rfl⟩

namespace Scan

theorem number_of_isNumeral {s : Scan} {n : Nat} {text rest : List Char} (hn : IsNumeral n text)
    (hrest : s.rest = text ++ rest) (hblank : AtBlank rest) :
    s.number = .ok { s.push (.ofNat n) with rest } := by
  have hparts : ∀ c ∈ text, ('0' ≤ c ∧ c ≤ '9') ∨ c = '_' := fun c hc =>
    (hn.isDigit_or_eq c hc).imp_left le_of_isDigit
  have htail := numberTail_append hparts hblank
  -- The second character, if any, is a digit or ends the number, so no hexadecimal one begins here.
  have hsecond : ∀ c others, text ++ rest = '0' :: c :: others → c ≠ 'x' ∧ c ≠ 'X' := by
    intro c others hlist
    have hmem : (c.isDigit ∨ c = '_') ∨ c ∈ [' ', '\n'] := by
      obtain ⟨d, ds, rfl, -⟩ := hn.eq_cons
      rw [List.cons_append] at hlist
      obtain ⟨-, hlist⟩ := List.cons.inj hlist
      cases ds with
      | cons d' ds =>
          obtain ⟨rfl, -⟩ := List.cons.inj hlist
          exact Or.inl (hn.isDigit_or_eq d' (by simp))
      | nil =>
          rcases hblank with rfl | ⟨b, rest, rfl, hb⟩
          · simp at hlist
          · obtain ⟨rfl, -⟩ := List.cons.inj hlist
            exact Or.inr hb
    constructor <;> rintro rfl <;> exact absurd hmem (by decide)
  unfold Scan.number
  rw [hrest]
  split
  · rename_i others hlist
    exact absurd rfl (hsecond _ _ hlist).1
  · rename_i others hlist
    exact absurd rfl (hsecond _ _ hlist).2
  · have hread := int64Numeral?_decimal n
    cases hword : int64? n with
    | none =>
        rw [hword] at hread
        simp only [htail, hn.digits_eq, hread, floatNumeral?_decimal, Token.ofNat, hword]
        rfl
    | some i =>
        rw [hword] at hread
        simp only [htail, hn.digits_eq, hread, Token.ofNat, hword]
        rfl

theorem toDigits_eq_cons (n : Nat) : ∃ c others, Nat.toDigits 10 n = c :: others ∧ c.isDigit :=
  (isNumeral_toDigits n).eq_cons

theorem ne_of_isDigit {c d : Char} (hc : c.isDigit) (hd : d.isDigit = false) : c ≠ d := by
  rintro rfl
  simp [hd] at hc

theorem startsToken_of_isDigit {c : Char} (hc : c.isDigit) : StartsToken c := by
  simp only [StartsToken, List.mem_cons, List.not_mem_nil, or_false, not_or]
  refine ⟨?_, ?_, ?_, ?_, ?_, ?_, ?_⟩ <;> exact ne_of_isDigit hc (by decide)

theorem step_numeral {s : Scan} {n : Nat} {text rest : List Char} (hline : s.lineStart = false)
    (hn : IsNumeral n text) (hrest : s.rest = text ++ rest) (hblank : AtBlank rest) :
    s.step = .ok { s.push (.ofNat n) with rest } := by
  obtain ⟨c, others, hlist, hc⟩ := hn.eq_cons
  have hcons : s.rest = c :: (others ++ rest) := by simp [hrest, hlist]
  rw [step_of_startsToken hline hcons (startsToken_of_isDigit hc),
    if_neg (by simp [ne_of_isDigit hc (d := '"') (by decide),
      ne_of_isDigit hc (d := '\'') (by decide)]), if_pos (le_of_isDigit hc)]
  exact number_of_isNumeral hn hrest hblank

theorem step_number {s : Scan} {n : Nat} {rest : List Char} (hline : s.lineStart = false)
    (hn : n < 0x8000000000000000) (hrest : s.rest = Nat.toDigits 10 n ++ rest)
    (hblank : AtBlank rest) : s.step = .ok { s.push (.int (Int64.ofInt n)) with rest } := by
  rw [step_numeral hline (isNumeral_toDigits n) hrest hblank, Token.ofNat_of_lt hn]

end Scan

/-! ## String literals -/

theorem isValidChar_toNat (c : Char) : c.toNat.isValidChar := c.valid

/-- The digits of a numeric escape give back its character. -/
theorem escapedChar_hexDigits (line : Nat) {width : Nat} {c : Char} (rest : List Char)
    (hwidth : 0 < width) (hc : c.toNat < Nat.pow 16 width) :
    escapedChar line width (hexDigits width c.toNat ++ rest) = .ok c := by
  rw [escapedChar, take_hexDigits_append, natNumeral?_hexDigits hwidth hc]
  simp only [if_pos (isValidChar_toNat c), Char.ofNat_toNat]

/-- A quote that a literal may stand in. -/
def IsQuote (quote : Char) : Prop := quote = '"' ∨ quote = '\''

/-- A literal on one line that is no raw one. -/
abbrev plainQuoting (quote : Char) : Quoting := ⟨quote, false, false⟩

section Body

variable {quote : Char} (fuel line : Nat) (done rest : List Char)

theorem stringBody_verbatim {c : Char} (hquote : c ≠ quote) (hbackslash : c ≠ '\\')
    (hnewline : c ≠ '\n') :
    stringBody (plainQuoting quote) (fuel + 1) line done (c :: rest) =
      stringBody (plainQuoting quote) fuel line (c :: done) rest := by
  simp [stringBody, hquote, hbackslash, hnewline]

theorem stringBody_numeric {width : Nat} {c : Char} (hquote : IsQuote quote) (hwidth : 0 < width)
    (hc : c.toNat < Nat.pow 16 width) {letter : Char}
    (hletter : (letter, width) ∈ [('x', 2), ('u', 4), ('U', 8)]) :
    stringBody (plainQuoting quote) (fuel + 1) line done
        ('\\' :: letter :: (hexDigits width c.toNat ++ rest)) =
      stringBody (plainQuoting quote) fuel line (c :: done) rest := by
  have hne : '\\' ≠ quote := by
    rcases hquote with rfl | rfl <;> decide
  have hescape := escapedChar_hexDigits line rest hwidth hc
  have hdrop := drop_hexDigits_append width c.toNat rest
  simp only [List.mem_cons, Prod.mk.injEq, List.not_mem_nil, or_false] at hletter
  rcases hletter with ⟨rfl, rfl⟩ | ⟨rfl, rfl⟩ | ⟨rfl, rfl⟩ <;>
    simp [stringBody, hne, hescape, hdrop]

theorem stringBody_numericEscape (c : Char) (hquote : IsQuote quote) :
    stringBody (plainQuoting quote) (fuel + 1) line done (numericEscape c ++ rest) =
      stringBody (plainQuoting quote) fuel line (c :: done) rest := by
  have hsize : c.toNat < 0x110000 := by
    rcases isValidChar_toNat c with h | h <;> omega
  unfold numericEscape
  split_ifs with hbyte hword
  · exact stringBody_numeric fuel line done rest hquote (by decide) hbyte (by simp)
  · exact stringBody_numeric fuel line done rest hquote (by decide) hword (by simp)
  · exact stringBody_numeric fuel line done rest hquote (by decide)
      (Nat.lt_trans hsize (by decide)) (by simp)

/-- However a character is spelled, the scanner takes the spelling for that character. -/
theorem stringBody_spellChar (style : Style) (c : Char) (hquote : IsQuote quote) :
    stringBody (plainQuoting quote) (fuel + 1) line done (style.spellChar quote c ++ rest) =
      stringBody (plainQuoting quote) fuel line (c :: done) rest := by
  have hne : '\\' ≠ quote := by
    rcases hquote with rfl | rfl <;> decide
  unfold Style.spellChar
  split_ifs with hspecial hnewline hverbatim hreturn htab
  · rcases hspecial with rfl | rfl
    · simp [stringBody, hne]
    · rcases hquote with rfl | rfl <;> simp [stringBody]
  · subst hnewline
    simp [stringBody, hne]
  · simp only [not_or] at hspecial
    exact stringBody_verbatim fuel line done rest hspecial.2 hspecial.1 hnewline
  · subst hreturn
    simp [stringBody, hne]
  · subst htab
    simp [stringBody, hne]
  · exact stringBody_numericEscape fuel line done rest c hquote

/-- Every spelled character takes one unit of the bound, and the closing quote another. -/
theorem stringBody_spelled (style : Style) (cs : List Char) (hquote : IsQuote quote)
    (hfuel : cs.length < fuel) :
    stringBody (plainQuoting quote) fuel line done
        (cs.flatMap (style.spellChar quote) ++ quote :: rest) =
      .ok (String.ofList (done.reverse ++ cs), line, rest) := by
  induction cs generalizing fuel done with
  | nil =>
      obtain ⟨fuel, rfl⟩ := Nat.exists_eq_succ_of_ne_zero (Nat.ne_zero_of_lt hfuel)
      simp [stringBody]
  | cons c cs ih =>
      obtain ⟨fuel, rfl⟩ := Nat.exists_eq_succ_of_ne_zero (Nat.ne_zero_of_lt hfuel)
      rw [List.flatMap_cons, List.append_assoc, stringBody_spellChar _ _ _ _ _ _ hquote,
        ih fuel (c :: done) (by simpa using hfuel)]
      simp

end Body

theorem isQuote_quote (style : Style) (text : String) : IsQuote (style.quote text) := by
  unfold Style.quote
  split_ifs
  · exact Or.inl rfl
  · exact Or.inr rfl

theorem spellChar_eq_cons (style : Style) {quote : Char} (hquote : IsQuote quote) (c : Char) :
    ∃ d rest, style.spellChar quote c = d :: rest ∧ d ≠ quote := by
  have hne : '\\' ≠ quote := by
    rcases hquote with rfl | rfl <;> decide
  unfold Style.spellChar numericEscape
  split_ifs with hspecial
  all_goals first
    | exact ⟨_, _, rfl, hne⟩
    | exact ⟨_, _, rfl, fun h => hspecial (Or.inr h)⟩

theorem length_le_spelled (style : Style) {quote : Char} (hquote : IsQuote quote)
    (cs : List Char) : cs.length ≤ (cs.flatMap (style.spellChar quote)).length := by
  induction cs with
  | nil => simp
  | cons c cs ih =>
      obtain ⟨d, others, hspelled, -⟩ := spellChar_eq_cons style hquote c
      simp only [List.length_cons, List.flatMap_cons, List.length_append, hspelled]
      omega

/-- No literal on one line looks like the opening of a literal in triple quotes. -/
theorem take_two_spelled_ne (style : Style) {quote : Char} (hquote : IsQuote quote)
    (cs : List Char) {rest : List Char} (hblank : AtBlank rest) :
    (cs.flatMap (style.spellChar quote) ++ quote :: rest).take 2 ≠ [quote, quote] := by
  cases cs with
  | nil =>
      rcases hblank with rfl | ⟨b, rest, rfl, hb⟩
      · simp
      · have hne : b ≠ quote := by
          rintro rfl
          rcases hquote with rfl | rfl <;> exact absurd hb (by decide)
        simp [hne]
  | cons c cs =>
      obtain ⟨d, others, hspelled, hd⟩ := spellChar_eq_cons style hquote c
      simp [hspelled, hd]

namespace Scan

theorem string_spelled (style : Style) {s : Scan} {text : String} {rest : List Char}
    (hrest : s.rest = style.spellText text ++ rest) (hblank : AtBlank rest) :
    s.string false = .ok { s.push (.str text) with rest } := by
  have hquote := isQuote_quote style text
  have hcons : s.rest = style.quote text ::
      (text.toList.flatMap (style.spellChar (style.quote text)) ++ style.quote text :: rest) := by
    simp [hrest, Style.spellText]
  have htriple := take_two_spelled_ne style hquote text.toList hblank
  have hlength : text.toList.length <
      (text.toList.flatMap (style.spellChar (style.quote text)) ++
        style.quote text :: rest).length + 1 := by
    have hspelled := length_le_spelled style hquote text.toList
    rw [List.length_append]
    omega
  unfold Scan.string
  rw [hcons]
  simp only [if_neg htriple, decide_eq_false htriple]
  rw [stringBody_spelled _ s.line [] rest style text.toList hquote hlength]
  simp [Except.map, Scan.push]

theorem step_text (style : Style) {s : Scan} {text : String} {rest : List Char}
    (hline : s.lineStart = false) (hrest : s.rest = style.spellText text ++ rest)
    (hblank : AtBlank rest) : s.step = .ok { s.push (.str text) with rest } := by
  have hquote : style.quote text = '"' ∨ style.quote text = '\'' := isQuote_quote style text
  have hcons : s.rest = style.quote text ::
      (text.toList.flatMap (style.spellChar (style.quote text)) ++ style.quote text :: rest) := by
    simp [hrest, Style.spellText]
  have hstart : StartsToken (style.quote text) := by
    rcases hquote with h | h <;> simp [h, StartsToken]
  rw [step_of_startsToken hline hcons hstart, if_pos hquote]
  exact string_spelled style hrest hblank

end Scan

/-! ## Runs -/

theorem spell_int (style : Style) {n : Nat} (hn : n < 0x8000000000000000) :
    style.spell (.int (Int64.ofNat n)) = Nat.toDigits 10 n := by
  have hvalue : (Int64.ofNat n).toInt = (n : Int) := by
    rw [← Int64.ofInt_eq_ofNat]
    exact Int64.toInt_ofInt_of_le (by omega) (by omega)
  rw [Style.spell, hvalue]
  exact String.toList_ofList

/-- The number of open brackets after a token. -/
def Token.depthAfter (depth : Nat) : Token → Nat
  | .op text => Script.depthAfter depth text
  | _ => depth

namespace Scan

/-- A written token is found again in one step. -/
theorem step_spell (style : Style) {s : Scan} {t : Token} {rest : List Char}
    (hline : s.lineStart = false) (ht : t.IsWritten) (hrest : s.rest = style.spell t ++ rest)
    (hblank : AtBlank rest) :
    s.step = .ok { s.push t with rest, depth := t.depthAfter s.depth } := by
  cases t with
  | name n => exact step_name hline ht hrest hblank
  | int i =>
      obtain ⟨n, hn, rfl⟩ := ht
      rw [spell_int style hn] at hrest
      exact step_number hline hn hrest hblank
  | str text => exact step_text style hline hrest hblank
  | op text => exact step_operator hline ht hrest hblank
  | _ => exact ht.elim

end Scan

theorem Token.IsWritten.spell_eq_cons (style : Style) {t : Token} (ht : t.IsWritten) :
    ∃ c rest, style.spell t = c :: rest ∧ Scan.StartsToken c := by
  cases t with
  | name n =>
      obtain ⟨c, others, hlist, hc, -⟩ := Scan.eq_cons_of_isWord ht
      exact ⟨c, others, hlist, Scan.startsToken_of_startsIdentifier hc⟩
  | int i =>
      obtain ⟨n, hn, rfl⟩ := ht
      obtain ⟨c, others, hlist, hc⟩ := Scan.toDigits_eq_cons n
      exact ⟨c, others, by rw [spell_int style hn, hlist], Scan.startsToken_of_isDigit hc⟩
  | str text =>
      refine ⟨style.quote text, _, rfl, ?_⟩
      rcases isQuote_quote style text with h | h <;> simp [h, Scan.StartsToken]
  | op text =>
      obtain ⟨c, others, hlist, hstart, -⟩ := Scan.start_of_mem_operators text ht
      exact ⟨c, others, hlist, hstart⟩
  | _ => exact ht.elim

namespace Style

@[simp] theorem spaced_singleton (style : Style) (t : Token) :
    style.spaced [t] = style.spell t := by
  simp [spaced]

@[simp] theorem spaced_cons_cons (style : Style) (t u : Token) (ts : List Token) :
    style.spaced (t :: u :: ts) = style.spell t ++ ' ' :: style.spaced (u :: ts) := by
  simp [spaced]

theorem spaced_eq_cons (style : Style) {ts : List Token} (hts : ∀ t ∈ ts, t.IsWritten)
    (hne : ts ≠ []) :
    ∃ c others, style.spaced ts = c :: others ∧ Scan.StartsToken c := by
  obtain ⟨t, ts, rfl⟩ := List.exists_cons_of_ne_nil hne
  obtain ⟨c, others, hspell, hc⟩ := (hts t (by simp)).spell_eq_cons style
  cases ts with
  | nil => exact ⟨c, others, by simp [hspell], hc⟩
  | cons u ts => exact ⟨c, _, by rw [spaced_cons_cons, hspell]; rfl, hc⟩

end Style

namespace Scan

/-- A bound on the steps that are left: two for each character and one for the start of a line. -/
def toDo (s : Scan) : Nat := 2 * s.rest.length + if s.lineStart then 1 else 0

/-- Scanning passes through a state after steps that the difference of the bounds pays for. -/
def Reaches (s s' : Scan) : Prop :=
  ∃ steps, steps + s'.toDo ≤ s.toDo ∧ ∀ fuel, s.run (fuel + steps) = s'.run fuel

theorem Reaches.refl (s : Scan) : s.Reaches s := ⟨0, by simp, fun _ => rfl⟩

theorem Reaches.trans {s s' s'' : Scan} (h : s.Reaches s') (h' : s'.Reaches s'') :
    s.Reaches s'' := by
  obtain ⟨steps, hle, hrun⟩ := h
  obtain ⟨steps', hle', hrun'⟩ := h'
  refine ⟨steps + steps', by omega, fun fuel => ?_⟩
  rw [show fuel + (steps + steps') = fuel + steps' + steps by omega, hrun, hrun']

theorem reaches_of_step {s s' : Scan} (h : s.step = .ok s') (hless : s'.toDo < s.toDo) :
    s.Reaches s' := by
  refine ⟨1, by omega, fun fuel => ?_⟩
  have hmore : ¬ (s.rest.isEmpty ∧ ¬ s.lineStart) := by
    rintro ⟨hempty, hline⟩
    rw [List.isEmpty_iff] at hempty
    simp [toDo, hempty, hline] at hless
  rw [run, if_neg hmore, h]

/-- Spaced tokens are found one after another. -/
theorem reaches_spaced (style : Style) {ts : List Token} (hts : ∀ t ∈ ts, t.IsWritten)
    {rest : List Char} (hblank : AtBlank rest) {s : Scan} (hline : s.lineStart = false)
    (hrest : s.rest = style.spaced ts ++ rest) :
    s.Reaches { s with
      rest
      depth := ts.foldl Token.depthAfter s.depth
      tokens := (ts.map (⟨·, s.line⟩)).reverse ++ s.tokens } := by
  induction ts generalizing s with
  | nil =>
      obtain rfl : s.rest = rest := hrest
      exact Reaches.refl s
  | cons t ts ih =>
      have htoken := hts t (by simp)
      have hothers : ∀ u ∈ ts, u.IsWritten := fun u hu => hts u (List.mem_cons_of_mem _ hu)
      obtain ⟨c, others, hspell, -⟩ := htoken.spell_eq_cons style
      -- After its characters the token is pushed, and the rest begins with a blank or ends the run.
      have hfound : ∀ rest', s.rest = style.spell t ++ rest' → AtBlank rest' →
          s.Reaches { s.push t with rest := rest', depth := t.depthAfter s.depth } := by
        intro rest' hrest' hblank'
        refine reaches_of_step (step_spell style hline htoken hrest' hblank') ?_
        simp only [toDo, push, hline, hrest', hspell, List.cons_append, List.length_cons,
          List.length_append]
        omega
      cases ts with
      | nil =>
          rw [Style.spaced_singleton] at hrest
          exact hfound rest hrest hblank
      | cons u ts =>
          rw [Style.spaced_cons_cons, List.append_assoc, List.cons_append] at hrest
          have hstep : ({ s.push t with
                rest := ' ' :: (style.spaced (u :: ts) ++ rest)
                depth := t.depthAfter s.depth } : Scan).Reaches
              { s.push t with
                rest := style.spaced (u :: ts) ++ rest
                depth := t.depthAfter s.depth } :=
            reaches_of_step (step_blank hline rfl) (by simp [toDo, push, hline])
          refine ((hfound _ hrest (.blank _)).trans hstep).trans ?_
          have hreaches := ih hothers (s := { s.push t with
            rest := style.spaced (u :: ts) ++ rest
            depth := t.depthAfter s.depth }) hline rfl
          simpa [push] using hreaches

theorem step_start {c : Char} {rest : List Char} (hc : StartsToken c) :
    (start (c :: rest)).step = .ok { start (c :: rest) with lineStart := false } := by
  simp only [StartsToken, List.mem_cons, List.not_mem_nil, or_false, not_or] at hc
  obtain ⟨hblank, htab, hreturn, hfeed, hcomment, -, hnewline⟩ := hc
  have hindentation : indentation 0 (c :: rest) = (0, c :: rest) := by
    unfold indentation
    split <;> simp_all
  simp [step, layout, start, hindentation, hcomment, hnewline, closeBlocks]

/-- After a written token the end of a line ends a logical line. -/
theorem hasContent_of_isWritten {s : Scan} {ts : List Token} (hts : ∀ t ∈ ts, t.IsWritten)
    (hne : ts ≠ []) {line : Nat} {before : List Placed}
    (htokens : s.tokens = (ts.map (⟨·, line⟩)).reverse ++ before) : s.hasContent = true := by
  obtain ⟨last, others, hreverse⟩ := List.exists_cons_of_ne_nil (List.reverse_ne_nil_iff.mpr hne)
  have hlast : last.IsWritten := hts last (List.mem_reverse.mp (by simp [hreverse]))
  rw [hasContent, htokens, ← List.map_reverse, hreverse]
  cases last <;> first | rfl | exact hlast.elim

theorem finish_of_isWritten {s : Scan} {ts : List Token} (hts : ∀ t ∈ ts, t.IsWritten)
    (hne : ts ≠ []) (hindents : s.indents = [])
    (htokens : s.tokens = (ts.map (⟨·, s.line⟩)).reverse) :
    s.finish = ts.map (⟨·, s.line⟩) ++ [⟨.newline, s.line⟩, ⟨.eof, s.line⟩] := by
  have hcontent : s.hasContent :=
    hasContent_of_isWritten hts hne (htokens.trans (List.append_nil _).symm)
  simp [finish, endLine, hcontent, Scan.push, hindents, htokens]

end Scan

/-- Scanning that reaches the end of the text gives the tokens of that state. -/
theorem tokenize_of_reaches {text : List Char} {s : Scan} (h : (Scan.start text).Reaches s)
    (hrest : s.rest = []) (hline : s.lineStart = false) : tokenize text = .ok s.finish := by
  obtain ⟨steps, hle, hrun⟩ := h
  have hstart : (Scan.start text).toDo = 2 * text.length + 1 := rfl
  obtain ⟨fuel, hfuel⟩ : ∃ fuel, 2 * text.length + 2 = fuel + 1 + steps :=
    ⟨2 * text.length + 1 - steps, by omega⟩
  rw [tokenize, hfuel, hrun, Scan.run, if_pos ⟨by simp [hrest], by simp [hline]⟩]
  rfl

/-- Scanning gives back the tokens of a spaced line. -/
theorem tokenize_spaced (style : Style) {ts : List Token} (hts : ∀ t ∈ ts, t.IsWritten)
    (hne : ts ≠ []) :
    tokenize (style.spaced ts) = .ok (ts.map (⟨·, 1⟩) ++ [⟨.newline, 1⟩, ⟨.eof, 1⟩]) := by
  obtain ⟨c, others, hspaced, hc⟩ := style.spaced_eq_cons hts hne
  have hlayout : (Scan.start (style.spaced ts)).Reaches
      { Scan.start (style.spaced ts) with lineStart := false } := by
    rw [hspaced]
    exact Scan.reaches_of_step (Scan.step_start hc) (by simp [Scan.toDo, Scan.start])
  have hline := Scan.reaches_spaced style hts (Or.inl rfl)
    (s := { Scan.start (style.spaced ts) with lineStart := false }) rfl (by simp [Scan.start])
  rw [tokenize_of_reaches (hlayout.trans hline) rfl rfl]
  rw [Scan.finish_of_isWritten hts hne rfl (by simp [Scan.start])]
  rfl

end ModelGraph.Script
