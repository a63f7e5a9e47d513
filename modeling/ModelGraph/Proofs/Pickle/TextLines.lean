import ModelGraph.Proofs.Number.Numeral
import ModelGraph.Proofs.Pickle.Passing

/-!
# Strings written as lines

The oldest protocol writes a string as a line of text. A byte string stands between quotes, with
escapes for what is not printable; a Unicode string stands without quotes, one byte for a character
below 0x100 and escapes for the others. Both forms are read back character by character.
-/

namespace ModelGraph.Pickle

open Reading

/-! ## The written forms -/

/-- Single quotes, unless there are single quotes and no double ones between them. -/
def quoteFor (cs : List Char) : Char := if '\'' ∈ cs ∧ '"' ∉ cs then '"' else '\''

/-- A character between quotes. -/
def escapeQuoted (quote c : Char) : List Char :=
  if c = '\\' ∨ c = quote then ['\\', c]
  else if c = '\n' then ['\\', 'n']
  else if c = '\r' then ['\\', 'r']
  else if c = '\t' then ['\\', 't']
  else if 0x20 ≤ c.toNat ∧ c.toNat ≤ 0x7e then [c]
  else '\\' :: 'x' :: hexDigits 2 c.toNat

def quoted (cs : List Char) : List Char :=
  quoteFor cs :: (cs.flatMap (escapeQuoted (quoteFor cs)) ++ [quoteFor cs])

/-- A character of a line without quotes. -/
def escapeRaw (c : Char) : List Char :=
  if c ∈ ['\\', '\x00', '\n', '\r', '\x1a'] then '\\' :: 'u' :: hexDigits 4 c.toNat
  else if c.toNat < 0x100 then [c]
  else if c.toNat < 0x10000 then '\\' :: 'u' :: hexDigits 4 c.toNat
  else '\\' :: 'U' :: hexDigits 8 c.toNat

/-- The instruction of an opcode whose operand is a line. -/
def encodeLine (opcode : UInt8) (cs : List Char) : Bytes :=
  opcode :: (Text.lowBytes (String.ofList cs) ++ [10])

/-- A string of characters below 0x100, between quotes. -/
def encodeQuoted (s : String) : Bytes := encodeLine 0x53 (quoted s.toList)

/-- A Unicode string. -/
def encodeUnicode (s : String) : Bytes := encodeLine 0x56 (s.toList.flatMap escapeRaw)

/-! ## Lines of bytes -/

theorem latin1_lowBytes {cs : List Char} (h : ∀ c ∈ cs, c.toNat < 256) :
    Text.latin1 (Text.lowBytes (String.ofList cs)) = String.ofList cs := by
  rw [Text.latin1, Text.lowBytes, String.toList_ofList, List.map_map]
  congr 1
  calc
    _ = cs.map id := by
      apply List.map_congr_left
      intro c hc
      simp [Text.toNat_ofNat_of_lt (h c hc)]
    _ = cs := List.map_id cs

theorem notMem_lowBytes {cs : List Char} (h : ∀ c ∈ cs, c.toNat < 256) (hline : '\n' ∉ cs) :
    (10 : UInt8) ∉ Text.lowBytes (String.ofList cs) := by
  intro hmem
  rw [Text.lowBytes, String.toList_ofList, List.mem_map] at hmem
  obtain ⟨c, hc, heq⟩ := hmem
  have hnat := congrArg UInt8.toNat heq
  rw [Text.toNat_ofNat_of_lt (h c hc)] at hnat
  have hnewline : c = '\n' := Char.toNat_inj.mp hnat
  exact hline (hnewline ▸ hc)

/-- Characters that a line can hold, one byte each. -/
def LineChar (c : Char) : Prop := c.toNat < 256 ∧ c ≠ '\n'

theorem lineChar_digitChar : ∀ d < 16, LineChar (Nat.digitChar d) := by
  unfold LineChar
  decide

theorem lineChar_of_mem_hexDigits {width n : Nat} {c : Char} (h : c ∈ hexDigits width n) :
    LineChar c := by
  obtain ⟨d, hd, rfl⟩ := eq_digitChar_of_mem_hexDigits h
  exact lineChar_digitChar d hd

/-- The digits of an escape follow a backslash and a letter. -/
theorem lineChar_of_mem_escape {letter : Char} (hletter : LineChar letter) {width n : Nat} {c : Char}
    (h : c ∈ '\\' :: letter :: hexDigits width n) : LineChar c := by
  rcases List.mem_cons.mp h with rfl | h
  · exact ⟨by decide, by decide⟩
  · rcases List.mem_cons.mp h with rfl | h
    · exact hletter
    · exact lineChar_of_mem_hexDigits h

theorem outcome_line_lowBytes {τ : Type} {cs : List Char} (h : ∀ c ∈ cs, LineChar c) (start : Nat)
    (rest : Bytes) (w : Workspace τ) :
    (line : Reading τ String).outcome
        ⟨start, Text.lowBytes (String.ofList cs) ++ [10] ++ rest⟩ w =
      ((.ok (String.ofList cs),
        ⟨start + (Text.lowBytes (String.ofList cs) ++ [10]).length, rest⟩), w) := by
  have hlow : ∀ c ∈ cs, c.toNat < 256 := fun c hc => (h c hc).1
  have hline : '\n' ∉ cs := fun hc => (h _ hc).2 rfl
  rw [outcome_line_of_notMem (notMem_lowBytes hlow hline), latin1_lowBytes hlow]

/-! ## Between quotes -/

theorem quoteFor_cases (cs : List Char) : quoteFor cs = '\'' ∨ quoteFor cs = '"' := by
  unfold quoteFor
  split_ifs
  · exact .inr rfl
  · exact .inl rfl

theorem unescape_hexDigits {c : Char} (hc : c.toNat < 256) (rest : List Char) :
    unescape ('\\' :: 'x' :: (hexDigits 2 c.toNat ++ rest)) = c :: unescape rest := by
  have hread : natNumeral? 16 (hexDigits 2 c.toNat) = some c.toNat :=
    natNumeral?_hexDigits (by decide) hc
  rw [unescape, take_hexDigits_append, drop_hexDigits_append, hread]
  simp only [Option.map_some, Char.ofNat_toNat, Option.toList_some, List.singleton_append]

theorem unescape_escapeQuoted {quote c : Char} (hquote : quote = '\'' ∨ quote = '"')
    (hc : c.toNat < 256) (rest : List Char) :
    unescape (escapeQuoted quote c ++ rest) = c :: unescape rest := by
  unfold escapeQuoted
  split_ifs with hescaped hn hr ht hprintable
  · rcases hescaped with rfl | rfl
    · simp [unescape]
    · rcases hquote with rfl | rfl <;> simp [unescape]
  · simp [unescape, hn]
  · simp [unescape, hr]
  · simp [unescape, ht]
  · have hbackslash : c ≠ '\\' := fun h => hescaped (.inl h)
    simp [unescape, hbackslash]
  · exact unescape_hexDigits hc rest

theorem unescape_flatMap {quote : Char} (hquote : quote = '\'' ∨ quote = '"') {cs : List Char}
    (hcs : ∀ c ∈ cs, c.toNat < 256) : unescape (cs.flatMap (escapeQuoted quote)) = cs := by
  induction cs with
  | nil => rw [List.flatMap_nil, unescape]
  | cons c cs ih =>
      obtain ⟨hc, hrest⟩ := List.forall_mem_cons.mp hcs
      rw [List.flatMap_cons, unescape_escapeQuoted hquote hc, ih hrest]

theorem between?_self (quote : Char) (cs : List Char) :
    between? quote (quote :: (cs ++ [quote])) = some cs := by
  simp [between?]

theorem between?_of_ne {quote first : Char} (h : first ≠ quote) (cs : List Char) :
    between? quote (first :: cs) = none := by
  simp [between?, h]

/-- The quotes are taken off, and every character is read from its own escape. -/
theorem unquote_quoted {cs : List Char} (hcs : ∀ c ∈ cs, c.toNat < 256) :
    unquote (String.ofList (quoted cs)) = String.ofList cs := by
  have hread := unescape_flatMap (quoteFor_cases cs) hcs
  unfold unquote quoted
  -- Single quotes are looked for first; a double quote at the front rules them out.
  rcases quoteFor_cases cs with hquote | hquote
  · rw [hquote] at hread
    simp only [String.toList_ofList, hquote, between?_self, Option.some_or, Option.getD_some, hread]
  · rw [hquote] at hread
    have hsingle : between? '\'' ('"' :: (cs.flatMap (escapeQuoted '"') ++ ['"'])) = none :=
      between?_of_ne (by decide) _
    simp only [String.toList_ofList, hquote, hsingle, between?_self, Option.none_or,
      Option.getD_some, hread]

theorem lineChar_of_mem_escapeQuoted {quote c d : Char} (hquote : quote = '\'' ∨ quote = '"')
    (h : d ∈ escapeQuoted quote c) : LineChar d := by
  unfold escapeQuoted at h
  split_ifs at h with hescaped hn hr ht hprintable
  · have hc : LineChar c := by
      rcases hescaped with rfl | rfl
      · exact ⟨by decide, by decide⟩
      · rcases hquote with rfl | rfl <;> exact ⟨by decide, by decide⟩
    rcases List.mem_pair.mp h with rfl | rfl
    · exact ⟨by decide, by decide⟩
    · exact hc
  · rcases List.mem_pair.mp h with rfl | rfl <;> exact ⟨by decide, by decide⟩
  · rcases List.mem_pair.mp h with rfl | rfl <;> exact ⟨by decide, by decide⟩
  · rcases List.mem_pair.mp h with rfl | rfl <;> exact ⟨by decide, by decide⟩
  · obtain rfl := List.mem_singleton.mp h
    exact ⟨by omega, hn⟩
  · exact lineChar_of_mem_escape ⟨by decide, by decide⟩ h

theorem lineChar_of_mem_quoted {cs : List Char} {d : Char} (h : d ∈ quoted cs) : LineChar d := by
  have hquote : LineChar (quoteFor cs) := by
    rcases quoteFor_cases cs with h | h <;> rw [h] <;> exact ⟨by decide, by decide⟩
  rcases List.mem_cons.mp h with rfl | h
  · exact hquote
  · rcases List.mem_append.mp h with h | h
    · obtain ⟨c, -, hd⟩ := List.mem_flatMap.mp h
      exact lineChar_of_mem_escapeQuoted (quoteFor_cases cs) hd
    · rw [List.mem_singleton.mp h]
      exact hquote

/-! ## Without quotes -/

theorem character?_toNat (c : Char) : character? c.toNat = some c := by
  have hvalid : c.toNat.isValidChar := c.valid
  rw [character?, if_pos hvalid, Char.ofNat_toNat]

/-- The digits of an escape stand for one character, which the rest follows. -/
theorem unescapeUnicode_hexDigits {letter c : Char} {width : Nat}
    (hletter : letter = 'u' ∧ width = 4 ∨ letter = 'U' ∧ width = 8)
    (hc : c.toNat < Nat.pow 16 width) (rest : List Char) :
    unescapeUnicode ('\\' :: letter :: (hexDigits width c.toNat ++ rest)) =
      c :: unescapeUnicode rest := by
  have hread : natNumeral? 16 (hexDigits width c.toNat) = some c.toNat := by
    apply natNumeral?_hexDigits _ hc
    omega
  have hwidth : (if letter = 'u' then 4 else 8) = width := by
    rcases hletter with ⟨rfl, rfl⟩ | ⟨rfl, rfl⟩ <;> rfl
  have hfirst : letter = 'u' ∨ letter = 'U' := hletter.imp And.left And.left
  rw [unescapeUnicode]
  simp only [List.head?_cons, Option.some.injEq, hfirst, and_self, if_true, List.tail_cons, hwidth,
    take_hexDigits_append, drop_hexDigits_append, hread, Option.bind_some, character?_toNat,
    Option.map_some, Option.getD_some, List.singleton_append]

theorem unescapeUnicode_cons {c : Char} (hc : c ≠ '\\') (rest : List Char) :
    unescapeUnicode (c :: rest) = c :: unescapeUnicode rest := by
  rw [unescapeUnicode, if_neg fun h => hc h.1]

theorem unescapeUnicode_escapeRaw (c : Char) (rest : List Char) :
    unescapeUnicode (escapeRaw c ++ rest) = c :: unescapeUnicode rest := by
  unfold escapeRaw
  split_ifs with hescaped hbyte hplane
  · have hc : c.toNat < 256 := by
      simp only [List.mem_cons, List.not_mem_nil, or_false] at hescaped
      rcases hescaped with rfl | rfl | rfl | rfl | rfl <;> decide
    exact unescapeUnicode_hexDigits (.inl ⟨rfl, rfl⟩) (hc.trans (by decide)) rest
  · apply unescapeUnicode_cons
    rintro rfl
    exact hescaped (by decide)
  · exact unescapeUnicode_hexDigits (.inl ⟨rfl, rfl⟩) hplane rest
  · have hc : c.toNat < Nat.pow 16 8 := c.val.toNat_lt
    exact unescapeUnicode_hexDigits (.inr ⟨rfl, rfl⟩) hc rest

theorem unescapeUnicode_flatMap (cs : List Char) : unescapeUnicode (cs.flatMap escapeRaw) = cs := by
  induction cs with
  | nil => rw [List.flatMap_nil, unescapeUnicode]
  | cons c cs ih => rw [List.flatMap_cons, unescapeUnicode_escapeRaw, ih]

theorem lineChar_of_mem_escapeRaw {c d : Char} (h : d ∈ escapeRaw c) : LineChar d := by
  unfold escapeRaw at h
  split_ifs at h with hescaped hbyte hplane
  · exact lineChar_of_mem_escape ⟨by decide, by decide⟩ h
  · obtain rfl := List.mem_singleton.mp h
    refine ⟨hbyte, ?_⟩
    rintro rfl
    exact hescaped (by decide)
  · exact lineChar_of_mem_escape ⟨by decide, by decide⟩ h
  · exact lineChar_of_mem_escape ⟨by decide, by decide⟩ h

/-! ## Loading the lines -/

section Loading

variable {τ : Type} (persistent : Value → Restore τ Value) (w : Workspace τ)

/-- An instruction whose operand is a line pushes the string that the line is read as. -/
theorem passes_encodeLine {b : UInt8} (op : Opcode) (meaning : String → String) {cs : List Char}
    (hcs : ∀ c ∈ cs, LineChar c) (hop : Opcode.ofByte? b = some op) (hstop : op ≠ .stop)
    (hstep : ∀ start work, step persistent start op work =
      (do return .str (meaning (← line))) >>= fun v => return work.push v)
    (work : Work) (h : Heap) :
    Passes persistent w (encodeLine b cs) work h
      (work.push (.str (meaning (String.ofList cs)))) h := by
  refine Passes.push op hop hstop (fun start => hstep start work) fun start rest => ?_
  rw [outcome_bind_ok (outcome_line_lowBytes hcs start rest _)]
  rfl

theorem passes_quoted {s : String} (hs : ∀ c ∈ s.toList, c.toNat < 256) (work : Work) (h : Heap) :
    Passes persistent w (encodeQuoted s) work h (work.push (.str s)) h := by
  have hline : ∀ d ∈ quoted s.toList, LineChar d := fun _ => lineChar_of_mem_quoted
  have hpasses := passes_encodeLine persistent w .stringLine unquote hline (b := 0x53) rfl (by decide)
    (fun _ _ => rfl) work h
  rwa [unquote_quoted hs, String.ofList_toList] at hpasses

theorem passes_unicode (s : String) (work : Work) (h : Heap) :
    Passes persistent w (encodeUnicode s) work h (work.push (.str s)) h := by
  have hline : ∀ d ∈ s.toList.flatMap escapeRaw, LineChar d := by
    intro d hd
    obtain ⟨c, -, hc⟩ := List.mem_flatMap.mp hd
    exact lineChar_of_mem_escapeRaw hc
  have hpasses := passes_encodeLine persistent w .unicodeLine
    (fun text => String.ofList (unescapeUnicode text.toList)) hline (b := 0x56) rfl (by decide)
    (fun _ _ => rfl) work h
  rwa [String.toList_ofList, unescapeUnicode_flatMap, String.ofList_toList] at hpasses

variable {persistent w}

/-- A pickle of one instruction that pushes a value loads that value. -/
theorem outcome_loadWith_of_push {body : Bytes} {v : Value}
    (hbody : ∀ work h, Passes persistent w body work h (work.push v) h) (start : Nat)
    (rest : Bytes) :
    (loadWith persistent).outcome ⟨start, body ++ 0x2e :: rest⟩ w =
      ((.ok v, ⟨start + body.length + 1, rest⟩), w) := by
  have hself : withHeap w w.machine.heap = w := rfl
  have hloaded := outcome_loadWith_of_passes (hbody {} w.machine.heap) rfl none start rest
  rw [hself] at hloaded
  simpa [pickled, Nat.add_assoc] using hloaded

end Loading

/-- Written as lines, a string of characters below 0x100 between quotes and any string without them
are loaded as the strings that they were. -/
theorem outcome_loadWith_textLine {τ : Type} (persistent : Value → Restore τ Value) (s : String)
    (start : Nat) (rest : Bytes) (w : Workspace τ) :
    ((∀ c ∈ s.toList, c.toNat < 256) →
      (loadWith persistent).outcome ⟨start, encodeQuoted s ++ 0x2e :: rest⟩ w =
        ((.ok (.str s), ⟨start + (encodeQuoted s).length + 1, rest⟩), w)) ∧
    (loadWith persistent).outcome ⟨start, encodeUnicode s ++ 0x2e :: rest⟩ w =
      ((.ok (.str s), ⟨start + (encodeUnicode s).length + 1, rest⟩), w) := by
  constructor
  · intro hs
    apply outcome_loadWith_of_push
    exact passes_quoted persistent w hs
  · apply outcome_loadWith_of_push
    exact passes_unicode persistent w s

/-- Both kinds of quotes, characters with escapes, and what only looks like an escape. -/
def manyEscapes : List Char := ['\'', '"', '\\', 'x', '\n', '\t', '\xe9']

theorem outcome_loadWith_manyEscapes :
    (∀ c ∈ manyEscapes, c.toNat < 256) ∧
    String.ofList (quoted manyEscapes) = "'\\'\"\\\\x\\n\\t\\xe9'" ∧
    ((loadWith (τ := Unit) refuse).outcome
        ⟨0, encodeQuoted (String.ofList manyEscapes) ++ [0x2e]⟩ ⟨default, ()⟩).1.1 =
      .ok (.str (String.ofList manyEscapes)) := by
  have hlow : ∀ c ∈ manyEscapes, c.toNat < 256 := by simp [manyEscapes]
  refine ⟨hlow, by decide, ?_⟩
  rw [(outcome_loadWith_textLine refuse _ 0 [] ⟨default, ()⟩).1 (by rwa [String.toList_ofList])]

end ModelGraph.Pickle
