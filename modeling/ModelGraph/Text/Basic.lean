/-!
# White space, replacing and columns

The Unicode property White_Space, trimming by it, and the lines of a text; replacing parts of texts; and
texts in columns of a fixed width, counted in characters.
-/

namespace ModelGraph.Text

/-- A white-space character. -/
def isBlank (c : Char) : Bool :=
  let n := c.toNat
  (9 ≤ n && n ≤ 13) || n == 32 || n == 133 || n == 160 || n == 5760 || (8192 ≤ n && n ≤ 8202) ||
    n == 8232 || n == 8233 || n == 8239 || n == 8287 || n == 12288

/-- Drops what satisfies `p` at the end. -/
def dropTail {α : Type} (p : α → Bool) (xs : List α) : List α :=
  (xs.reverse.dropWhile p).reverse

/-- Drops white space at both ends. -/
def trim (cs : List Char) : List Char := dropTail isBlank (cs.dropWhile isBlank)

/-- Drops white space at both ends of a string. -/
def trimString (s : String) : String := String.ofList (trim s.toList)

/-- The first line without its end; a carriage return before the line feed belongs to the end. -/
def firstLine (cs : List Char) : List Char :=
  let line := cs.takeWhile (· ≠ '\n')
  if line.length < cs.length ∧ line.getLast? = some '\r' then line.dropLast else line

theorem isBlank_of_isWhitespace {c : Char} (h : c.isWhitespace) : isBlank c := by
  simp only [Char.isWhitespace, Bool.or_eq_true, decide_eq_true_eq] at h
  rcases h with ((rfl | rfl) | rfl) | rfl <;> decide

/-! ## Replacing parts -/

/-- Replaces a part wherever it stands, from left to right. The first `skip` characters belong to the
part that was found last. -/
def replaceFrom (part new : List Char) : (skip : Nat) → List Char → List Char
  | _, [] => []
  | skip + 1, _ :: rest => replaceFrom part new skip rest
  | 0, c :: rest =>
    if part.isPrefixOf (c :: rest) then new ++ replaceFrom part new (part.length - 1) rest
    else c :: replaceFrom part new 0 rest

/-- A text with another in each place of a part, which is not empty. -/
def replace (part new s : String) : String :=
  String.ofList (replaceFrom part.toList new.toList 0 s.toList)

/-! ## Columns -/

/-- The blanks that a text is short of a width. -/
def filler (width : Nat) (s : String) : String := String.ofList (List.replicate (width - s.length) ' ')

/-- A text at the left of its column. -/
def left (width : Nat) (s : String) : String := s ++ filler width s

/-- A text at the right of its column. -/
def right (width : Nat) (s : String) : String := filler width s ++ s

/-- Cuts a text that is longer than a width, and marks the cut by dots. -/
def shorten (width : Nat) (s : String) : String :=
  if s.length ≤ width then s else String.ofList (s.toList.take (width - 3)) ++ "..."

end ModelGraph.Text
