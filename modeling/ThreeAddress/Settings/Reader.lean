/-!
# Readers

A reader takes something off the front of a text, or fails. The choice `a <|> b` tries `b` from the
same place if `a` fails. Places in the text are measured from its end, by how much of it is left
(`Span`), so no reader has to count.
-/

namespace ThreeAddress.Settings

/-- Reads a value off the front of a text, and leaves the rest. -/
abbrev Reader := StateT (List Char) Option

/-- A part of a text, given by how many characters are left at its start and at its end. -/
structure Span where
  start : Nat
  stop : Nat
deriving DecidableEq, Repr

namespace Reader

variable {α : Type}

/-- One character of a class. -/
def char (p : Char → Bool) : Reader Char
  | c :: cs => if p c then some (c, cs) else none
  | [] => none

/-- One given character. -/
def the (c : Char) : Reader Unit := do let _ ← char (· == c)

/-- Given characters in a row. -/
def row : List Char → Reader Unit
  | [] => pure ()
  | c :: cs => do the c; row cs

/-- The longest run of characters of a class, which may be empty. -/
def run (p : Char → Bool) : Reader (List Char) := fun cs => some (cs.takeWhile p, cs.dropWhile p)

/-- The longest run of characters of a class, with at least one of them. -/
def run1 (p : Char → Bool) : Reader (List Char) := do
  let c ← char p
  let cs ← run p
  return c :: cs

/-- Nothing, if the text is at its end. -/
def atEnd : Reader Unit
  | [] => some ((), [])
  | _ :: _ => none

/-- What the reader finds, or nothing if it fails. -/
def optional? (r : Reader α) : Reader (Option α) := (some <$> r) <|> pure none

/-- The reader's values up to its first failure, at most `n` of them. -/
def upTo (r : Reader α) : (n : Nat) → Reader (List α)
  | 0 => pure []
  | n + 1 => (do let a ← r; let as ← upTo r n; return a :: as) <|> pure []

/-- The reader's values up to its first failure. A reader that takes at least one character each
time cannot succeed more often than there are characters. -/
def many (r : Reader α) : Reader (List α) := fun cs => upTo r cs.length cs

/-- What the reader finds, with the part of the text that it took. -/
def located (r : Reader α) : Reader (α × Span) := fun cs =>
  (r cs).map fun p => ((p.1, ⟨cs.length, p.2.length⟩), p.2)

end Reader

/-! ## White space, line ends and comments -/

/-- Blanks inside a line: spaces and tabs. -/
def blanks : Reader Unit := do let _ ← Reader.run fun c => c == ' ' || c == '\t'

/-- A line end: a line feed, or a carriage return and a line feed. -/
def newline : Reader Unit := Reader.row ['\n'] <|> Reader.row ['\r', '\n']

/-- A line end, or the end of the text. -/
def lineEnd : Reader Unit := newline <|> Reader.atEnd

/-- Whether a character may stand in a comment and, quotes and backslashes apart, in a string: all
but the control characters other than the tab. -/
def isPlain (c : Char) : Bool := c == '\t' || (decide (' ' ≤ c) && c != '\x7f')

/-- A comment, up to the line end. -/
def comment : Reader Unit := do
  Reader.the '#'
  let _ ← Reader.run isPlain

/-- What may follow on a line: blanks, a comment, the line end. -/
def trailing : Reader Unit := do
  blanks
  let _ ← Reader.optional? comment
  lineEnd

/-- What may stand between the elements of an array: blanks, line ends and comments. -/
def gap : Reader Unit := do
  let _ ← Reader.many (newline <|> (do comment; newline) <|>
    (do let _ ← Reader.char fun c => c == ' ' || c == '\t'))

end ThreeAddress.Settings
