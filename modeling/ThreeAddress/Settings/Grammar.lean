import ThreeAddress.Settings.Calendar
import ThreeAddress.Settings.Document
import ThreeAddress.Settings.Number

/-!
# The grammar of documents

Documents are written in TOML. A text is read line by line into assignments and headers, and from
these the document is built (`Document.ofText?`). Arrays and inline tables nest, up to a fixed depth.
-/

namespace ThreeAddress.Settings

/-- Arrays and inline tables may stand inside each other at this depth, but not deeper. -/
def nestingLimit : Nat := 79

/-- A dotted key may have this many parts, but not more. -/
def pathLimit : Nat := 79

/-- Whether a character may stand in a key without quotes. -/
def isBareKey (c : Char) : Bool := c.isAlphanum || c == '_' || c == '-'

/-- One part of a dotted key, with blanks around it. -/
def keyPart : Reader Key := do
  blanks
  let (name, span) ← Reader.located
    (basicString <|> literalString <|> (String.ofList <$> Reader.run1 isBareKey))
  blanks
  return ⟨name, span⟩

/-- A **key**: parts with dots between them. -/
def path : Reader Path := do
  let first ← keyPart
  let rest ← Reader.many (do Reader.the '.'; keyPart)
  if pathLimit < rest.length + 1 then failure
  match rest.reverse with
  | [] => return ⟨[], first⟩
  | last :: between => return ⟨first :: between.reverse, last⟩

/-- A value that holds no other values. -/
def scalar : Reader Node :=
  (.string <$> string) <|>
  (do moment; return .moment) <|>
  (.float <$> float) <|>
  (.integer <$> integer) <|>
  (do Reader.row ['t', 'r', 'u', 'e']; return .boolean true) <|>
  (do Reader.row ['f', 'a', 'l', 's', 'e']; return .boolean false)

/-- An array of values. It may run over several lines and end in a comma. -/
def array (value : Reader Node) : Reader Node := do
  Reader.the '['
  gap
  let items ← Reader.optional? (do
    let first ← value
    let rest ← Reader.many (do gap; Reader.the ','; gap; value)
    let _ ← Reader.optional? (do gap; Reader.the ',')
    return first :: rest)
  gap
  Reader.the ']'
  return .array (items.getD [])

/-- A key, an equals sign and a value. -/
def assignment (value : Reader Node) : Reader Assignment := do
  let path ← path
  Reader.the '='
  blanks
  let (node, span) ← Reader.located value
  return ⟨path, span, node⟩

/-- A table on one line. -/
def inlineTable (value : Reader Node) : Reader Node := do
  Reader.the '\x7b'
  blanks
  let assignments ← Reader.optional? (do
    let first ← assignment value
    let rest ← Reader.many (do blanks; Reader.the ','; assignment value)
    return first :: rest)
  blanks
  Reader.the '\x7d'
  match assignAll .inline [] (assignments.getD []) with
  | some entries => return .table .inline entries
  | none => failure

/-- A **value** in which arrays and inline tables nest at most `depth` deep. -/
def value : (depth : Nat) → Reader Node
  | 0 => scalar
  | depth + 1 => scalar <|> array (value depth) <|> inlineTable (value depth)

/-- What a line says. -/
inductive Statement where
  | nothing
  | assign (assignment : Assignment)
  | header (header : Header) (span : Span)

/-- The header of a table or of an element of an array of tables. -/
def header : Reader Header :=
  (do
    Reader.row ['[', '[']
    let path ← path
    Reader.row [']', ']']
    return .element path) <|>
  (do
    Reader.the '['
    let path ← path
    Reader.the ']'
    return .table path)

/-- One statement, with the blanks before it and the line end after it. -/
def statement : Reader Statement := do
  blanks
  (do newline; return .nothing) <|>
    (do comment; lineEnd; return .nothing) <|>
    (do
      let (h, span) ← Reader.located header
      trailing
      return .header h span) <|>
    (do
      let a ← assignment (value nestingLimit)
      trailing
      return .assign a)

/-- The assignments before the first header, and the sections from there on. -/
def sections : List Statement → List Assignment × List Section
  | [] => ([], [])
  | .nothing :: rest => sections rest
  | .assign a :: rest =>
    let (top, below) := sections rest
    (a :: top, below)
  | .header h span :: rest =>
    let (top, below) := sections rest
    ([], ⟨h, span, top⟩ :: below)

/-- All statements of a text, up to its end. A byte order mark at its start is passed over. -/
def statements : Reader (List Statement) := do
  let _ ← Reader.optional? (Reader.the '\ufeff')
  let found ← Reader.many statement
  blanks
  Reader.atEnd
  return found

/-- The document that a text holds. -/
def Document.ofText? (text : List Char) : Option Entries := do
  let (found, _) ← statements text
  let (top, below) := sections found
  document? top below

end ThreeAddress.Settings
