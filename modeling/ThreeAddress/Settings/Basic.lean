import ThreeAddress.Event
import ThreeAddress.Outcome
import ThreeAddress.Settings.Library
import ThreeAddress.Text.Quoted

/-!
# Settings

The one setting is the number of instructions that a buffer may hold. It is read from a document
whose only key is `max_quads` (`Library.settings`). Each entry is taken into the settings or refused
(`take`); the library decides in which order they are looked at.
-/

namespace ThreeAddress

/-- The settings of a code generator. -/
structure Settings where
  /-- How many instructions the buffer may hold. -/
  limit : Nat := 5000
deriving DecidableEq, Repr

namespace Settings

/-- The settings, unless they leave no room for any instruction. -/
def validate (s : Settings) : Except Fault Settings :=
  if s.limit = 0 then .error .zeroLimit else .ok s

/-- What a message calls a value that is not an integer. -/
def Node.description : Node → String
  | .integer value => "integer `" ++ toString value ++ "`"
  | .float value => "floating point `" ++ Decimal.floatText value ++ "`"
  | .boolean value => "boolean `" ++ toString value ++ "`"
  | .string value => "string " ++ Text.quoted value
  | .moment => "map"
  | .array _ => "sequence"
  | .table .. => "map"
  | .tables _ => "sequence"

/-- Takes one entry of a document into the settings, or refuses the part of the text at fault. -/
def take : Visitor Settings (Span × Refusal) := fun s (key, span, node) =>
  if key.name ≠ "max_quads" then .error (key.span, .unknownField key.name)
  else
    match node with
    | .integer value =>
      if value < 0 then .error (span, .negative value) else .ok { s with limit := value.toNat }
    | node => .error (span, .wrongType node.description)

/-- How many bytes characters take in UTF-8. -/
def byteCount (cs : List Char) : Nat := cs.foldl (fun n c => n + c.utf8Size) 0

/-- The line of a text where a part of it starts, with the part marked as far as it is on that line.
Marks are counted in bytes. -/
def Excerpt.ofSpan (text : List Char) (span : Span) : Excerpt :=
  let before := text.take (text.length - span.start)
  let marked := (text.drop (text.length - span.start)).take (span.start - span.stop)
  let line := before.count '\n'
  let column := (before.reverse.takeWhile (· != '\n')).length
  let content := (text.splitOn '\n').getD line []
  ⟨line + 1, column, String.ofList content, min (byteCount marked) (byteCount content - column)⟩

/-- The **settings** that a text holds. What it leaves out keeps its usual value. -/
def Library.settings (library : Library) (text : String) : Except Fault Settings :=
  match library.visit take {} text.toList with
  | none => .error .malformed
  | some (.error (span, refusal)) => .error (.refused (.ofSpan text.toList span) refusal)
  | some (.ok settings) => settings.validate

/-- The settings that a text holds, with the event of having read them. -/
def Library.load (library : Library) (text : String) : Logged (Except Fault Settings) :=
  match library.settings text with
  | .error fault => ⟨.error fault, []⟩
  | .ok settings => ⟨.ok settings, [.loadedSettings settings.limit]⟩

/-- The same with the library of this project. -/
def load (text : String) : Logged (Except Fault Settings) := Document.library.load text

end Settings

end ThreeAddress
