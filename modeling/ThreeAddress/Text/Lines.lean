/-!
# Lines

A line ends at a line feed, or at a carriage return followed by one. The text after the last line
feed is a line of its own only if it is not empty (`lines`).
-/

namespace ThreeAddress.Text

/-- A terminated line without the carriage return that may precede its line feed. -/
def dropReturn (line : List Char) : List Char :=
  if line.getLast? = some '\r' then line.dropLast else line

/-- The lines of a text. A carriage return at the very end of the text, with no line feed after
it, belongs to the last line. -/
def lines (cs : List Char) : List (List Char) :=
  let pieces := cs.splitOn '\n'
  pieces.dropLast.map dropReturn ++ (pieces.getLast?.filter fun l => !l.isEmpty).toList

end ThreeAddress.Text
