import ThreeAddress.Text.Visible

/-!
# Quoted text

A text is shown in a message between double quotes. Quotes and backslashes get a backslash in front;
characters that do not show as themselves are written as escapes.
-/

namespace ThreeAddress.Text

/-- The characters that a message shows for one character of a text. -/
def escaped (c : Char) : List Char :=
  if c = '\x00' then ['\\', '0']
  else if c = '\t' then ['\\', 't']
  else if c = '\n' then ['\\', 'n']
  else if c = '\r' then ['\\', 'r']
  else if c = '"' then ['\\', '"']
  else if c = '\\' then ['\\', '\\']
  else if isVisible c then [c]
  else ['\\', 'u', '\x7b'] ++ Nat.toDigits 16 c.toNat ++ ['\x7d']

/-- A text between double quotes. -/
def quoted (text : String) : String :=
  String.ofList ('"' :: text.toList.flatMap escaped ++ ['"'])

end ThreeAddress.Text
