import ThreeAddress.Settings.Reader

/-!
# Strings

A string stands in double quotes, where a backslash starts an escape, or in single quotes, where
every character stands for itself. Three quotes in a row start a string that may run over several
lines.
-/

namespace ThreeAddress.Settings

/-- Whether a character is a hexadecimal digit. -/
def isHexDigit (c : Char) : Bool :=
  c.isDigit || (decide ('a' ≤ c) && decide (c ≤ 'f')) || (decide ('A' ≤ c) && decide (c ≤ 'F'))

/-- The value of a digit, in any base up to sixteen. -/
def digitValue (c : Char) : Nat :=
  if c.isDigit then c.toNat - '0'.toNat
  else if 'a' ≤ c then c.toNat - 'a'.toNat + 10
  else c.toNat - 'A'.toNat + 10

/-- The number that digits stand for in a base. -/
def digitsValue (base : Nat) (digits : List Char) : Nat :=
  digits.foldl (fun n c => base * n + digitValue c) 0

/-- A given number of hexadecimal digits that name a character. -/
def codePoint (count : Nat) : Reader Char := do
  let digits ← (List.replicate count ()).mapM fun _ => Reader.char isHexDigit
  let n := digitsValue 16 digits
  if n < 0xD800 || (0xDFFF < n && n ≤ 0x10FFFF) then return Char.ofNat n else failure

/-- The escapes of one letter. -/
def shortEscape? : Char → Option Char
  | 'b' => some '\x08'
  | 't' => some '\t'
  | 'n' => some '\n'
  | 'f' => some '\x0c'
  | 'r' => some '\r'
  | '"' => some '"'
  | '\\' => some '\\'
  | _ => none

/-- An **escape**: a backslash, then a letter, or `u` and four or `U` and eight digits. -/
def escape : Reader Char := do
  Reader.the '\\'
  let letter ← Reader.char fun _ => true
  if letter = 'u' then codePoint 4
  else if letter = 'U' then codePoint 8
  else (shortEscape? letter).elim failure pure

/-- Text in double quotes, on one line. -/
def basicString : Reader String := do
  Reader.the '"'
  let text ← Reader.many (escape <|> Reader.char fun c => isPlain c && c != '"' && c != '\\')
  Reader.the '"'
  return String.ofList text

/-- Text in single quotes, on one line. -/
def literalString : Reader String := do
  Reader.the '\''
  let text ← Reader.run fun c => isPlain c && c != '\''
  Reader.the '\''
  return String.ofList text

/-- A backslash at the end of a line stands for nothing, together with all blanks and line ends that
follow. -/
def joinedLines : Reader Unit := do
  Reader.the '\\'
  blanks
  newline
  let _ ← Reader.many (newline <|> (do let _ ← Reader.char fun c => c == ' ' || c == '\t'))

/-- A quote that does not start a run of three. -/
def looseQuote (quote : Char) : Reader Char
  | c :: cs =>
    if c == quote && !(cs.take 2 == [quote, quote]) then some (c, cs) else none
  | [] => none

/-- The end of a string of several lines: three quotes, after up to two that belong to the text. -/
def closing (quote : Char) : Reader (List Char) := fun cs =>
  let quotes := (cs.takeWhile (· == quote)).length
  let inside := min (quotes - 3) 2
  if quotes < 3 then none else some (List.replicate inside quote, cs.drop (3 + inside))

/-- Text between three double quotes. A line end right after the opening is dropped; other line ends
are line feeds in the text. -/
def longBasicString : Reader String := do
  Reader.row ['"', '"', '"']
  let _ ← Reader.optional? newline
  let parts ← Reader.many (
    (do joinedLines; return []) <|>
    (do newline; return ['\n']) <|>
    (do return [← escape <|> looseQuote '"' <|>
      Reader.char fun c => isPlain c && c != '"' && c != '\\']))
  let quotes ← closing '"'
  return String.ofList (parts.flatten ++ quotes)

/-- Text between three single quotes. -/
def longLiteralString : Reader String := do
  Reader.row ['\'', '\'', '\'']
  let _ ← Reader.optional? newline
  let text ← Reader.many (
    (do newline; return '\n') <|> looseQuote '\'' <|>
    Reader.char fun c => isPlain c && c != '\'')
  let quotes ← closing '\''
  return String.ofList (text ++ quotes)

/-- A **string** in any of the four forms. -/
def string : Reader String :=
  longBasicString <|> basicString <|> longLiteralString <|> literalString

end ThreeAddress.Settings
