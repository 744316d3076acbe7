/-!
# What can be wrong with settings

A settings text may be no document at all, or a document with content that is not a setting. In the
second case the fault shows the place: an excerpt of the text with the offending part underlined.
-/

namespace ThreeAddress.Settings

/-- A line of a text with a part of it marked: `width` characters after the first `column` ones.
Lines are counted from one. -/
structure Excerpt where
  line : Nat
  column : Nat
  content : String
  width : Nat
deriving DecidableEq, Repr

/-- The excerpt as four lines: a heading, a ruler, the line with its number, and the marks. The
columns of the heading are counted from one, and at least one mark is made. -/
def Excerpt.text (e : Excerpt) : String :=
  let number := toString e.line
  let margin := String.ofList (List.replicate (number.length + 1) ' ')
  "TOML parse error at line " ++ number ++ ", column " ++ toString (e.column + 1) ++ "\n"
    ++ margin ++ "|\n"
    ++ number ++ " | " ++ e.content ++ "\n"
    ++ margin ++ "|" ++ String.ofList (List.replicate (e.column + 1) ' ')
    ++ String.ofList (List.replicate (max 1 e.width) '^') ++ "\n"

/-- Why the content of a document is refused. -/
inductive Refusal where
  /-- The key is not the name of a setting. -/
  | unknownField (key : String)
  /-- The limit is a negative number. -/
  | negative (value : Int)
  /-- The limit is not a number at all, but what is described. -/
  | wrongType (description : String)
deriving DecidableEq, Repr

/-- The wording of a refusal. -/
def Refusal.message : Refusal → String
  | unknownField key => "unknown field `" ++ key ++ "`, expected `max_quads`"
  | negative value => "invalid value: integer `" ++ toString value ++ "`, expected usize"
  | wrongType description => "invalid type: " ++ description ++ ", expected usize"

/-- Why no settings could be had. -/
inductive Fault where
  /-- The file could not be read. -/
  | unreadable (path reason : String)
  /-- The text is not a document. -/
  | malformed
  /-- The document holds something that is not a setting. -/
  | refused (excerpt : Excerpt) (refusal : Refusal)
  /-- The limit leaves no room for any instruction. -/
  | zeroLimit
deriving DecidableEq, Repr

/-- The wording of a fault. -/
def Fault.message : Fault → String
  | unreadable path reason => "cannot read '" ++ path ++ "': " ++ reason
  | malformed => "TOML parse error\n"
  | refused excerpt refusal => excerpt.text ++ refusal.message ++ "\n"
  | zeroLimit => "max_quads must be at least 1"

end ThreeAddress.Settings
