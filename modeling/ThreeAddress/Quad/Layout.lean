import ThreeAddress.Quad.Basic

/-!
# How a quad is written

Each operation has its own layout. An operation known only by its mnemonic is written as a binary or
unary assignment where its fields allow that, else as the mnemonic followed by the fields present.
-/

namespace ThreeAddress

/-- The text of a destination; `???` stands for a target that is not known yet. -/
def Destination.text : Destination → String
  | empty => ""
  | operand text => text
  | target index => toString index
  | unresolved => "???"

/-- The mnemonic and the fields present, separated by single spaces. -/
def Quad.fieldwise (mnemonic : String) (arg1 arg2 : Option String) (dest : Destination) : String :=
  let fields := arg1.toList ++ arg2.toList ++ (if dest.isPresent then [dest.text] else [])
  String.intercalate " " (mnemonic :: fields)

/-- The text of a quad. An absent operand is written as the empty text. -/
def Quad.text (q : Quad) : String :=
  let a := q.arg1.getD ""
  let b := q.arg2.getD ""
  let d := q.dest.text
  match q.op with
  | .branch relation => "IF " ++ a ++ " " ++ relation ++ " " ++ b ++ " GOTO " ++ d
  | .goto => "GOTO " ++ d
  | .halt => "HALT"
  | .arrayStore => a ++ "[" ++ b ++ "] := " ++ d
  | .arrayLoad => d ++ " := " ++ a ++ "[" ++ b ++ "]"
  | .param => "PARAM " ++ a
  | .call => "CALL " ++ a ++ ", " ++ b
  | .assign => d ++ " := " ++ a
  | .other mnemonic =>
    match q.arg1, q.arg2, q.dest.isPresent with
    | some _, some _, true => d ++ " := " ++ a ++ " " ++ mnemonic ++ " " ++ b
    | some _, none, true => d ++ " := " ++ mnemonic ++ " " ++ a
    | _, _, _ => Quad.fieldwise mnemonic q.arg1 q.arg2 q.dest

end ThreeAddress
