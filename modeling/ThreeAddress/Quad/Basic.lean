import ThreeAddress.Text.Blank
import ThreeAddress.Text.Numeral

/-!
# Quads

A quad is one three-address instruction: an operation, up to two operands and a destination.
The operation is recognised once, when the quad is built (`Operation.ofMnemonic`). The destination
of a jump is the index of an instruction, or it is unresolved until the jump is patched
(`Destination.ofText`).
-/

namespace ThreeAddress

/-- What an instruction does. -/
inductive Operation where
  /-- Jump if two operands are in the relation. -/
  | branch (relation : String)
  /-- Jump always. -/
  | goto
  | halt
  | arrayStore
  | arrayLoad
  | param
  | call
  | assign
  /-- Any other operation, known only by its mnemonic. -/
  | other (mnemonic : String)
deriving DecidableEq, Repr

namespace Operation

/-- The operation that a mnemonic names. A mnemonic that starts with `IF` is a conditional jump;
the relation is what follows, without leading blanks. -/
def ofMnemonic (mnemonic : String) : Operation :=
  match mnemonic.toList with
  | 'I' :: 'F' :: relation => branch (String.ofList (Text.trimStart relation))
  | _ =>
    if mnemonic = "GOTO" then goto
    else if mnemonic = "HALT" then halt
    else if mnemonic = "arr_set" then arrayStore
    else if mnemonic = "arr_get" then arrayLoad
    else if mnemonic = "PARAM" then param
    else if mnemonic = "CALL" then call
    else if mnemonic = ":=" then assign
    else other mnemonic

/-- The mnemonic that an operation is written with. -/
def mnemonic : Operation → String
  | branch relation => "IF " ++ relation
  | goto => "GOTO"
  | halt => "HALT"
  | arrayStore => "arr_set"
  | arrayLoad => "arr_get"
  | param => "PARAM"
  | call => "CALL"
  | assign => ":="
  | other mnemonic => mnemonic

/-- Whether the destination of the operation is an instruction. -/
def isJump : Operation → Bool
  | branch _ => true
  | goto => true
  | _ => false

end Operation

/-- Where the result of an instruction goes. -/
inductive Destination where
  /-- Nowhere. -/
  | empty
  /-- To a named place. -/
  | operand (text : String)
  /-- To the instruction with this index. -/
  | target (index : Nat)
  /-- To an instruction that is not known yet. -/
  | unresolved
deriving DecidableEq, Repr

namespace Destination

/-- The destination that a text stands for. For a jump a numeral is a target, and no text at all
leaves the jump unresolved. -/
def ofText (op : Operation) (text : Option String) : Destination :=
  match op.isJump, text with
  | true, none => unresolved
  | true, some t =>
    match Text.index? t.toList with
    | some index => target index
    | none => operand t
  | false, none => empty
  | false, some t => operand t

/-- Whether there is a destination, resolved or not. -/
def isPresent : Destination → Bool
  | empty => false
  | _ => true

/-- The index of the target instruction, if it is known. -/
def target? : Destination → Option Nat
  | target index => some index
  | _ => none

end Destination

/-- A three-address instruction. -/
structure Quad where
  op : Operation
  arg1 : Option String
  arg2 : Option String
  dest : Destination
deriving DecidableEq, Repr

namespace Quad

/-- The quad written with a mnemonic and the texts of its fields. -/
def ofText (mnemonic : String) (arg1 arg2 dest : Option String) : Quad :=
  let op := Operation.ofMnemonic mnemonic
  ⟨op, arg1, arg2, Destination.ofText op dest⟩

/-- A jump to `target`, unresolved if there is none. -/
def goto (target : Option Nat) : Quad :=
  ⟨.goto, none, none, target.elim .unresolved .target⟩

/-- An unresolved jump taken if `arg1` and `arg2` are in the relation. -/
def branch (relation arg1 arg2 : String) : Quad :=
  ⟨.branch relation, some arg1, some arg2, .unresolved⟩

/-- The assignment of `value` to `dest`. -/
def assign (dest value : String) : Quad := ofText ":=" (some value) none (some dest)

/-- Whether the instruction may jump. -/
def isJump (q : Quad) : Bool := q.op.isJump

/-- Whether the instruction is a jump that still waits for its target. -/
def isUnresolved (q : Quad) : Bool := q.isJump && q.dest == .unresolved

/-- The quad with its destination set to the instruction `target`. -/
def retarget (q : Quad) (target : Nat) : Quad := { q with dest := .target target }

end Quad

end ThreeAddress
