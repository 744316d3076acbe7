/-!
# Value types

The types of the values that instructions work on, and what the symbol table records of a declared
name. An arithmetic operation exists in an integer and a floating point form; `ValueType.opcode`
picks the form by a one-letter suffix.
-/

namespace ThreeAddress

/-- The type of a value. `error` marks a value whose type could not be determined. -/
inductive ValueType where
  | int
  | float
  | bool
  | string
  | error
deriving DecidableEq, Repr

namespace ValueType

/-- The name of the type as a user reads it. -/
def name : ValueType → String
  | int => "int"
  | float => "float"
  | bool => "bool"
  | string => "string"
  | error => "error"

/-- Whether operations on the type use the floating point form. -/
def isFloat : ValueType → Bool
  | float => true
  | _ => false

/-- The letter that an operation on the type ends in. -/
def suffix (t : ValueType) : String := if t.isFloat then "F" else "I"

/-- The **opcode** of the operation `base` on values of the type. -/
def opcode (t : ValueType) (base : String) : String := base ++ t.suffix

end ValueType

/-- What the symbol table records of a declared name: its type and, for an array, how many elements
were declared. -/
structure Declaration where
  type : ValueType
  extent : Option Nat
deriving DecidableEq, Repr

namespace Declaration

/-- A single value. -/
def scalar (type : ValueType) : Declaration := ⟨type, none⟩

/-- An array of `length` elements. -/
def array (type : ValueType) (length : Nat) : Declaration := ⟨type, some length⟩

/-- Whether an array was declared. -/
def isArray (d : Declaration) : Bool := d.extent.isSome

/-- The declared element count, `0` for a single value. -/
def length (d : Declaration) : Nat := d.extent.getD 0

end Declaration

end ThreeAddress
