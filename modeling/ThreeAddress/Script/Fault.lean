/-!
# What can be wrong with a script line

A script line that cannot be carried out as written has one fault. All faults but the last are seen
from the line alone; `unknownList` needs the lists that exist when the line is reached.
-/

namespace ThreeAddress.Script

/-- Why a script line is refused. -/
inductive Fault where
  | unknownCommand (word : String)
  /-- The command takes no arguments and was given some. -/
  | noArguments (command : String)
  /-- The command takes `expected` arguments and was given `found`. -/
  | argumentCount (command : String) (expected found : Nat)
  | badListName (name : String)
  | tooManyFields (found : Nat)
  | noOperation
  | badIndex (text : String)
  | badCount (text : String)
  | unknownList (name : String)
deriving DecidableEq, Repr

/-- The wording of a fault. -/
def Fault.message : Fault → String
  | unknownCommand word => "unknown command '" ++ word ++ "'"
  | noArguments command => "'" ++ command ++ "' takes no arguments"
  | argumentCount command expected found =>
    "'" ++ command ++ "' takes " ++ toString expected ++ " argument(s), found " ++ toString found
  | badListName name => "invalid list name '" ++ name ++ "'"
  | tooManyFields found => "emit takes at most 4 fields, found " ++ toString found
  | noOperation => "emit requires an operation"
  | badIndex text => "invalid instruction index '" ++ text ++ "'"
  | badCount text => "invalid repeat count '" ++ text ++ "'"
  | unknownList name => "unknown pending list '" ++ name ++ "'"

end ThreeAddress.Script
