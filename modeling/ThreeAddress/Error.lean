import ThreeAddress.Script.Fault
import ThreeAddress.Settings.Fault

/-!
# Errors

The ways in which an operation of the library can fail, and how each is worded.
-/

namespace ThreeAddress

/-- Why an operation failed. -/
inductive Error where
  /-- The buffer may not hold more than `limit` instructions. -/
  | capacityExceeded (limit : Nat)
  /-- The instructions from `start` up to `stop` are not all in the buffer, whose next free index
  is `next`. -/
  | invalidRange (start stop next : Nat)
  | settings (fault : Settings.Fault)
  /-- A line of a script was refused. -/
  | script (fault : Script.Fault) (line : Nat)
  /-- The outside world refused a read or a write. -/
  | io (reason : String)
deriving DecidableEq, Repr

namespace Error

/-- The wording of a failure to get settings, for a given reason. -/
def settingsMessage (reason : String) : String := "Configuration error: " ++ reason

/-- The wording of a refused script line, for a given reason. -/
def scriptMessage (line : Nat) (reason : String) : String :=
  "Script error at line " ++ toString line ++ ": " ++ reason

/-- The wording of an error. -/
def message : Error → String
  | capacityExceeded limit =>
    "Instruction limit exceeded: buffer holds at most " ++ toString limit ++ " quads"
  | invalidRange start stop next =>
    "Invalid instruction range [" ++ toString start ++ ", " ++ toString stop
      ++ ") (next free index is " ++ toString next ++ ")"
  | settings fault => settingsMessage fault.message
  | script fault line => scriptMessage line fault.message
  | io reason => "IO error: " ++ reason

end Error

end ThreeAddress
