import ThreeAddress.CommandLine.Directory

/-!
# The command line tool

Carries out the requests of the program with real files.
-/

namespace ThreeAddress.CommandLine

/-- The wording of a failed request. -/
def describe (e : IO.Error) : String :=
  match e with
  | .noFileOrDirectory .. => systemReason 2
  | .permissionDenied .. => systemReason 13
  | .inappropriateType _ code _ => systemReason code.toNat
  | e => toString e

/-- Reads a text file. -/
def readText (path : String) : IO (Except String String) := do
  try
    match String.fromUTF8? (← IO.FS.readBinFile path) with
    | some text => return .ok text
    | none => return .error notText
  catch e => return .error (describe e)

/-- Writes a text file. -/
def writeText (path text : String) : IO (Except String Unit) := do
  try
    IO.FS.writeFile path text
    return .ok ()
  catch e => return .error (describe e)

/-- Holds a dialogue with the file system. -/
def Dialogue.perform : Dialogue → IO Report
  | .finish report => return report
  | .read path next => do (next (← readText path)).perform
  | .write path text next => do (next (← writeText path text)).perform

end ThreeAddress.CommandLine

open ThreeAddress.CommandLine in
/-- Runs the program and ends with its exit code. -/
def main (arguments : List String) : IO UInt32 := do
  let name := (← IO.appPath).toString
  let report ← (program name arguments).perform
  (← IO.getStdout).putStr report.stdout
  (← IO.getStderr).putStr report.stderr
  return report.exit.toUInt32
