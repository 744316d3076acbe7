import ThreeAddress.CommandLine.Program

/-!
# Directories in memory

A program can be run without a disk, on a directory that is a list of files (`Directory.run`). Names
of files may lead through subdirectories, which exist as soon as they hold a file.
-/

namespace ThreeAddress.CommandLine

/-- The wording of a failed request, by the number that the operating system gives it. -/
def systemReason : Nat → String
  | 2 => "No such file or directory (os error 2)"
  | 13 => "Permission denied (os error 13)"
  | 20 => "Not a directory (os error 20)"
  | 21 => "Is a directory (os error 21)"
  | code => "os error " ++ toString code

/-- The wording for a file that holds no text. -/
def notText : String := "stream did not contain valid UTF-8"

/-- The files of a directory. A file without text holds bytes that are not UTF-8. -/
structure Directory where
  files : List (String × Option String)
deriving DecidableEq, Repr

/-- What a path leads to. -/
inductive Found where
  /-- A file, by its name in the directory. -/
  | file (name : String) (text : Option String)
  | directory
  /-- Nothing yet, but a directory that could hold a file of this name. -/
  | vacant (name : String)
  /-- Nothing, and the operating system says why. -/
  | failure (code : Nat)
deriving DecidableEq, Repr

namespace Directory

/-- The steps of a path. Slashes in a row count as one. -/
def steps (path : String) : List (List Char) :=
  (path.toList.splitOn '/').filter fun s => !s.isEmpty

/-- The path that goes through the given names. -/
def joined (names : List (List Char)) : String := String.intercalate "/" (names.map String.ofList)

/-- Whether a path asks for a directory by its last character. -/
def endsInSlash (path : String) : Bool := path.toList.getLast? == some '/'

/-- The file that is reached by names from the directory. -/
def file? (d : Directory) (names : List (List Char)) : Option (String × Option String) :=
  d.files.find? fun f => steps f.1 == names

/-- Whether names lead to a subdirectory, which is so if a file lies below it. -/
def hasSubdirectory (d : Directory) (names : List (List Char)) : Bool :=
  d.files.any fun f => names.isPrefixOf (steps f.1) && steps f.1 != names

/-- Where steps lead that start above the directory: nothing but directories is known there. -/
def walkOutside (path : List (List Char)) : Found :=
  if path.all fun s => s == ['.'] || s == ['.', '.'] then .directory else .failure 2

/-- Where steps lead from a subdirectory, given by the names on the way to it. Every step but the
last needs a directory to go on from, and `.` and `..` are steps like any other. -/
def walk (d : Directory) : (names path : List (List Char)) → Found
  | _, [] => .directory
  | names, step :: path =>
    if step = ['.'] then d.walk names path
    else if step = ['.', '.'] then
      if names.isEmpty then walkOutside path else d.walk names.dropLast path
    else
      let names := names ++ [step]
      match d.file? names with
      | some (name, text) => if path.isEmpty then .file name text else .failure 20
      | none =>
        if d.hasSubdirectory names then d.walk names path
        else if path.isEmpty then .vacant (joined names)
        else .failure 2

/-- What a path leads to. The empty path leads nowhere. -/
def find (d : Directory) (path : String) : Found :=
  if path = "" then .failure 2
  else if path.toList.head? = some '/' then walkOutside (steps path)
  else d.walk [] (steps path)

/-- Reads a file. -/
def read (d : Directory) (path : String) : Except String String :=
  match d.find path with
  | .file _ text =>
    if endsInSlash path then .error (systemReason 20)
    else
      match text with
      | none => .error notText
      | some text => .ok text
  | .directory => .error (systemReason 21)
  | .vacant _ => .error (systemReason 2)
  | .failure code => .error (systemReason code)

/-- Writes a file, which needs a directory to be in. -/
def write (d : Directory) (path text : String) : Except String Directory :=
  match d.find path with
  | .file name _ =>
    if endsInSlash path then .error (systemReason 21)
    else .ok ⟨d.files.map fun f => if f.1 = name then (name, some text) else f⟩
  | .vacant name =>
    if endsInSlash path then .error (systemReason 21) else .ok ⟨d.files ++ [(name, some text)]⟩
  | .directory => .error (systemReason 21)
  | .failure code => .error (systemReason code)

/-- A directory answers requests. -/
def answers : Answers Directory := ⟨read, write⟩

/-- Runs a program on the files of a directory. -/
def run (dialogue : Dialogue) (d : Directory) : Report × Directory := dialogue.run answers d

/-- The files that are new or hold something else than before. -/
def changes (before after : Directory) : List (String × String) :=
  after.files.filterMap fun f =>
    if before.files.contains f then none else f.2.map fun text => (f.1, text)

end Directory

end ThreeAddress.CommandLine
