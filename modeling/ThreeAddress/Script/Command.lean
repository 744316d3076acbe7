import ThreeAddress.Script.Fault
import ThreeAddress.Text.Blank
import ThreeAddress.Text.Numeral

/-!
# Script commands

A line of a script is empty, a comment, or a command word followed by arguments (`statement?`). What
the words mean is decided from the line alone (`Command.ofWords`), before anything is carried out:
either there is a command or there is a fault.
-/

namespace ThreeAddress.Script

/-- An instruction index as a script names it. -/
inductive Place where
  /-- The index that the next instruction will have. -/
  | here
  | index (n : Nat)
deriving DecidableEq, Repr

/-- The index that a place stands for if the next instruction has the index `next`. -/
def Place.resolved (next : Nat) : Place → Nat
  | here => next
  | index n => n

/-- What a script line asks for. -/
inductive Command where
  /-- Emit an instruction and, if a list is named, put its index on that list. -/
  | emit (mnemonic : String) (arg1 arg2 dest list : Option String)
  | temporary
  | label
  /-- Put the entries of the list `source` behind those of the list `into`. -/
  | merge (into source : String)
  /-- Give all jumps of a list their target. -/
  | patch (list : String) (target : Place)
  | unroll (start : Nat) (stop : Place) (times : Int)
  | reset
deriving DecidableEq, Repr

/-- The command word and the arguments of a line, or nothing for an empty line and for a comment,
which starts with `#`. -/
def statement? (line : List Char) : Option (String × List Char) :=
  match Text.trim line with
  | [] => none
  | '#' :: _ => none
  | text => some (String.ofList (Text.firstWord text), Text.trim (Text.afterWord text))

namespace Command

/-- The text before and after the first arrow `->`. -/
def splitArrow? : List Char → Option (List Char × List Char)
  | [] => none
  | '-' :: '>' :: after => some ([], after)
  | c :: cs => (splitArrow? cs).map fun p => (c :: p.1, p.2)

/-- The name of a list: not empty and without blanks. -/
def listName (text : List Char) : Except Fault String :=
  let name := Text.trim text
  if name.isEmpty || name.any Text.isBlank then .error (.badListName (String.ofList name))
  else .ok (String.ofList name)

/-- An optional field of an instruction; an empty field and a `-` stand for nothing. -/
def field? (text : List Char) : Option String :=
  if text.isEmpty || text == ['-'] then none else some (String.ofList text)

/-- The instruction that is written as up to four fields with bars between them. -/
def ofFields (fields : List (List Char)) (list : Option String) : Except Fault Command :=
  let field (i : Nat) : Option String := fields[i]?.bind field?
  if 4 < fields.length then .error (.tooManyFields fields.length)
  else if (fields.headD []).isEmpty then .error .noOperation
  else .ok (emit (String.ofList (fields.headD [])) (field 1) (field 2) (field 3) list)

/-- Reads `emit OP | ARG1 | ARG2 | DEST -> LIST`, where all but the operation may be left out. -/
def emitOf (arguments : List Char) : Except Fault Command :=
  let fieldsOf (text : List Char) := (text.splitOn '|').map Text.trim
  match splitArrow? arguments with
  | none => ofFields (fieldsOf arguments) none
  | some (before, after) =>
    match listName after with
    | .error fault => .error fault
    | .ok list => ofFields (fieldsOf before) (some list)

/-- An index written as a numeral. -/
def indexOf (text : List Char) : Except Fault Nat :=
  match Text.index? text with
  | some n => .ok n
  | none => .error (.badIndex (String.ofList text))

/-- An index written as a numeral or as the word `here`. -/
def placeOf (text : List Char) : Except Fault Place :=
  if text = "here".toList then .ok .here else (indexOf text).map .index

/-- A repeat count. -/
def countOf (text : List Char) : Except Fault Int :=
  match Text.count? text with
  | some n => .ok n
  | none => .error (.badCount (String.ofList text))

/-- Reads `merge INTO SOURCE`. -/
def mergeOf (arguments : List Char) : Except Fault Command :=
  match Text.words arguments with
  | [into, source] => .ok (merge (String.ofList into) (String.ofList source))
  | words => .error (.argumentCount "merge" 2 words.length)

/-- Reads `patch LIST TARGET`. -/
def patchOf (arguments : List Char) : Except Fault Command :=
  match Text.words arguments with
  | [list, target] => (placeOf target).map (patch (String.ofList list))
  | words => .error (.argumentCount "patch" 2 words.length)

/-- Reads `unroll START STOP TIMES`. The first argument at fault, from the left, is reported. -/
def unrollOf (arguments : List Char) : Except Fault Command :=
  match Text.words arguments with
  | [start, stop, times] => do
    let start ← indexOf start
    let stop ← placeOf stop
    let times ← countOf times
    return unroll start stop times
  | words => .error (.argumentCount "unroll" 3 words.length)

/-- A command that consists of its word alone. -/
def bare (word : String) (command : Command) (arguments : List Char) : Except Fault Command :=
  if arguments.isEmpty then .ok command else .error (.noArguments word)

/-- The command that a word and its arguments stand for. -/
def ofWords (word : String) (arguments : List Char) : Except Fault Command :=
  if word = "emit" then emitOf arguments
  else if word = "temp" then bare word temporary arguments
  else if word = "label" then bare word label arguments
  else if word = "merge" then mergeOf arguments
  else if word = "patch" then patchOf arguments
  else if word = "unroll" then unrollOf arguments
  else if word = "reset" then bare word reset arguments
  else .error (.unknownCommand word)

end Command

end ThreeAddress.Script
