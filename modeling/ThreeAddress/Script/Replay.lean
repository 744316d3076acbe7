import ThreeAddress.Builder.Backpatch
import ThreeAddress.Builder.Unroll
import ThreeAddress.Script.Command
import ThreeAddress.Script.NamedLists
import ThreeAddress.Text.Lines

/-!
# Replaying scripts

A replay carries out the lines of a script one by one on a builder (`Replay.run`) and stops at the
first line that fails. The named lists and the line count live on from one script to the next.
-/

namespace ThreeAddress.Script

/-- The state of a replay. -/
structure Replay where
  builder : Builder
  lists : NamedLists
  /-- How many lines were read, the current one included. -/
  line : Nat
deriving DecidableEq, Repr

namespace Replay

/-- A replay on a builder, with no lists and no lines read. -/
def ofBuilder (b : Builder) : Replay := ⟨b, .empty, 0⟩

/-- The index that a place stands for at this point of the replay. -/
def resolve (r : Replay) (place : Place) : Nat := place.resolved r.builder.next

/-- The refusal of the current line. -/
def refuse (r : Replay) (fault : Fault) : Outcome Replay Unit := .fail (.script fault r.line) r []

/-- The replay with another builder. -/
def withBuilder (r : Replay) (b : Builder) : Replay := { r with builder := b }

/-- Puts an index on a list, if one is named. -/
def note (r : Replay) (list : Option String) (index : Nat) : Replay :=
  match list with
  | none => r
  | some name => { r with lists := r.lists.push name index }

/-- Carries out a command. -/
def perform (r : Replay) : Command → Outcome Replay Unit
  | .emit mnemonic arg1 arg2 dest list =>
    ((r.builder.emit (.ofText mnemonic arg1 arg2 dest)).within r.withBuilder).andThen
      fun index r => .ok () (r.note list index) []
  | .temporary =>
    let fresh := r.builder.freshTemporary
    .ok () (r.withBuilder fresh.value.2) fresh.log
  | .label =>
    let fresh := r.builder.freshLabel
    .ok () (r.withBuilder fresh.value.2) fresh.log
  | .merge into source => .ok () { r with lists := r.lists.merge into source } []
  | .patch name target =>
    match r.lists.get? name with
    | none => r.refuse (.unknownList name)
    | some list =>
      let patched := r.builder.backpatch list (r.resolve target)
      .ok () ⟨patched.value, r.lists.erase name, r.line⟩ patched.log
  | .unroll start stop times =>
    (r.builder.unroll start (r.resolve stop) times).within r.withBuilder
  | .reset =>
    let fresh := r.builder.reset
    .ok () ⟨fresh.value, .empty, r.line⟩ fresh.log

/-- Carries out what the current line says. -/
def execute (r : Replay) (text : List Char) : Outcome Replay Unit :=
  match statement? text with
  | none => .ok () r []
  | some (word, arguments) =>
    let outcome :=
      match Command.ofWords word arguments with
      | .error fault => r.refuse fault
      | .ok command => r.perform command
    outcome.after [.replayed r.line word (String.ofList arguments)]

/-- Reads one more line and carries it out. -/
def step (r : Replay) (text : List Char) : Outcome Replay Unit :=
  { r with line := r.line + 1 }.execute text

/-- Carries out lines up to the first that fails. -/
def runLines (r : Replay) : List (List Char) → Outcome Replay Unit
  | [] => .ok () r []
  | text :: texts => (r.step text).andThen fun _ r => r.runLines texts

/-- The warnings for lists that still hold jumps. -/
def leftovers (r : Replay) : List Event :=
  (r.lists.entries.filter fun e => !e.2.isEmpty).map fun e => .neverPatched e.1 e.2.indices

/-- Replays a script. If it comes to its end, lists that still hold jumps are warned about. -/
def run (r : Replay) (source : String) : Outcome Replay Unit :=
  (r.runLines (Text.lines source.toList)).andThen fun _ r => .ok () r r.leftovers

end Replay

/-- Replays a single script on a builder. -/
def replay (b : Builder) (source : String) : Outcome Builder Unit :=
  ((Replay.ofBuilder b).run source).within Replay.builder

end ThreeAddress.Script
