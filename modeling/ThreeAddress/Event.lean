import ThreeAddress.Quad.Layout

/-!
# The journal

Every operation tells what it did as a list of events, in the order in which things happened. An
event has a level (`Event.level`) and a wording (`Event.message`).
-/

namespace ThreeAddress

/-- How serious an event is. -/
inductive Level where
  | error
  | warn
  | debug
deriving DecidableEq, Repr

/-- The name of the level as it is written in a journal. -/
def Level.name : Level → String
  | error => "ERROR"
  | warn => "WARN"
  | debug => "DEBUG"

/-- How far a level is from the most serious one. -/
def Level.rank : Level → Nat
  | error => 0
  | warn => 1
  | debug => 2

/-- Whether a journal that is kept at one level shows events of another. -/
def Level.shows (kept level : Level) : Bool := decide (level.rank ≤ kept.rank)

/-- Something that an operation did or met. -/
inductive Event where
  /-- A builder was made for at most `limit` instructions. -/
  | opened (limit : Nat)
  /-- A builder was reset; it held `discarded` instructions. -/
  | wasReset (discarded : Nat)
  | namedTemporary (name : String)
  | namedLabel (name : String)
  /-- An instruction took its place in the buffer. -/
  | emitted (index : Nat) (quad : Quad)
  /-- There was no room for `requested` more instructions. -/
  | noRoom (held requested limit : Nat)
  /-- A pending index names no instruction. -/
  | skipped (index held target : Nat)
  /-- An instruction that had a target is given another one. -/
  | retargeted (index previous target : Nat)
  | patched (index target : Nat)
  /-- A range was to be repeated no times, or was empty. -/
  | nothingToUnroll (start stop : Nat) (times : Int)
  /-- A copy of a range starts at `first`, `offset` instructions behind the range. -/
  | copied (start stop repetition : Nat) (times : Int) (first offset : Nat)
  /-- A listing shows jumps without a target. -/
  | listedUnresolved (indices : List Nat)
  | loadedSettings (limit : Nat)
  /-- A script line is about to be carried out. -/
  | replayed (line : Nat) (command arguments : String)
  /-- A script ended and a named list still held jumps. -/
  | neverPatched (name : String) (indices : List Nat)
deriving DecidableEq, Repr

namespace Event

/-- How serious the event is. -/
def level : Event → Level
  | noRoom .. => .error
  | skipped .. => .warn
  | listedUnresolved .. => .warn
  | neverPatched .. => .warn
  | _ => .debug

/-- The wording of an event. -/
def message : Event → String
  | opened limit => "New codegen session (max_quads=" ++ toString limit ++ ")"
  | wasReset discarded =>
    "Resetting codegen session (" ++ toString discarded ++ " quads discarded)"
  | namedTemporary name => "Allocated temporary " ++ name
  | namedLabel name => "Allocated label " ++ name
  | emitted index quad => "emit " ++ Text.padded ' ' 4 index ++ ": " ++ quad.text
  | noRoom held requested limit =>
    "Instruction limit exceeded: " ++ toString held ++ " quads emitted, " ++ toString requested
      ++ " more requested, limit " ++ toString limit
  | skipped index held target =>
    "backpatch: skipping index " ++ toString index ++ " outside emitted range 1..="
      ++ toString held ++ " (target " ++ toString target ++ ")"
  | retargeted index previous target =>
    "backpatch: index " ++ toString index ++ " already targeted " ++ toString previous
      ++ ", re-targeting to " ++ toString target
  | patched index target => "backpatch " ++ Text.padded ' ' 4 index ++ " -> " ++ toString target
  | nothingToUnroll start stop times =>
    "clone_range [" ++ toString start ++ ", " ++ toString stop ++ ") x" ++ toString times
      ++ ": nothing to unroll"
  | copied start stop repetition times first offset =>
    "clone_range [" ++ toString start ++ ", " ++ toString stop ++ ") repetition "
      ++ toString repetition ++ "/" ++ toString times ++ " at " ++ toString first
      ++ " (offset " ++ toString offset ++ ")"
  | listedUnresolved indices =>
    "Rendering " ++ toString indices.length ++ " unresolved jump(s) at " ++ Text.bracketed indices
  | loadedSettings limit => "Loaded codegen config: max_quads=" ++ toString limit
  | replayed line command arguments =>
    "script line " ++ toString line ++ ": " ++ command ++ " " ++ arguments
  | neverPatched name indices =>
    "Pending list '" ++ name ++ "' never patched: " ++ Text.bracketed indices

end Event

end ThreeAddress
