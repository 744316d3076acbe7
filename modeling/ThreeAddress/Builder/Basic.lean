import ThreeAddress.Outcome

/-!
# The builder

A builder holds the instructions of one compilation unit, numbered from one, and hands out names for
temporaries and labels. It never holds more instructions than its limit: an instruction that does
not fit is refused (`Builder.emit`).
-/

namespace ThreeAddress

/-- The state of one compilation unit. -/
structure Builder where
  /-- How many instructions the buffer may hold. -/
  limit : Nat
  /-- The instructions; the one with index `n` is at position `n - 1`. -/
  code : Array Quad
  /-- How many names of temporaries were handed out. -/
  temporaries : Nat
  /-- How many names of labels were handed out. -/
  labels : Nat
deriving DecidableEq, Repr

namespace Builder

/-- An empty builder for at most `limit` instructions. -/
def empty (limit : Nat) : Builder := ⟨limit, #[], 0, 0⟩

/-- Starts a compilation unit. -/
def new (limit : Nat) : Logged Builder := ⟨empty limit, [.opened limit]⟩

/-- How many instructions there are. -/
def length (b : Builder) : Nat := b.code.size

/-- Whether there is no instruction yet. -/
def isEmpty (b : Builder) : Bool := b.code.isEmpty

/-- The index that the next instruction will have. -/
def next (b : Builder) : Nat := b.length + 1

/-- The instruction with an index. -/
def quad? (b : Builder) (index : Nat) : Option Quad :=
  if index = 0 then none else b.code[index - 1]?

/-- All instructions, in order. -/
def quads (b : Builder) : List Quad := b.code.toList

/-- All instructions with their indices. -/
def numbered (b : Builder) : List (Nat × Quad) := (b.quads.zipIdx 1).map fun p => (p.2, p.1)

/-- The indices of the jumps that still wait for a target. -/
def unresolved (b : Builder) : List Nat :=
  (b.numbered.filter fun p => p.2.isUnresolved).map Prod.fst

/-- Whether `count` more instructions fit. -/
def hasRoom (b : Builder) (count : Nat) : Bool := decide (b.length + count ≤ b.limit)

/-- The builder with more instructions at its end. -/
def append (b : Builder) (quads : List Quad) : Builder := { b with code := b.code ++ quads }

/-- The refusal of `count` more instructions. -/
def refuse {α : Type} (b : Builder) (count : Nat) : Outcome Builder α :=
  .fail (.capacityExceeded b.limit) b [.noRoom b.length count b.limit]

/-- Puts an instruction at the end and returns its index, if there is room. -/
def emit (b : Builder) (q : Quad) : Outcome Builder Nat :=
  if b.hasRoom 1 then .ok b.next (b.append [q]) [.emitted b.next q] else b.refuse 1

/-- A name made of a stem and a number of at least two digits. -/
def numberedName (stem : String) (n : Nat) : String := stem ++ Text.padded '0' 2 n

/-- A **name for a temporary** that was not handed out since the last reset. -/
def freshTemporary (b : Builder) : Logged (String × Builder) :=
  let name := numberedName "$t" (b.temporaries + 1)
  ⟨(name, { b with temporaries := b.temporaries + 1 }), [.namedTemporary name]⟩

/-- A **name for a label** that was not handed out since the last reset. -/
def freshLabel (b : Builder) : Logged (String × Builder) :=
  let name := numberedName "L" (b.labels + 1)
  ⟨(name, { b with labels := b.labels + 1 }), [.namedLabel name]⟩

/-- Starts the next compilation unit: only the limit stays. -/
def reset (b : Builder) : Logged Builder := ⟨empty b.limit, [.wasReset b.length]⟩

@[simp] theorem length_quads (b : Builder) : b.quads.length = b.length := rfl

@[simp] theorem quads_append (b : Builder) (quads : List Quad) :
    (b.append quads).quads = b.quads ++ quads := by
  simp [append, Builder.quads]

@[simp] theorem limit_append (b : Builder) (quads : List Quad) :
    (b.append quads).limit = b.limit := rfl

@[simp] theorem length_append (b : Builder) (quads : List Quad) :
    (b.append quads).length = b.length + quads.length := by
  rw [← length_quads, quads_append, List.length_append, length_quads]

end Builder

end ThreeAddress
