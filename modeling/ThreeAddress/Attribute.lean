import ThreeAddress.Builder.Backpatch
import ThreeAddress.Builder.Unroll
import ThreeAddress.ValueType

/-!
# Attributes

What a parser keeps for a grammar symbol while it generates code: where the value is, the jumps that
leave the construct, the index of its first instruction, and whether it is a loop to unroll.
-/

namespace ThreeAddress

/-- Whether and how often the loop that starts at `bodyStart` is to be unrolled. -/
structure LoopHint where
  eligible : Bool
  times : Int
  bodyStart : Nat
deriving DecidableEq, Repr

namespace LoopHint

/-- No unrolling. -/
def none : LoopHint := ⟨false, 0, 0⟩

/-- Unrolling of the loop that starts at `bodyStart`. -/
def loop (times : Int) (bodyStart : Nat) : LoopHint := ⟨true, times, bodyStart⟩

/-- Follows the hint for a loop that ends before `bodyEnd`. -/
def apply (hint : LoopHint) (b : Builder) (bodyEnd : Nat) : Outcome Builder Unit :=
  if hint.eligible then b.unroll hint.bodyStart bodyEnd hint.times else .ok () b []

end LoopHint

/-- The ways to leave a construct. -/
inductive Exit where
  /-- A condition holds. -/
  | onTrue
  /-- A condition fails. -/
  | onFalse
  /-- A statement is done. -/
  | onNext
  /-- A loop is left early. -/
  | onBreak
deriving DecidableEq, Repr

/-- The attributes of a grammar symbol. -/
structure Attribute where
  /-- The name of the place that holds the value. -/
  address : String
  type : ValueType
  /-- The offset of an array element. -/
  offset : Option String
  /-- The jumps that leave the construct, by the way they leave it. -/
  exits : Exit → PendingList
  /-- The index of the first instruction of the construct. -/
  label : Nat
  unroll : LoopHint

namespace Attribute

/-- A value at an address, with nothing else known. -/
def ofAddress (address : String) (type : ValueType) : Attribute :=
  ⟨address, type, none, fun _ => .empty, 0, .none⟩

/-- A marker remembers the index that the next instruction will have. -/
def marker (b : Builder) : Attribute := { ofAddress "" .int with label := b.next }

/-- Sets the jumps that leave the construct in one way. -/
def put (a : Attribute) (exit : Exit) (list : PendingList) : Attribute :=
  { a with exits := fun e => if e = exit then list else a.exits e }

/-- Hands over the jumps that leave the construct in one way; the attribute forgets them. -/
def take (a : Attribute) (exit : Exit) : PendingList × Attribute :=
  (a.exits exit, a.put exit .empty)

/-- The opcode of the operation `base` on the value. -/
def opcode (a : Attribute) (base : String) : String := a.type.opcode base

end Attribute

end ThreeAddress
