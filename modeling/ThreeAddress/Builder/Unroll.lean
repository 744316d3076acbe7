import ThreeAddress.Builder.Basic

/-!
# Unrolling

A loop is unrolled by appending copies of its instructions (`Builder.unroll`). A jump inside the
range goes along with its copy: its target moves by the distance between the copy and the range
(`Quad.relocate`). A jump that leaves the range keeps its target, so all copies share it.
-/

namespace ThreeAddress

/-- A jump to an instruction from `start` up to `stop` goes `offset` instructions further; any other
quad stays as it is. -/
def Quad.relocate (start stop offset : Nat) (q : Quad) : Quad :=
  match q.dest with
  | .target t => if q.isJump ∧ start ≤ t ∧ t < stop then q.retarget (t + offset) else q
  | _ => q

namespace Builder

/-- The instructions with the indices from `start` up to `stop`, the latter not included. -/
def range (b : Builder) (start stop : Nat) : List Quad :=
  (b.code.extract (start - 1) (stop - 1)).toList

/-- Appends copies of the instructions `body`, taken from `start` up to `stop`, until `remaining` of
them are done or there is no room for one. `repetition` is the number of the first copy. -/
def appendCopies (start stop : Nat) (times : Int) (body : List Quad) :
    (remaining repetition : Nat) → Builder → Outcome Builder Unit
  | 0, _, b => .ok () b []
  | remaining + 1, repetition, b =>
    if b.hasRoom body.length then
      let offset := b.next - start
      let copy := body.map (Quad.relocate start stop offset)
      (appendCopies start stop times body remaining (repetition + 1) (b.append copy)).after
        [.copied start stop repetition times b.next offset]
    else b.refuse body.length

/-- Repeats the instructions from `start` up to `stop` at the end of the buffer, `times` times.
Copies that were finished before the buffer was full stay. -/
def unroll (b : Builder) (start stop : Nat) (times : Int) : Outcome Builder Unit :=
  if times ≤ 0 ∨ start = stop then .ok () b [.nothingToUnroll start stop times]
  else if start = 0 ∨ stop < start ∨ b.next < stop then
    .fail (.invalidRange start stop b.next) b []
  else appendCopies start stop times (b.range start stop) times.toNat 1 b

end Builder

end ThreeAddress
