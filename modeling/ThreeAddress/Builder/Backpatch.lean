import ThreeAddress.Builder.Basic
import ThreeAddress.PendingList

/-!
# Backpatching

Once the common target of a pending list is known, every instruction of the list is given it
(`Builder.backpatch`). An index that names no instruction is passed over.
-/

namespace ThreeAddress.Builder

/-- The event of replacing a target by a different one, if that is what happens. -/
def retargeting (index : Nat) (dest : Destination) (target : Nat) : List Event :=
  match dest with
  | .target previous => if previous = target then [] else [.retargeted index previous target]
  | _ => []

/-- Gives one instruction its target. -/
def patch (b : Builder) (index target : Nat) : Logged Builder :=
  match b.quad? index with
  | none => ⟨b, [.skipped index b.length target]⟩
  | some q =>
    ⟨{ b with code := b.code.setIfInBounds (index - 1) (q.retarget target) },
      retargeting index q.dest target ++ [.patched index target]⟩

/-- Gives all instructions of a pending list their target, in the order of the list. -/
def backpatch (b : Builder) (list : PendingList) (target : Nat) : Logged Builder :=
  list.indices.foldlM (fun b index => b.patch index target) b

end ThreeAddress.Builder
