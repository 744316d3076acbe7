/-!
# Pending lists

A pending list holds the indices of jumps that wait for a common target. Lists are merged where
branches of control flow join (`PendingList.merge`) and are spent when the target becomes known.
-/

namespace ThreeAddress

/-- Indices of jumps that wait for a common target, oldest first. -/
structure PendingList where
  indices : List Nat
deriving DecidableEq, Repr

namespace PendingList

/-- No jumps. -/
def empty : PendingList := ⟨[]⟩

instance : EmptyCollection PendingList := ⟨empty⟩

/-- One jump. -/
def singleton (index : Nat) : PendingList := ⟨[index]⟩

/-- Whether no jump waits. -/
def isEmpty (l : PendingList) : Bool := l.indices.isEmpty

/-- How many entries there are, repetitions included. -/
def length (l : PendingList) : Nat := l.indices.length

/-- Whether the instruction `index` is in the list. -/
def contains (l : PendingList) (index : Nat) : Bool := l.indices.contains index

/-- The list with more indices at its end. -/
def extend (l : PendingList) (indices : List Nat) : PendingList := ⟨l.indices ++ indices⟩

/-- The list with one more index at its end. -/
def push (l : PendingList) (index : Nat) : PendingList := l.extend [index]

/-- Both lists as one. Merging into an empty list hands the other list on as it is. -/
def merge (a b : PendingList) : PendingList :=
  if a.isEmpty then b else a.extend b.indices

@[simp] theorem indices_empty : empty.indices = [] := rfl

@[simp] theorem indices_extend (l : PendingList) (indices : List Nat) :
    (l.extend indices).indices = l.indices ++ indices := rfl

@[simp] theorem indices_push (l : PendingList) (index : Nat) :
    (l.push index).indices = l.indices ++ [index] := rfl

/-- Merging puts the second list after the first. -/
@[simp] theorem indices_merge (a b : PendingList) :
    (a.merge b).indices = a.indices ++ b.indices := by
  unfold merge isEmpty
  split
  · simp_all
  · rfl

end PendingList

end ThreeAddress
