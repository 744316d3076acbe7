import ThreeAddress.PendingList

/-!
# Named lists

The pending lists that a script keeps by name. They are in the order in which they came to be; a
list that is taken out loses its place.
-/

namespace ThreeAddress.Script

/-- Pending lists by name, in the order in which they came to be. -/
structure NamedLists where
  entries : List (String × PendingList)
deriving DecidableEq, Repr

namespace NamedLists

/-- No lists. -/
def empty : NamedLists := ⟨[]⟩

/-- The names in order. -/
def names (ls : NamedLists) : List String := ls.entries.map Prod.fst

/-- The list with a name. -/
def get? (ls : NamedLists) (name : String) : Option PendingList := ls.entries.lookup name

/-- The list with a name, empty if there is none. -/
def getD (ls : NamedLists) (name : String) : PendingList := (ls.get? name).getD .empty

/-- All lists but the one with the name. -/
def erase (ls : NamedLists) (name : String) : NamedLists :=
  ⟨ls.entries.eraseP fun e => e.1 == name⟩

/-- Gives a name a list: in its place if the name has one, else at the end. -/
def insert (ls : NamedLists) (name : String) (list : PendingList) : NamedLists :=
  if (ls.get? name).isSome then
    ⟨ls.entries.map fun e => if e.1 = name then (name, list) else e⟩
  else ⟨ls.entries ++ [(name, list)]⟩

/-- Puts an index on the list with the name; the list comes to be if there is none. -/
def push (ls : NamedLists) (name : String) (index : Nat) : NamedLists :=
  ls.insert name ((ls.getD name).push index)

/-- Merges one list into another. Both are taken out, the source first, and what they held comes
back at the end under the name `into`. -/
def merge (ls : NamedLists) (into source : String) : NamedLists :=
  let others := ls.erase source
  (others.erase into).insert into ((others.getD into).merge (ls.getD source))

end NamedLists

end ThreeAddress.Script
