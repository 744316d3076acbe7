import ThreeAddress.Settings.Reader

/-!
# Documents

A document is a tree of tables. A table comes to be by its own header, by the header of a table
inside it, by a dotted key, or inline as a value, and that decides what may still be added to it
(`Origin`). Sections are added one after the other (`addSection`); a section that contradicts what
is there makes the text no document at all.
-/

namespace ThreeAddress.Settings

/-- A key, with the part of the text that it stands in. -/
structure Key where
  name : String
  span : Span
deriving DecidableEq, Repr

/-- A dotted key: the keys of the tables on the way, and the last key. -/
structure Path where
  parents : List Key
  last : Key
deriving DecidableEq, Repr

/-- How a table came to be. -/
inductive Origin where
  /-- By its own header; the whole document counts as such a table. -/
  | header
  /-- By the header of a table inside it. -/
  | implied
  /-- By a dotted key. -/
  | dotted
  /-- As a value; such a table is complete. -/
  | inline
deriving DecidableEq, Repr

/-- What a key stands for. An entry is a key, the part of the text that defines its value, and the
value. -/
inductive Node where
  | integer (value : Int)
  | float (value : Float)
  | boolean (value : Bool)
  | string (value : String)
  | moment
  | array (items : List Node)
  | table (origin : Origin) (entries : List (Key × Span × Node))
  /-- An array of tables, each with a header of its own. -/
  | tables (elements : List (List (Key × Span × Node)))

/-- The entries of a table, in the order in which they were defined. -/
abbrev Entries := List (Key × Span × Node)

namespace Entries

/-- The entry with a name. -/
def find? (entries : Entries) (name : String) : Option (Key × Span × Node) :=
  List.find? (fun e => e.1.name == name) entries

/-- The entries without the one with the name. -/
def erase (entries : Entries) (name : String) : Entries :=
  List.filter (fun e => e.1.name != name) entries

/-- The entries with another value under a name. -/
def replace (entries : Entries) (name : String) (span : Span) (node : Node) : Entries :=
  List.map (fun e => if e.1.name == name then (e.1, span, node) else e) entries

/-- Whether a path may go on through a table: not through an inline one, and a dotted key only
through tables that no header has defined. -/
def passable (viaHeader : Bool) : Origin → Bool
  | .header => viaHeader
  | .implied => true
  | .dotted => true
  | .inline => false

/-- Changes the table that a path leads to. Tables that are missing on the way come to be; an array
of tables is entered at its last element. -/
def alter (viaHeader : Bool) (change : Origin → Entries → Option Entries) :
    List Key → Origin → Entries → Option Entries
  | [], origin, entries => change origin entries
  | key :: path, _, entries =>
    let fresh := if viaHeader then Origin.implied else Origin.dotted
    match entries.find? key.name with
    | none =>
      (alter viaHeader change path fresh []).map fun inner =>
        entries ++ [(key, key.span, .table fresh inner)]
    | some (_, span, .table origin inner) =>
      if passable viaHeader origin then
        (alter viaHeader change path origin inner).map fun inner =>
          entries.replace key.name span (.table origin inner)
      else none
    | some (_, span, .tables elements) =>
      (alter viaHeader change path .header (elements.getLast?.getD [])).map fun inner =>
        entries.replace key.name span (.tables (elements.dropLast ++ [inner]))
    | some _ => none

end Entries

/-- A value given to a key. -/
structure Assignment where
  path : Path
  span : Span
  value : Node

/-- Adds an assignment to a table. A key may be given one value only, and a dotted key adds only to
tables made by dotted keys. -/
def assign (origin : Origin) (entries : Entries) (a : Assignment) : Option Entries :=
  let isDotted := !a.path.parents.isEmpty
  Entries.alter false (fun origin inner =>
    if (origin == .dotted) != isDotted then none
    else if (inner.find? a.path.last.name).isSome then none
    else some (inner ++ [(a.path.last, a.span, a.value)])) a.path.parents origin entries

/-- The entries that assignments make, added to those given. -/
def assignAll (origin : Origin) (entries : Entries) (as : List Assignment) : Option Entries :=
  as.foldlM (assign origin) entries

/-- The header of a section. -/
inductive Header where
  /-- Written `[path]`: defines a table. -/
  | table (path : Path)
  /-- Written `[[path]]`: adds an element to an array of tables. -/
  | element (path : Path)
deriving DecidableEq, Repr

/-- A header with the assignments under it. -/
structure Section where
  header : Header
  span : Span
  assignments : List Assignment

/-- The part of the text that defines the table of a section: from the header to the last value. -/
def Section.extent (s : Section) : Span :=
  ⟨s.span.start, (s.assignments.getLast?.map fun a => a.span.stop).getD s.span.stop⟩

/-- Defines a table under a key. A table that was only implied keeps its entries, and stands from
now on where its header stands. -/
def defineTable (key : Key) (s : Section) (entries : Entries) : Option Entries :=
  let finish (inner : Entries) : Option Entries :=
    (assignAll .header inner s.assignments).map fun inner =>
      entries.erase key.name ++ [(key, s.extent, .table .header inner)]
  match entries.find? key.name with
  | none => finish []
  | some (_, _, .table .implied inner) => finish inner
  | some _ => none

/-- Adds an element to the array of tables under a key. -/
def addElement (key : Key) (s : Section) (entries : Entries) : Option Entries :=
  match entries.find? key.name with
  | none =>
    (assignAll .header [] s.assignments).map fun inner =>
      entries ++ [(key, s.extent, .tables [inner])]
  | some (_, span, .tables elements) =>
    (assignAll .header [] s.assignments).map fun inner =>
      entries.replace key.name ⟨span.start, s.extent.stop⟩ (.tables (elements ++ [inner]))
  | some _ => none

/-- Adds a section to a document. -/
def addSection (document : Entries) (s : Section) : Option Entries :=
  match s.header with
  | .table path =>
    Entries.alter true (fun _ => defineTable path.last s) path.parents .header document
  | .element path =>
    Entries.alter true (fun _ => addElement path.last s) path.parents .header document

/-- The **document** that is made of assignments and of sections after them. -/
def document? (top : List Assignment) (sections : List Section) : Option Entries := do
  sections.foldlM addSection (← assignAll .header [] top)

end ThreeAddress.Settings
