import ThreeAddress.Settings.Grammar

/-!
# Libraries that read documents

Settings are read by a library. It is given a text and a visitor, and hands the entries of the root
table to the visitor one by one. What the program does is defined for any library; the one that it
comes with reads by the grammar of this project (`Document.library`).
-/

namespace ThreeAddress.Settings

/-- What is made of an entry, given what was made of the entries before it. -/
abbrev Visitor (σ ε : Type) := σ → Key × Span × Node → Except ε σ

/-- A **library** that reads documents: from a visitor, a value to start from and a text it makes what
the visit comes to, or nothing if the text is not a document. -/
structure Library where
  visit {σ ε : Type} : Visitor σ ε → σ → List Char → Option (Except ε σ)

/-- The library that goes through the entries in the order in which the tables were defined, up to
the first that is refused. -/
def Document.library : Library where
  visit visitor start text := (Document.ofText? text).map fun entries => entries.foldlM visitor start

end ThreeAddress.Settings
