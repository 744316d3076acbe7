import ThreeAddress.Builder.Basic

/-!
# Listings

The listing of a builder has one numbered line for each instruction (`Builder.listing`). It can be
written to a sink that takes only so many bytes (`Builder.writeTo`): what fits is taken, and the
first byte too many ends the writing.
-/

namespace ThreeAddress

namespace Builder

/-- The line of one instruction. -/
def line (index : Nat) (q : Quad) : String := toString index ++ ": " ++ q.text ++ "\n"

/-- The **listing**, one line for each instruction, in order. -/
def listing (b : Builder) : String := String.join (b.numbered.map fun p => line p.1 p.2)

/-- The event of listing jumps that have no target, if there are any. -/
def listingEvents (b : Builder) : List Event :=
  if b.unresolved.isEmpty then [] else [.listedUnresolved b.unresolved]

/-- The listing, with a warning for jumps that have no target. -/
def render (b : Builder) : Logged String := ⟨b.listing, b.listingEvents⟩

end Builder

/-- The bytes of a text in UTF-8. -/
def Text.bytes (text : String) : List UInt8 := text.toList.flatMap String.utf8EncodeChar

/-- Something that takes a limited number of bytes. -/
structure Sink where
  /-- How many more bytes fit. -/
  room : Nat
  /-- The bytes taken so far. -/
  taken : List UInt8

namespace Sink

/-- An empty sink for `room` bytes. -/
def ofRoom (room : Nat) : Sink := ⟨room, []⟩

/-- Offers bytes to the sink. It takes as many as fit and fails if that is not all of them. -/
def offer (sink : Sink) (bytes : List UInt8) : Outcome Sink Unit :=
  if bytes.length ≤ sink.room then
    .ok () ⟨sink.room - bytes.length, sink.taken ++ bytes⟩ []
  else
    .fail (.io "sink full") ⟨0, sink.taken ++ bytes.take sink.room⟩ []

/-- Offers texts to the sink one after the other, up to the first that does not fit. -/
def offerAll (sink : Sink) : List String → Outcome Sink Unit
  | [] => .ok () sink []
  | text :: texts => (sink.offer (Text.bytes text)).andThen fun _ sink => sink.offerAll texts

end Sink

/-- Writes the listing to a sink, line by line. -/
def Builder.writeTo (b : Builder) (sink : Sink) : Outcome Sink Unit :=
  (sink.offerAll (b.numbered.map fun p => Builder.line p.1 p.2)).after b.listingEvents

end ThreeAddress
