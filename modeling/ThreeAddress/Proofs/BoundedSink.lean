import ThreeAddress.Proofs.Actions

/-!
# Listings in a bounded sink

A sink takes bytes up to its room, and the first byte too many ends the writing. In whatever pieces a text
is offered, the sink sees the bytes of the text, one after the other.

* `Text.bytes_eq`, `Text.bytes_join`: the bytes of a text are its encoding in UTF-8, piece by piece.
* `Sink.offer_append`, `Sink.offerAll_eq`: **offering pieces is offering all their bytes at once**, also if
  the room ends inside a piece.
* `writeTo_bounded`: what a sink takes of a listing, for every listing and every room.
-/

namespace ThreeAddress

namespace Text

theorem bytes_eq (text : String) : bytes text = text.toUTF8.data.toList := by
  have henc : text.toUTF8 = text.toList.utf8Encode := by
    rw [← String.toByteArray_ofList, String.ofList_toList]; rfl
  rw [henc]
  unfold bytes List.utf8Encode
  rw [List.data_toByteArray]

theorem bytes_join (texts : List String) : bytes (String.join texts) = texts.flatMap bytes := by
  unfold bytes
  rw [String.toList_join, List.flatMap_assoc]

end Text

namespace Sink

theorem result_offer (sink : Sink) (bytes : List UInt8) :
    (sink.offer bytes).result =
      if bytes.length ≤ sink.room then .ok () else .error (.io "sink full") := by
  unfold offer
  split
  · rfl
  · rfl

theorem log_offer (sink : Sink) (bytes : List UInt8) : (sink.offer bytes).log = [] := by
  unfold offer
  split
  · rfl
  · rfl

/-- The sink takes what fits. -/
theorem state_offer (sink : Sink) (bytes : List UInt8) :
    (sink.offer bytes).state =
      ⟨sink.room - bytes.length, sink.taken ++ bytes.take sink.room⟩ := by
  unfold offer
  split
  · rename_i hfits
    rw [Outcome.state_ok, List.take_of_length_le hfits]
  · rename_i hfull
    have hroom : sink.room - bytes.length = 0 := by omega
    rw [Outcome.state_fail, hroom]

/-- **Two pieces are as good as one.** The second is left out if the first does not fit. -/
theorem offer_append (sink : Sink) (xs ys : List UInt8) :
    ((sink.offer xs).andThen fun _ sink => sink.offer ys) = sink.offer (xs ++ ys) := by
  have hlength : (xs ++ ys).length = xs.length + ys.length := List.length_append
  by_cases hfirst : xs.length ≤ sink.room
  · have hoffer : sink.offer xs = .ok () ⟨sink.room - xs.length, sink.taken ++ xs⟩ [] := if_pos hfirst
    have htake : (xs ++ ys).take sink.room = xs ++ ys.take (sink.room - xs.length) := by
      rw [List.take_append, List.take_of_length_le hfirst]
    rw [hoffer, Outcome.ok_andThen]
    unfold offer
    rw [hlength, htake]
    by_cases hsecond : ys.length ≤ sink.room - xs.length
    · rw [if_pos hsecond, if_pos (by omega), Nat.sub_sub, List.append_assoc]; rfl
    · rw [if_neg hsecond, if_neg (by omega), List.append_assoc]; rfl
  · -- nothing of the second piece would fit either
    have hoffer : sink.offer xs = .fail (.io "sink full") ⟨0, sink.taken ++ xs.take sink.room⟩ [] :=
      if_neg hfirst
    have htake : (xs ++ ys).take sink.room = xs.take sink.room := by
      rw [List.take_append_of_le_length (by omega)]
    rw [hoffer, Outcome.fail_andThen]
    unfold offer
    rw [hlength, htake, if_neg (by omega)]

/-- **Offering texts is offering all their bytes.** -/
theorem offerAll_eq (texts : List String) : ∀ sink : Sink,
    sink.offerAll texts = sink.offer (texts.flatMap Text.bytes) := by
  induction texts with
  | nil =>
    intro sink
    have hoffer : sink.offer [] = .ok () ⟨sink.room, sink.taken ++ []⟩ [] := if_pos (Nat.zero_le _)
    rw [List.flatMap_nil, hoffer, List.append_nil]; rfl
  | cons text texts ih =>
    intro sink
    rw [offerAll, List.flatMap_cons, ← offer_append]
    simp only [ih]

end Sink

namespace Builder

/-- Writing a listing is offering its bytes. -/
theorem writeTo_eq (b : Builder) (sink : Sink) :
    b.writeTo sink = (sink.offer (Text.bytes b.listing)).after b.listingEvents := by
  unfold writeTo listing
  rw [Sink.offerAll_eq, Text.bytes_join]

/-- **A listing in a bounded sink.** Let a listing be written to a sink with any room. The sink takes the
bytes of the listing in UTF-8 from the first on, as many as there are and fit, wherever in the text that
ends. The writing succeeds exactly if all of them fit. The journal is that of the listing in memory, and the
builder stays as it is. The same comes to the sink if the listing is offered in any other pieces. -/
theorem writeTo_bounded (b : Builder) (sink : Sink) :
    let encoding := b.render.value.toUTF8.data.toList
    let written := b.writeTo sink
    written.state.taken = sink.taken ++ encoding.take (min sink.room encoding.length) ∧
    written.state.room = sink.room - encoding.length ∧
    (written.result = .ok () ↔ encoding.length ≤ sink.room) ∧
    (sink.room < encoding.length → written.result = .error (.io "sink full")) ∧
    written.log = b.render.log ∧ (∀ room, (b.perform (.write room)).state = b) ∧
    ∀ pieces : List String, String.join pieces = b.render.value →
      (sink.offerAll pieces).result = written.result ∧
      (sink.offerAll pieces).state = written.state := by
  intro encoding written
  have hbytes : Text.bytes b.listing = encoding := Text.bytes_eq b.listing
  have hwritten : written = (sink.offer encoding).after b.listingEvents := by
    rw [← hbytes]; exact writeTo_eq b sink
  have hstate : written.state =
      ⟨sink.room - encoding.length, sink.taken ++ encoding.take sink.room⟩ := by
    rw [hwritten, Outcome.state_after, Sink.state_offer]
  have hresult : written.result =
      if encoding.length ≤ sink.room then .ok () else .error (.io "sink full") := by
    rw [hwritten, Outcome.result_after, Sink.result_offer]
  have hlog : written.log = b.listingEvents := by
    rw [hwritten, Outcome.after, Sink.log_offer, List.append_nil]
  refine ⟨?_, ?_, ?_, ?_, hlog, fun _ => rfl, ?_⟩
  · rw [hstate, ← List.take_eq_take_min]
  · rw [hstate]
  · rw [hresult]
    constructor
    · intro hok
      by_contra hfull
      rw [if_neg hfull] at hok; cases hok
    · intro hfits
      exact if_pos hfits
  · intro hfull
    rw [hresult, if_neg (by omega)]
  · intro pieces hpieces
    have hlisting : String.join pieces = b.listing := hpieces
    rw [Sink.offerAll_eq, ← Text.bytes_join, hlisting, hbytes, hwritten]
    exact ⟨rfl, rfl⟩

/-- The room ends after the first of the two bytes of a letter. -/
example : let written := ((empty 5).append [.assign "é" "1"]).writeTo (.ofRoom 4)
    written.state.taken = [0x31, 0x3a, 0x20, 0xc3] ∧ written.result = .error (.io "sink full") := by
  decide +kernel

end Builder

end ThreeAddress
