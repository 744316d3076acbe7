import ThreeAddress.Proofs.Actions
import ThreeAddress.Proofs.Decoding
import ThreeAddress.Proofs.Sequencing

/-!
# One instruction per line

A listing can be read back line by line only if no text of an instruction has a line feed in it. Whoever
builds instructions directly may put one there. A script cannot: its lines end at line feeds, and all
that it puts into an instruction is cut out of a line (`Command.Writable`).

* `Text.Unbroken`, `Quad.Unbroken`, `Builder.Unbroken`: no line feed in a text, in any text of an
  instruction, in any text of the buffer.
* `Quad.Unbroken.text`: every layout keeps an instruction on one line.
* `Builder.Unbroken.perform`, `Replay.unbroken_step`, `Replay.unbroken_follow`: actions, lines and
  scripts keep the buffer unbroken.
* `splitOn_listing`: the lines of a listing.
* `one_instruction_per_line`: **what a script builds is listed one instruction a line.**
-/

namespace ThreeAddress

namespace Text

variable {cs : List Char}

/-- A text without a line feed. -/
def Unbroken (text : String) : Prop := '\n' ∉ text.toList

instance (text : String) : Decidable (Unbroken text) := inferInstanceAs (Decidable (¬ _))

@[simp] theorem unbroken_append {s t : String} : Unbroken (s ++ t) ↔ Unbroken s ∧ Unbroken t := by
  simp [Unbroken]

theorem unbroken_numeral (n : ℕ) : Unbroken (toString n) := by
  unfold Unbroken
  rw [Nat.toString_eq_ofList_toDigits, String.toList_ofList]
  intro h
  exact absurd (isDigit_of_mem_toDigits h) (by decide)

/-- A character of a joined text comes from one of its parts or from the separator. -/
theorem mem_of_mem_intercalate {c : Char} {sep : List Char} {parts : List (List Char)}
    (h : c ∈ sep.intercalate parts) : c ∈ sep ∨ ∃ part ∈ parts, c ∈ part := by
  induction parts with
  | nil => simp at h
  | cons part parts ih =>
    cases parts with
    | nil => exact Or.inr ⟨part, List.mem_cons_self, by simpa using h⟩
    | cons part' parts =>
      rw [List.intercalate_cons_cons, List.mem_append, List.mem_append] at h
      rcases h with (h | h) | h
      · exact Or.inr ⟨part, List.mem_cons_self, h⟩
      · exact Or.inl h
      · rcases ih h with h | ⟨p, hp, h⟩
        · exact Or.inl h
        · exact Or.inr ⟨p, List.mem_cons_of_mem _ hp, h⟩

theorem unbroken_intercalate {texts : List String} (h : ∀ text ∈ texts, Unbroken text) :
    Unbroken (String.intercalate " " texts) := by
  unfold Unbroken
  rw [String.toList_intercalate]
  intro hmem
  rcases mem_of_mem_intercalate hmem with hsep | ⟨part, hpart, hc⟩
  · exact absurd hsep (by decide)
  · obtain ⟨text, htext, rfl⟩ := List.mem_map.1 hpart
    exact h text htext hc

theorem not_mem_of_mem_lines {l : List Char} (h : l ∈ lines cs) : '\n' ∉ l := by
  induction cs using line_induction with
  | nil => cases h
  | last l' hl' hne =>
    rw [lines_of_not_mem hl' hne, List.mem_singleton] at h
    rw [h]; exact hl'
  | feed l' rest hl' ih =>
    rw [lines_feed hl'] at h
    rcases List.mem_cons.1 h with rfl | h
    · unfold dropReturn
      split
      · exact fun hmem => hl' (List.mem_of_mem_dropLast hmem)
      · exact hl'
    · exact ih h

/-- **Lines that line feeds close** are found again, with nothing behind the last. -/
theorem splitOn_closed {ls : List (List Char)} (h : ∀ l ∈ ls, '\n' ∉ l) :
    (ls.flatMap (· ++ ['\n'])).splitOn '\n' = ls ++ [[]] := by
  induction ls with
  | nil => rfl
  | cons l ls ih =>
    have hl := h l List.mem_cons_self
    have hrest := ih fun l' hl' => h l' (List.mem_cons_of_mem _ hl')
    rw [List.flatMap_cons, List.append_assoc, List.singleton_append,
      List.splitOn_append_cons_self_of_not_mem hl, hrest, List.cons_append]

end Text

/-! ## Instructions without line feeds -/

open Text

/-- An instruction that has **no line feed** in its mnemonic, of which the relation of a branch is a part,
in its operands, or in the text of its destination. -/
structure Quad.Unbroken (q : Quad) : Prop where
  op : Text.Unbroken q.op.mnemonic
  arg1 : ∀ text ∈ q.arg1, Text.Unbroken text
  arg2 : ∀ text ∈ q.arg2, Text.Unbroken text
  dest : Text.Unbroken q.dest.text

namespace Quad

variable {q : Quad}

theorem unbroken_ofMnemonic {mnemonic : String} (h : Text.Unbroken mnemonic) :
    Text.Unbroken (Operation.ofMnemonic mnemonic).mnemonic := by
  unfold Operation.ofMnemonic
  split
  · rename_i relation heq
    -- the relation is a part of the mnemonic
    have hrelation : '\n' ∉ trimStart relation := by
      intro hmem
      have hin : '\n' ∈ relation := (List.dropWhile_sublist _).subset hmem
      apply h
      rw [heq]
      exact List.mem_cons_of_mem _ (List.mem_cons_of_mem _ hin)
    show Text.Unbroken ("IF " ++ String.ofList (trimStart relation))
    rw [unbroken_append]
    exact ⟨by decide, by unfold Text.Unbroken; rwa [String.toList_ofList]⟩
  · -- any other operation is written as it was read
    split_ifs <;> subst_vars <;> exact h

theorem unbroken_destination {op : Operation} {dest : Option String} (h : ∀ text ∈ dest, Text.Unbroken text) :
    Text.Unbroken (Destination.ofText op dest).text := by
  unfold Destination.ofText
  split
  · show Text.Unbroken "???"; decide
  · split
    · exact unbroken_numeral _
    · exact h _ rfl
  · show Text.Unbroken ""; decide
  · exact h _ rfl

theorem unbroken_ofText {mnemonic : String} {arg1 arg2 dest : Option String}
    (hop : Text.Unbroken mnemonic) (h1 : ∀ text ∈ arg1, Text.Unbroken text)
    (h2 : ∀ text ∈ arg2, Text.Unbroken text) (hdest : ∀ text ∈ dest, Text.Unbroken text) :
    (Quad.ofText mnemonic arg1 arg2 dest).Unbroken :=
  ⟨unbroken_ofMnemonic hop, h1, h2, unbroken_destination hdest⟩

theorem Unbroken.retarget (h : q.Unbroken) (target : ℕ) : (q.retarget target).Unbroken :=
  ⟨h.op, h.arg1, h.arg2, unbroken_numeral target⟩

theorem unbroken_fieldwise {mnemonic : String} {arg1 arg2 : Option String} {dest : Destination}
    (hop : Text.Unbroken mnemonic) (h1 : ∀ text ∈ arg1, Text.Unbroken text)
    (h2 : ∀ text ∈ arg2, Text.Unbroken text) (hdest : Text.Unbroken dest.text) :
    Text.Unbroken (fieldwise mnemonic arg1 arg2 dest) := by
  apply unbroken_intercalate
  intro text ht
  rcases List.mem_cons.1 ht with rfl | ht
  · exact hop
  · rw [List.mem_append, List.mem_append, Option.mem_toList, Option.mem_toList] at ht
    rcases ht with (ht | ht) | ht
    · exact h1 text ht
    · exact h2 text ht
    · split at ht
      · rw [List.mem_singleton.1 ht]; exact hdest
      · cases ht

/-- **Every layout keeps an instruction on one line.** -/
theorem Unbroken.text (h : q.Unbroken) : Text.Unbroken q.text := by
  obtain ⟨op, arg1, arg2, dest⟩ := q
  obtain ⟨hop, h1, h2, hdest⟩ := h
  simp only at hop h1 h2 hdest
  have habsent : ∀ {arg : Option String}, (∀ text ∈ arg, Text.Unbroken text) →
      Text.Unbroken (arg.getD "") := by
    intro arg harg
    cases arg with
    | none => decide
    | some text => exact harg text rfl
  have ha := habsent h1
  have hb := habsent h2
  cases op with
  | branch relation =>
    have hrelation : Text.Unbroken relation := (unbroken_append.1 hop).2
    simp +decide [Quad.text, ha, hb, hdest, hrelation]
  | other mnemonic =>
    have hmnemonic : Text.Unbroken mnemonic := hop
    unfold Quad.text
    simp only
    split
    · simp +decide [h1 _ rfl, h2 _ rfl, hdest, hmnemonic]
    · simp +decide [h1 _ rfl, hdest, hmnemonic]
    · exact unbroken_fieldwise hmnemonic h1 h2 hdest
  | _ => simp +decide [Quad.text, ha, hb, hdest]

end Quad

/-! ## Buffers without line feeds -/

namespace Builder

variable {b : Builder} {a : Action}

/-- No instruction of the buffer has a line feed in it. -/
def Unbroken (b : Builder) : Prop := ∀ i q, b.quad? i = some q → q.Unbroken

theorem unbroken_of_length_zero (h : b.length = 0) : b.Unbroken :=
  fun _ _ hq => absurd hq (quad?_ne_some h)

/-- **An action keeps the buffer unbroken**, unless it emits a line feed. -/
theorem Unbroken.perform (h : b.Unbroken) (ha : ∀ q, a.emitted? = some q → q.Unbroken) :
    (b.perform a).state.Unbroken :=
  forall_perform (fun _ t hq => hq.retarget t) h ha

end Builder

namespace Script.Replay

variable {r : Replay}

theorem unbroken_step (h : r.builder.Unbroken) {text : List Char} (ht : '\n' ∉ text) :
    (r.step text).state.builder.Unbroken := by
  rw [builder_step]
  cases ha : r.lineAction? text with
  | none => exact h
  | some a =>
    show (r.builder.perform a).state.Unbroken
    apply h.perform
    intro q hq
    obtain ⟨c, hc, haction⟩ := Option.bind_eq_some_iff.1 ha
    obtain ⟨mnemonic, arg1, arg2, dest, list, rfl, rfl⟩ := emission_of_action? haction hq
    -- what is read from a line can be written on one
    obtain ⟨hop, h1, h2, h3, -⟩ := writable_of_decode ht (ofLine?_eq_some_iff.1 hc)
    exact Quad.unbroken_ofText hop.feed (fun t ht => (h1 t ht).1.feed) (fun t ht => (h2 t ht).1.feed)
      fun t ht => (h3 t ht).1.feed

theorem unbroken_follow (texts : List (List Char)) :
    ∀ {r : Replay}, r.builder.Unbroken → (∀ text ∈ texts, '\n' ∉ text) →
      (r.follow texts).builder.Unbroken := by
  induction texts with
  | nil => intro r h _; exact h
  | cons text texts ih =>
    intro r h ht
    exact ih (unbroken_step h (ht text List.mem_cons_self))
      fun text' ht' => ht text' (List.mem_cons_of_mem _ ht')

theorem mem_of_mem_executed {text : List Char} (texts : List (List Char)) :
    ∀ {r : Replay}, text ∈ r.executed texts → text ∈ texts := by
  induction texts with
  | nil => intro r h; exact h
  | cons first texts ih =>
    intro r h
    unfold executed at h
    split at h
    · rcases List.mem_cons.1 h with rfl | h
      · exact List.mem_cons_self
      · exact List.mem_cons_of_mem _ (ih h)
    · rw [List.mem_singleton.1 h]; exact List.mem_cons_self

theorem unbroken_run (h : r.builder.Unbroken) (source : String) :
    (r.run source).state.builder.Unbroken := by
  rw [run_state]
  apply unbroken_follow _ h
  intro text ht
  exact not_mem_of_mem_lines (mem_of_mem_executed _ ht)

end Script.Replay

/-! ## The lines of a listing -/

namespace Builder

variable {b : Builder}

theorem getElem?_numbered (b : Builder) (j : ℕ) :
    b.numbered[j]? = (b.quad? (j + 1)).map fun q => (j + 1, q) := by
  unfold numbered
  rw [List.getElem?_map, List.getElem?_zipIdx, quad?_eq (by omega), Nat.add_sub_cancel, Option.map_map,
    Nat.add_comm 1 j]
  rfl

theorem length_numbered (b : Builder) : b.numbered.length = b.length := by
  unfold numbered
  rw [List.length_map, List.length_zipIdx, length_quads]

theorem value_render (b : Builder) : b.render.value = b.listing := rfl

theorem listing_toList (b : Builder) : b.listing.toList =
    (b.numbered.map fun p => (toString p.1 ++ ": " ++ p.2.text).toList).flatMap (· ++ ['\n']) := by
  have hline : ∀ p : ℕ × Quad, (line p.1 p.2).toList =
      (toString p.1 ++ ": " ++ p.2.text).toList ++ ['\n'] := by
    intro p
    unfold line
    rw [String.toList_append]; rfl
  unfold listing
  rw [String.toList_join, List.flatMap_map, List.flatMap_map]
  simp only [hline]

/-- **The lines of a listing**, if nothing in the buffer breaks a line. -/
theorem splitOn_listing (h : b.Unbroken) : b.listing.toList.splitOn '\n' =
    (b.numbered.map fun p => (toString p.1 ++ ": " ++ p.2.text).toList) ++ [[]] := by
  rw [listing_toList]
  apply splitOn_closed
  intro l hl
  obtain ⟨p, hp, rfl⟩ := List.mem_map.1 hl
  obtain ⟨j, hj⟩ := List.mem_iff_getElem?.1 hp
  rw [getElem?_numbered] at hj
  obtain ⟨q, hq, rfl⟩ := Option.map_eq_some_iff.1 hj
  have htext := (h _ q hq).text
  have hline : Text.Unbroken (toString (j + 1) ++ ": " ++ q.text) := by
    rw [unbroken_append, unbroken_append]
    exact ⟨⟨unbroken_numeral _, by decide⟩, htext⟩
  exact hline

end Builder

namespace Script

/-- **One instruction per line.** Let a script be run on an empty buffer, whether it succeeds or not.
Then no text in the buffer has a line feed in it. The listing, cut at its line feeds, has one line for
each instruction and nothing behind the last. Line `i` holds the number `i`, a colon, a space and the
text of instruction `i`. -/
theorem one_instruction_per_line (b : Builder) (hb : b.length = 0) (source : String) :
    let after := (replay b source).state
    let pieces := after.render.value.toList.splitOn '\n'
    (∀ i q, after.quad? i = some q → q.Unbroken) ∧
    pieces.length = after.length + 1 ∧ pieces[after.length]? = some [] ∧
    ∀ i, 1 ≤ i → i ≤ after.length → ∃ q, after.quad? i = some q ∧
      pieces[i - 1]? = some (toString i ++ ": " ++ q.text).toList := by
  intro after pieces
  have hafter : after.Unbroken :=
    Replay.unbroken_run (r := .ofBuilder b) (Builder.unbroken_of_length_zero hb) source
  have hpieces : pieces =
      (after.numbered.map fun p => (toString p.1 ++ ": " ++ p.2.text).toList) ++ [[]] := by
    simp only [pieces, Builder.value_render]
    exact Builder.splitOn_listing hafter
  have hlength : (after.numbered.map fun p => (toString p.1 ++ ": " ++ p.2.text).toList).length =
      after.length := by
    rw [List.length_map, Builder.length_numbered]
  refine ⟨hafter, ?_, ?_, ?_⟩
  · rw [hpieces, List.length_append, hlength]; rfl
  · rw [hpieces, List.getElem?_append_right (by omega), hlength, Nat.sub_self]; rfl
  · intro i h1 h2
    obtain ⟨q, hq⟩ := Builder.exists_quad h1 (Nat.lt_succ_of_le h2)
    refine ⟨q, hq, ?_⟩
    rw [hpieces, List.getElem?_append_left (by omega), List.getElem?_map, Builder.getElem?_numbered,
      Nat.sub_add_cancel h1, hq]
    rfl

/-- A script whose third line fails for want of room, with a carriage return and a bare colon in its
operands: the two instructions before it are listed on two lines. -/
theorem one_instruction_per_line_odd_texts :
    let b : Builder := ⟨3, #[], 4, 0⟩
    let source := "emit IF : | a\rb | 5 | -> out\nemit := | 1: | - | y\r\nunroll 1 here 2\nemit HALT"
    let after := (replay b source).state
    let pieces := after.render.value.toList.splitOn '\n'
    (replay b source).result = .error (.capacityExceeded 3) ∧ pieces.length = 3 ∧
    pieces[0]? = some "1: IF a\rb : 5 GOTO ???".toList ∧ pieces[1]? = some "2: y := 1:".toList := by
  intro b source after pieces
  have hquads : after.quads = [⟨.branch ":", some "a\rb", some "5", .unresolved⟩,
      ⟨.assign, some "1:", none, .operand "y"⟩] := by decide +kernel
  have hlength : after.length = 2 := by rw [← Builder.length_quads, hquads]; rfl
  obtain ⟨-, hpieces, -, hlines⟩ := one_instruction_per_line b rfl source
  have hline : ∀ i, 1 ≤ i → i ≤ 2 → ∃ q, after.quads[i - 1]? = some q ∧
      pieces[i - 1]? = some (toString i ++ ": " ++ q.text).toList := by
    intro i h1 h2
    obtain ⟨q, hq, hpiece⟩ := hlines i h1 (h2.trans hlength.ge)
    exact ⟨q, (Builder.quad?_eq h1).symm.trans hq, hpiece⟩
  obtain ⟨q, hq, hfirst⟩ := hline 1 (by decide) (by decide)
  obtain ⟨q', hq', hsecond⟩ := hline 2 (by decide) (by decide)
  rw [hquads] at hq hq'
  obtain rfl := Option.some.inj hq
  obtain rfl := Option.some.inj hq'
  exact ⟨by decide +kernel, hpieces.trans (congrArg (· + 1) hlength), hfirst, hsecond⟩

end Script

end ThreeAddress
