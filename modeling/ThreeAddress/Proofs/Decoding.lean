import ThreeAddress.Proofs.Failure
import ThreeAddress.Proofs.Recording

/-!
# The grammar of lines

What a line says can be told from its text alone (`decode`). The state of a replay decides only what a command
does, and which index `here` stands for.

* `Readable`: what a reader of texts promises, for what it accepts and for what it refuses. Each reader has
  its own lemma (`readable_ofFields`, `readable_emitOf`, …), and `readable_ofWords` puts them together:
  **every command that is read can be written**.
* `exists_line_iff`: **the commands that lines can say** are those that can be written, since such a command is
  what its canonical line says (`decode_line`).
* `line_grammar`: what a line does, by what it says, and the canonical line of what it says.
-/

namespace ThreeAddress.Script

open Text

/-! ## What a line does -/

/-- **What carrying out a line does**, by what the line says. A line that says nothing succeeds and changes
nothing. A faulty one is refused with its line number and changes nothing. A command has the effect of the
call that it asks for, and is refused as a line of the script only if it patches a list that is not
there. -/
def Replay.Obeys (r : Replay) (outcome : Outcome Replay Unit) : Decoded → Prop
  | .ignored => outcome.result = .ok () ∧ outcome.state = r
  | .faulty fault =>
    outcome.result = .error (.script fault r.line) ∧ outcome.state = r ∧
      ∀ name, fault ≠ .unknownList name
  | .command c =>
    (outcome.result, outcome.state.workspace) = (c.call r.builder.next).make r.line r.workspace ∧
    outcome.state.line = r.line ∧
    ∀ fault n, outcome.result = .error (.script fault n) →
      ∃ name target, c = .patch name target ∧ r.lists.get? name = none ∧
        fault = .unknownList name ∧ n = r.line

namespace Replay

variable {r : Replay}

/-- The call that a command asks for stands for the same performance. -/
theorem perform_call (r : Replay) (c : Command) :
    r.perform (c.call r.builder.next).command = r.perform c := by
  cases c with
  | patch list target => cases target <;> rfl
  | unroll start stop times => cases stop <;> rfl
  | _ => rfl

/-- **A command that is refused as a line of a script** patches a list that is not there. -/
theorem patch_of_script_error {c : Command} {fault : Fault} {n : ℕ}
    (h : (r.perform c).result = .error (.script fault n)) :
    ∃ name target, c = .patch name target ∧ r.lists.get? name = none ∧
      fault = .unknownList name ∧ n = r.line := by
  cases c with
  | emit mnemonic arg1 arg2 dest list =>
    by_cases hroom : r.builder.length < r.builder.limit
    · rw [perform_emit_of_room hroom] at h; cases h
    · rw [perform_emit_of_full hroom] at h; cases h
  | patch name target =>
    cases hget : r.lists.get? name with
    | none =>
      rw [perform_patch_of_none hget] at h
      obtain ⟨hfault, hn⟩ := Error.script.inj (Except.error.inj h)
      exact ⟨name, target, rfl, hget, hfault.symm, hn.symm⟩
    | some list => rw [perform_patch_of_some hget] at h; cases h
  | unroll start stop times =>
    rcases Builder.unroll_of_error h with ⟨he, -⟩ | ⟨he, -⟩
    · cases he
    · cases he
  | temporary => cases h
  | label => cases h
  | merge into source => cases h
  | reset => cases h

end Replay

/-! ## What is read can be written -/

/-- What a reader promises: of what it accepts, `P`; of what it refuses, that it did so because of the
text. -/
def Readable {α : Type} (P : α → Prop) : Except Fault α → Prop
  | .ok a => P a
  | .error fault => ∀ name, fault ≠ .unknownList name

theorem Readable.map {α β : Type} {P : α → Prop} {Q : β → Prop} {x : Except Fault α} {f : α → β}
    (hx : Readable P x) (hf : ∀ a, P a → Q (f a)) : Readable Q (x.map f) := by
  cases x with
  | error fault => exact hx
  | ok a => exact hf a hx

theorem Readable.bind {α β : Type} {P : α → Prop} {Q : β → Prop} {x : Except Fault α}
    {f : α → Except Fault β} (hx : Readable P x) (hf : ∀ a, P a → Readable Q (f a)) :
    Readable Q (x >>= f) := by
  cases x with
  | error fault => exact hx
  | ok a => exact hf a hx

namespace Command

variable {text arguments : List Char}

theorem isName_of_mem_words {w : List Char} (h : w ∈ words text) : IsName (String.ofList w) := by
  obtain ⟨hne, hblank⟩ := word_of_mem_words h
  exact ⟨by simpa using hne, by simpa using hblank⟩

theorem readable_indexOf (text : List Char) : Readable (· < 2 ^ 64) (indexOf text) := by
  unfold indexOf
  split
  · rename_i n hn
    have hle := le_of_index? hn
    exact Nat.lt_of_le_of_lt hle (by decide)
  · intro name; simp

theorem readable_placeOf (text : List Char) : Readable (fun p => p.resolved 0 < 2 ^ 64) (placeOf text) := by
  unfold placeOf
  split
  · exact Nat.two_pow_pos 64
  · exact (readable_indexOf text).map fun n hn => hn

theorem readable_countOf (text : List Char) :
    Readable (fun k => -2 ^ 63 ≤ k ∧ k < 2 ^ 63) (countOf text) := by
  unfold countOf
  split
  · rename_i k hk
    have hbounds := bounds_of_count? hk
    unfold maxCount at hbounds
    exact ⟨by omega, by omega⟩
  · intro name; simp

theorem readable_listName (text : List Char) : Readable IsName (listName text) := by
  unfold listName
  simp only
  split
  · intro name; simp
  · rename_i h
    simp only [Bool.or_eq_true, not_or, List.isEmpty_iff, List.any_eq_true, not_exists, not_and,
      Bool.not_eq_true] at h
    exact ⟨by simpa using h.1, by simpa using h.2⟩

/-- A text that was cut out between bars, from a text without an arrow. -/
structure IsPiece (piece : List Char) : Prop where
  tight : Tight piece
  bar : '|' ∉ piece
  feed : '\n' ∉ piece
  arrow : ¬ ['-', '>'] <:+: piece

theorem IsPiece.isField {piece : List Char} (h : IsPiece piece) (hne : piece ≠ []) :
    IsField (String.ofList piece) := by
  refine ⟨by simpa using hne, ?_, ?_, ?_, ?_⟩ <;> rw [String.toList_ofList]
  · exact trim_eq_self_iff.2 h.tight
  · exact h.bar
  · exact h.feed
  · exact h.arrow

theorem IsPiece.of_cut {piece : List Char} (hfeed : '\n' ∉ text) (harrow : splitArrow? text = none)
    (hp : piece ∈ (text.splitOn '|').map trim) : IsPiece piece := by
  obtain ⟨part, hpart, rfl⟩ := List.mem_map.1 hp
  have hin : trim part <:+: text := (trim_isInfix part).trans (infix_of_mem_splitOn hpart)
  refine ⟨tight_trim part, ?_, fun h => hfeed (hin.subset h), ?_⟩
  · exact fun h => not_mem_of_mem_splitOn hpart ((trim_isInfix part).subset h)
  · exact fun h => (splitArrow?_eq_none_iff text).1 harrow (h.trans hin)

/-- An operand is a piece that is neither empty nor `-`. -/
theorem isField_of_field? {fields : List (List Char)} (h : ∀ f ∈ fields, IsPiece f) (i : ℕ) :
    ∀ t ∈ fields[i]?.bind field?, IsField t ∧ t ≠ "-" := by
  intro t ht
  obtain ⟨f, hf, hfield⟩ := Option.bind_eq_some_iff.1 ht
  unfold field? at hfield
  split at hfield
  · cases hfield
  · rename_i hne
    obtain rfl := Option.some.inj hfield
    simp only [Bool.or_eq_true, not_or, List.isEmpty_iff, beq_iff_eq] at hne
    refine ⟨(h f (List.mem_of_getElem? hf)).isField hne.1, ?_⟩
    intro heq
    exact hne.2 (by rw [← String.toList_ofList (l := f), heq]; rfl)

theorem readable_ofFields {fields : List (List Char)} {list : Option String}
    (h : ∀ f ∈ fields, IsPiece f) (hlist : ∀ name ∈ list, IsName name) :
    Readable Writable (ofFields fields list) := by
  unfold ofFields
  simp only
  split
  · intro name; simp
  split
  · intro name; simp
  · rename_i hop
    refine ⟨?_, isField_of_field? h 1, isField_of_field? h 2, isField_of_field? h 3, hlist⟩
    cases fields with
    | nil => exact absurd rfl hop
    | cons f fields => exact (h f List.mem_cons_self).isField (by simpa using hop)

/-- **An emission that is read can be written.** What stands before the first arrow has none. -/
theorem readable_emitOf (hfeed : '\n' ∉ arguments) : Readable Writable (emitOf arguments) := by
  unfold emitOf
  simp only
  split
  · rename_i hnone
    exact readable_ofFields (fun f hf => .of_cut hfeed hnone hf) (by simp)
  · rename_i before after hsplit
    obtain ⟨hnone, rfl⟩ := splitArrow?_eq_some_iff.1 hsplit
    have hbefore : '\n' ∉ before := fun h => hfeed (List.mem_append_left _ h)
    have hname := readable_listName after
    split
    · rename_i fault hfault
      rw [hfault] at hname
      exact hname
    · rename_i name hok
      rw [hok] at hname
      refine readable_ofFields (fun f hf => .of_cut hbefore hnone hf) ?_
      intro name' hname'
      rw [← Option.some.inj hname']
      exact hname

theorem readable_mergeOf (arguments : List Char) : Readable Writable (mergeOf arguments) := by
  unfold mergeOf
  split
  · rename_i into source hwords
    exact ⟨isName_of_mem_words (by rw [hwords]; simp), isName_of_mem_words (by rw [hwords]; simp)⟩
  · intro name; simp

theorem readable_patchOf (arguments : List Char) : Readable Writable (patchOf arguments) := by
  unfold patchOf
  split
  · rename_i list target hwords
    have hlist : IsName (String.ofList list) :=
      isName_of_mem_words (show list ∈ words arguments by rw [hwords]; simp)
    exact (readable_placeOf target).map fun place hplace => ⟨hlist, hplace⟩
  · intro name; simp

theorem readable_unrollOf (arguments : List Char) : Readable Writable (unrollOf arguments) := by
  unfold unrollOf
  split
  · rename_i start stop times hwords
    refine (readable_indexOf start).bind fun m hm => ?_
    refine (readable_placeOf stop).bind fun place hplace => ?_
    refine (readable_countOf times).bind fun k hk => ?_
    exact ⟨hm, hplace, hk⟩
  · intro name; simp

theorem readable_bare {c : Command} (h : c.Writable) (word : String) (arguments : List Char) :
    Readable Writable (bare word c arguments) := by
  unfold bare
  split
  · exact h
  · intro name; simp

/-- **Every command that is read can be written**, and whatever is refused is refused because of the
text. -/
theorem readable_ofWords (word : String) (hfeed : '\n' ∉ arguments) :
    Readable Writable (ofWords word arguments) := by
  unfold ofWords
  split
  · exact readable_emitOf hfeed
  split
  · exact readable_bare (c := .temporary) trivial _ _
  split
  · exact readable_bare (c := .label) trivial _ _
  split
  · exact readable_mergeOf arguments
  split
  · exact readable_patchOf arguments
  split
  · exact readable_unrollOf arguments
  split
  · exact readable_bare (c := .reset) trivial _ _
  · intro name; simp

end Command

/-- The arguments of a line are a part of it. -/
theorem infix_of_statement? {text arguments : List Char} {word : String}
    (h : statement? text = some (word, arguments)) : arguments <:+: text := by
  unfold statement? at h
  split at h
  · cases h
  · cases h
  · obtain ⟨-, rfl⟩ := Prod.mk.inj (Option.some.inj h)
    exact ((trim_isInfix _).trans (List.dropWhile_suffix _).isInfix).trans (trim_isInfix text)

theorem readable_line {text arguments : List Char} {word : String} (hfeed : '\n' ∉ text)
    (hs : statement? text = some (word, arguments)) :
    Readable Command.Writable (Command.ofWords word arguments) :=
  Command.readable_ofWords word fun hmem => hfeed ((infix_of_statement? hs).subset hmem)

theorem writable_of_decode {text : List Char} (hfeed : '\n' ∉ text) {c : Command}
    (h : decode text = .command c) : c.Writable := by
  rcases decode_cases text with ⟨-, hd⟩ | ⟨word, arguments, hs, ⟨fault, -, hd⟩ | ⟨c', hw, hd⟩⟩
  · cases hd.symm.trans h
  · cases hd.symm.trans h
  · obtain rfl : c' = c := Decoded.command.inj (hd.symm.trans h)
    have hread := readable_line hfeed hs
    rw [hw] at hread
    exact hread

/-- **The commands that lines can say** are those that can be written. -/
theorem exists_line_iff {c : Command} : (∃ text, '\n' ∉ text ∧ decode text = .command c) ↔ c.Writable := by
  constructor
  · rintro ⟨text, hfeed, hd⟩
    exact writable_of_decode hfeed hd
  · intro h
    exact ⟨c.line.toList, (clean_line h).feed, decode_line h⟩

/-! ## The grammar -/

/-- **What a line does is told by what it says**, in every state. -/
theorem obeys_execute (r : Replay) {text : List Char} (hfeed : '\n' ∉ text) :
    r.Obeys (r.execute text) (decode text) := by
  rcases decode_cases text with ⟨hs, hd⟩ | ⟨word, arguments, hs, ⟨fault, hw, hd⟩ | ⟨c, hw, hd⟩⟩
  · rw [hd]
    unfold Replay.execute
    rw [hs]
    exact ⟨rfl, rfl⟩
  · have hread := readable_line hfeed hs
    rw [hw] at hread
    rw [hd]
    unfold Replay.execute
    simp only [hs, hw]
    exact ⟨rfl, rfl, hread⟩
  · have hmake := perform_command r (c.call r.builder.next)
    rw [r.perform_call] at hmake
    rw [hd]
    unfold Replay.execute
    simp only [hs, hw]
    refine ⟨hmake.1, hmake.2, ?_⟩
    intro fault n herror
    exact Replay.patch_of_script_error herror

/-- **The grammar of lines.** What a line says depends on its text alone, and in every state of a replay
the line does what it says: nothing; or it is refused, with its line number and without effect; or it makes
the call of a command, with `here` for the index of the next instruction, and is then refused as a line of
the script only for an unknown list. Every command that some line says has a canonical line, and this says
the same command. -/
theorem line_grammar (text : List Char) (hfeed : '\n' ∉ text) :
    (∀ r : Replay, r.Obeys (r.execute text) (decode text)) ∧
    ∀ c, decode text = .command c → '\n' ∉ c.line.toList ∧ decode c.line.toList = .command c := by
  refine ⟨fun r => obeys_execute r hfeed, ?_⟩
  intro c hd
  have hwritable := exists_line_iff.1 ⟨text, hfeed, hd⟩
  exact ⟨(clean_line hwritable).feed, decode_line hwritable⟩

/-- An emission whose texts look like parts of the notation, and an unrolling up to `here` with signs in
front of its numbers, both with blanks of all sorts. -/
theorem line_grammar_odd_texts :
    let emitted : Command := .emit "a-" none (some "# -") none (some "L|->")
    let unrolled : Command := .unroll 1 .here 0
    let r : Replay := ⟨⟨4, #[.ofText "GOTO" none none none], 0, 0⟩, ⟨[("L", ⟨[1]⟩)]⟩, 6⟩
    let first := "emit\u2003a-|| # -->L|->\t".toList
    let second := " unroll  +01\u00a0here -0\r".toList
    decode first = .command emitted ∧ emitted.line = "emit a- | - | # - | - -> L|->" ∧
    decode emitted.line.toList = .command emitted ∧
    ((r.execute first).result, (r.execute first).state.workspace) =
      (emitted.call 2).make 6 r.workspace ∧
    decode second = .command unrolled ∧ unrolled.line = "unroll 1 here 0" ∧
    decode unrolled.line.toList = .command unrolled ∧
    ((r.execute second).result, (r.execute second).state.workspace) =
      (Call.unroll 1 2 0).make 6 r.workspace := by
  intro emitted unrolled r first second
  have hfirst : decode first = .command emitted := by decide +kernel
  have hsecond : decode second = .command unrolled := by decide +kernel
  obtain ⟨hobeys, hline⟩ := line_grammar first (by decide +kernel)
  obtain ⟨hobeys', hline'⟩ := line_grammar second (by decide +kernel)
  have hmade := hobeys r
  have hmade' := hobeys' r
  rw [hfirst] at hmade
  rw [hsecond] at hmade'
  exact ⟨hfirst, by decide +kernel, (hline _ hfirst).2, hmade.1, hsecond, by decide +kernel,
    (hline' _ hsecond).2, hmade'.1⟩

end ThreeAddress.Script
