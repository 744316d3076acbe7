import ThreeAddress.Proofs.History
import ThreeAddress.Proofs.Linearity

/-!
# Which instructions name an instruction

The destination of a jump is an instruction, that of any other quad is a place for a value. A quad is
proper if it keeps to that. Quads made from texts are proper and copies of proper quads are, but
patching gives a target to whatever is on the list.

* `Builder.Strays`: an action strays if it gives a target to an instruction that is no jump.
* `proper_perform_iff`: **proper code stays proper exactly if the action does not stray.**
* `proper_follow_iff`: so the code of a script is proper exactly if no line since the last reset
  strayed.
* `JumpsListed`: nothing strays if only jumps are ever put on lists.
* `assignment_with_target`: a script whose lines all succeed and whose only instruction is an
  assignment to an instruction.
-/

namespace ThreeAddress

/-- Only a jump names an instruction. -/
def Quad.Proper (q : Quad) : Prop := ∀ t, q.dest = .target t → q.isJump = true

theorem Quad.proper_ofText (mnemonic : String) (arg1 arg2 dest : Option String) :
    (Quad.ofText mnemonic arg1 arg2 dest).Proper := by
  intro t ht
  show (Operation.ofMnemonic mnemonic).isJump = true
  have hdest : Destination.ofText (Operation.ofMnemonic mnemonic) dest = .target t := ht
  unfold Destination.ofText at hdest
  cases hop : (Operation.ofMnemonic mnemonic).isJump with
  | true => rfl
  | false => cases dest <;> rw [hop] at hdest <;> cases hdest

theorem Quad.Proper.relocate {q : Quad} (h : q.Proper) (start stop offset : ℕ) :
    (q.relocate start stop offset).Proper := by
  rcases relocate_cases start stop offset q with he | ⟨t, hjump, -, -, -, he⟩
  · rw [he]; exact h
  · rw [he]; intro _ _; exact hjump

namespace Builder

variable {b : Builder} {a : Action}

/-- All instructions are proper. -/
def Proper (b : Builder) : Prop := ∀ i q, b.quad? i = some q → q.Proper

/-- The action gives a target to an instruction that is no jump. -/
def Strays (b : Builder) (a : Action) : Prop :=
  ∃ i t q, a.target? i = some t ∧ b.quad? i = some q ∧ q.isJump = false

theorem proper_of_length_zero (h : b.length = 0) : b.Proper :=
  fun _ _ hq => absurd hq (quad?_ne_some h)

theorem proper_of_perform (ha : a ≠ .reset) (h : (b.perform a).state.Proper) :
    b.Proper ∧ ¬ b.Strays a := by
  -- every old instruction is still there, with the target that the action gives it
  have hold : ∀ i q, b.quad? i = some q → (q.aimed (a.target? i)).Proper := by
    intro i q hq
    have hafter := quad?_perform ha (bounds_of_quad? hq).2
    rw [hq] at hafter
    exact h i _ hafter
  refine ⟨?_, ?_⟩
  · intro i q hq t ht
    cases htarget : a.target? i with
    | none => exact hold i q hq t (by rw [htarget]; exact ht)
    | some t' => exact hold i q hq t' (by rw [htarget]; rfl)
  · rintro ⟨i, t, q, htarget, hq, hjump⟩
    have hjump' : q.isJump = true := hold i q hq t (by rw [htarget]; rfl)
    rw [hjump] at hjump'
    cases hjump'

theorem proper_append (h : b.Proper) {qs : List Quad} (hqs : ∀ q ∈ qs, q.Proper) :
    (b.append qs).Proper := by
  intro i q hq
  rcases lt_or_ge i b.next with hlt | hge
  · rw [quad?_append_left qs hlt] at hq; exact h i q hq
  · obtain ⟨j, rfl⟩ := Nat.exists_eq_add_of_le hge
    rw [quad?_append_right] at hq
    exact hqs q (List.mem_of_getElem? hq)

theorem proper_backpatch (h : b.Proper) {list : PendingList} {target : ℕ}
    (hstray : ¬ b.Strays (.backpatch list target)) : (b.backpatch list target).value.Proper := by
  intro i q hq
  rw [quad?_backpatch] at hq
  by_cases hi : i ∈ list.indices
  · rw [if_pos hi] at hq
    obtain ⟨q₀, hq₀, rfl⟩ := Option.map_eq_some_iff.1 hq
    intro _ _
    by_contra hjump
    exact hstray ⟨i, target, q₀, if_pos hi, hq₀, Bool.eq_false_of_not_eq_true hjump⟩
  · rw [if_neg hi] at hq; exact h i q hq

/-- **An action keeps proper code proper exactly if it does not stray**, and no action but a reset
makes other code proper. -/
theorem proper_perform_iff (ha : a ≠ .reset) (hemit : ∀ q, a.emitted? = some q → q.Proper) :
    (b.perform a).state.Proper ↔ b.Proper ∧ ¬ b.Strays a := by
  refine ⟨proper_of_perform ha, ?_⟩
  rintro ⟨h, hstray⟩
  rcases perform_cases b a with ⟨qs, happ, hs⟩ | ⟨-, hs⟩ | ⟨-, hs⟩ | ⟨list, target, rfl, hs⟩ |
    ⟨rfl, -⟩
  · rw [hs]
    refine proper_append h ?_
    intro q hq
    rcases happ.origin q hq with he | ⟨i, q₀, start, stop, offset, hq₀, rfl⟩
    · exact hemit q he
    · exact (h i q₀ hq₀).relocate start stop offset
  · rw [hs]; exact h
  · rw [hs]; exact h
  · rw [hs]; exact proper_backpatch h hstray
  · exact absurd rfl ha

end Builder

namespace Script

variable {r : Replay} {g : Ledger}

namespace Replay

/-- The line patches a list that holds the index of an instruction that is no jump. -/
def Strays (r : Replay) (text : List Char) : Prop :=
  ∃ name target list i q, Command.ofLine? text = some (.patch name target) ∧
    r.lists.get? name = some list ∧ i ∈ list.indices ∧ r.builder.quad? i = some q ∧ q.isJump = false

theorem action?_ne_reset {c : Command} (hc : c ≠ .reset) {a : Builder.Action}
    (ha : r.action? c = some a) : a ≠ .reset := by
  rintro rfl
  cases c with
  | patch name target => obtain ⟨list, -, hlist⟩ := Option.map_eq_some_iff.1 ha; cases hlist
  | reset => exact hc rfl
  | merge into source => cases ha
  | _ => cases Option.some.inj ha

theorem proper_of_action? {c : Command} {a : Builder.Action} (ha : r.action? c = some a) {q : Quad}
    (hq : a.emitted? = some q) : q.Proper := by
  obtain ⟨mnemonic, arg1, arg2, dest, -, -, rfl⟩ := emission_of_action? ha hq
  exact Quad.proper_ofText mnemonic arg1 arg2 dest

/-- A line strays if the action that it comes to does. -/
theorem strays_iff (r : Replay) (text : List Char) :
    r.Strays text ↔ ∃ a, r.lineAction? text = some a ∧ r.builder.Strays a := by
  unfold lineAction?
  constructor
  · rintro ⟨name, target, list, i, q, hc, hget, hi, hq, hjump⟩
    refine ⟨.backpatch list (r.resolve target), ?_, i, r.resolve target, q, if_pos hi, hq, hjump⟩
    simp only [hc, Option.bind_some, action?, hget, Option.map_some]
  · rintro ⟨a, ha, i, t, q, ht, hq, hjump⟩
    obtain ⟨list, rfl, hi⟩ := Builder.target?_eq_some_iff.1 ht
    obtain ⟨c, hc, hact⟩ := Option.bind_eq_some_iff.1 ha
    -- only patching comes to a patch
    cases c with
    | patch name target =>
      obtain ⟨list', hget, heq⟩ := Option.map_eq_some_iff.1 hact
      obtain ⟨rfl, -⟩ := Builder.Action.backpatch.inj heq
      exact ⟨name, target, list', i, q, hc, hget, hi, hq, hjump⟩
    | merge into source => cases hact
    | _ => cases Option.some.inj hact

theorem proper_step_iff {text : List Char} (hc : Command.ofLine? text ≠ some .reset) :
    (r.step text).state.builder.Proper ↔ r.builder.Proper ∧ ¬ r.Strays text := by
  rw [builder_step, strays_iff]
  cases ha : r.lineAction? text with
  | none =>
    refine ⟨fun h => ⟨h, ?_⟩, fun h => h.1⟩
    rintro ⟨a, ha', -⟩; cases ha'
  | some a =>
    obtain ⟨c, hcmd, hact⟩ := Option.bind_eq_some_iff.1 ha
    have hreset : c ≠ .reset := by rintro rfl; exact hc hcmd
    have hiff := Builder.proper_perform_iff (b := r.builder) (action?_ne_reset hreset hact)
      fun q hq => proper_of_action? hact hq
    rw [Option.toList_some, Builder.performAll_cons]
    refine hiff.trans (and_congr_right fun _ => not_congr ?_)
    constructor
    · intro h; exact ⟨a, rfl, h⟩
    · rintro ⟨a', ha', h⟩; obtain rfl := Option.some.inj ha'; exact h

theorem proper_step_reset {text : List Char} (hc : Command.ofLine? text = some .reset) :
    (r.step text).state.builder.Proper := by
  have ha : r.lineAction? text = some .reset := by unfold lineAction?; rw [hc]; rfl
  rw [builder_step, ha]
  exact Builder.proper_of_length_zero rfl

/-- Every line that strays is made up for by a reset after it. -/
def Recovers (r : Replay) (texts : List (List Char)) : Prop :=
  ∀ before text after, texts = before ++ text :: after → (r.follow before).Strays text →
    ∃ later ∈ after, Command.ofLine? later = some .reset

theorem recovers_cons (r : Replay) (text : List Char) (texts : List (List Char)) :
    r.Recovers (text :: texts) ↔
      (r.Strays text → ∃ later ∈ texts, Command.ofLine? later = some .reset) ∧
        (r.step text).state.Recovers texts := by
  constructor
  · intro h
    refine ⟨h [] text texts rfl, ?_⟩
    intro before t after hsplit
    exact h (text :: before) t after (by rw [hsplit]; rfl)
  · rintro ⟨hfirst, hrest⟩ before t after hsplit hstray
    rcases List.cons_eq_append_iff.1 hsplit with ⟨rfl, heq⟩ | ⟨before', rfl, heq⟩
    · obtain ⟨rfl, rfl⟩ := List.cons.inj heq
      exact hfirst hstray
    · exact hrest before' t after heq hstray

/-- **The code is proper after some lines** exactly if it was proper before them or there is a reset
among them, and if every line that strays is followed by a reset. -/
theorem proper_follow_iff (texts : List (List Char)) :
    ∀ r : Replay, (r.follow texts).builder.Proper ↔ r.Recovers texts ∧
      (r.builder.Proper ∨ ∃ later ∈ texts, Command.ofLine? later = some .reset) := by
  induction texts with
  | nil =>
    intro r
    have hrec : r.Recovers [] := by
      intro before text after hsplit
      exact absurd hsplit (by simp)
    simp only [hrec, List.not_mem_nil, false_and, exists_false, or_false, true_and]
    exact Iff.rfl
  | cons text texts ih =>
    intro r
    rw [follow_cons, ih, recovers_cons]
    by_cases hc : Command.ofLine? text = some .reset
    · -- a reset is no patch, and the code is proper after it
      have hstray : ¬ r.Strays text := by
        rintro ⟨name, target, _, _, _, hpatch, -⟩
        rw [hc] at hpatch; cases hpatch
      have hproper := proper_step_reset (r := r) hc
      have hreset : ∃ later ∈ text :: texts, Command.ofLine? later = some .reset :=
        ⟨text, List.mem_cons_self, hc⟩
      constructor
      · rintro ⟨hrec, -⟩; exact ⟨⟨fun h => absurd h hstray, hrec⟩, Or.inr hreset⟩
      · rintro ⟨⟨-, hrec⟩, -⟩; exact ⟨hrec, Or.inl hproper⟩
    · have hstep := proper_step_iff (r := r) hc
      have hreset : (∃ later ∈ text :: texts, Command.ofLine? later = some .reset) ↔
          ∃ later ∈ texts, Command.ofLine? later = some .reset := by
        rw [List.exists_mem_cons_iff]
        exact or_iff_right hc
      rw [hstep, hreset]
      constructor
      · rintro ⟨hrec, ⟨hproper, hstray⟩ | hlater⟩
        · exact ⟨⟨fun h => absurd h hstray, hrec⟩, Or.inl hproper⟩
        · exact ⟨⟨fun _ => hlater, hrec⟩, Or.inr hlater⟩
      · rintro ⟨⟨hfirst, hrec⟩, hproper | hlater⟩
        · refine ⟨hrec, ?_⟩
          by_cases hstray : r.Strays text
          · exact Or.inr (hfirst hstray)
          · exact Or.inl ⟨hproper, hstray⟩
        · exact ⟨hrec, Or.inr hlater⟩

/-! ## Lists of jumps -/

/-- All that is on lists are indices of jumps. -/
def JumpsListed (r : Replay) : Prop :=
  ∀ i ∈ r.lists.held, ∃ q, r.builder.quad? i = some q ∧ q.isJump = true

/-- The command puts only a jump on a list. -/
def NotesJump : Command → Prop
  | .emit mnemonic _ _ _ (some _) => (Operation.ofMnemonic mnemonic).isJump = true
  | _ => True

instance : (c : Command) → Decidable (NotesJump c)
  | .emit mnemonic _ _ _ (some _) =>
    inferInstanceAs (Decidable ((Operation.ofMnemonic mnemonic).isJump = true))
  | .emit _ _ _ _ none => isTrue trivial
  | .temporary | .label | .merge _ _ | .patch _ _ | .unroll _ _ _ | .reset => isTrue trivial

theorem JumpsListed.not_strays (h : r.JumpsListed) (text : List Char) : ¬ r.Strays text := by
  rintro ⟨name, target, list, i, q, -, hget, hi, hq, hjump⟩
  have hheld : i ∈ r.lists.held :=
    NamedLists.mem_held.2 ⟨(name, list), NamedLists.mem_of_get? hget, hi⟩
  obtain ⟨q', hq', hjump'⟩ := h i hheld
  obtain rfl : q = q' := Option.some.inj (hq.symm.trans hq')
  rw [hjump] at hjump'
  cases hjump'

/-- What is on the lists after a command was there before, or is the index of the instruction that
the command emitted. -/
theorem held_perform (h : Linear r g) {c : Command} {i : ℕ}
    (hi : i ∈ (r.perform c).state.lists.held) :
    (c ≠ .reset ∧ i ∈ r.lists.held) ∨
      (r.builder.length < r.builder.limit ∧ i = r.builder.next ∧
        ∃ mnemonic arg1 arg2 dest name, c = .emit mnemonic arg1 arg2 dest (some name)) := by
  cases c with
  | emit mnemonic arg1 arg2 dest list =>
    by_cases hroom : r.builder.length < r.builder.limit
    · rw [perform_emit_of_room hroom, Outcome.state_ok] at hi
      cases list with
      | none => exact Or.inl ⟨by simp, hi⟩
      | some name =>
        rcases List.mem_append.1 ((NamedLists.held_push h.names name _).mem_iff.1 hi) with hi | hi
        · exact Or.inl ⟨by simp, hi⟩
        · exact Or.inr ⟨hroom, List.mem_singleton.1 hi, mnemonic, arg1, arg2, dest, name, rfl⟩
    · rw [perform_emit_of_full hroom, Outcome.state_fail] at hi
      exact Or.inl ⟨by simp, hi⟩
  | temporary => exact Or.inl ⟨by simp, hi⟩
  | label => exact Or.inl ⟨by simp, hi⟩
  | merge into source =>
    exact Or.inl ⟨by simp, (NamedLists.held_merge h.names into source).mem_iff.1 hi⟩
  | patch name target =>
    cases hget : r.lists.get? name with
    | none =>
      rw [perform_patch_of_none hget, Outcome.state_fail] at hi
      exact Or.inl ⟨by simp, hi⟩
    | some list =>
      rw [perform_patch_of_some hget, Outcome.state_ok] at hi
      have herase := NamedLists.held_erase r.lists name
      exact Or.inl ⟨by simp, herase.mem_iff.1 (List.mem_append_right _ hi)⟩
  | unroll start stop times => exact Or.inl ⟨by simp, hi⟩
  | reset => exact absurd hi List.not_mem_nil

theorem jumpsListed_perform (h : Linear r g) (hj : r.JumpsListed) {c : Command} (hc : NotesJump c) :
    (r.perform c).state.JumpsListed := by
  intro i hi
  rw [builder_perform]
  rcases held_perform h hi with ⟨hreset, hold⟩ | ⟨hroom, rfl, mnemonic, arg1, arg2, dest, name, rfl⟩
  · -- a jump that was there is there, whatever its target
    obtain ⟨q, hq, hjump⟩ := hj i hold
    have hnot : .reset ∉ (r.action? c).toList := by
      intro hmem
      exact action?_ne_reset hreset (Option.mem_toList.1 hmem) rfl
    have hafter := Builder.quad?_performAll hnot r.builder (Builder.bounds_of_quad? hq).2
    rw [hq] at hafter
    exact ⟨_, hafter, hjump⟩
  · have hemitted : (Builder.Action.emit mnemonic arg1 arg2 dest).emitted? =
        some (.ofText mnemonic arg1 arg2 dest) := rfl
    have hnone : Builder.Action.reset ∉ [] := List.not_mem_nil
    have hquad := Builder.quad?_of_emission hemitted hroom hnone
    exact ⟨_, hquad, hc⟩

theorem jumpsListed_step (h : Linear r g) (hj : r.JumpsListed) {text : List Char}
    (hc : ∀ c ∈ Command.ofLine? text, NotesJump c) : (r.step text).state.JumpsListed := by
  rcases step_cases r text with ⟨_, hs⟩ | ⟨_, _, _, _, hs⟩ | ⟨_, _, c, hl, hs⟩
  · rw [hs]; exact hj
  · rw [hs]; exact hj
  · have ha : Linear r.advance g := h.grow rfl le_rfl
    have hja : r.advance.JumpsListed := hj
    rw [hs, Outcome.state_after]
    exact jumpsListed_perform ha hja (hc c hl)

theorem jumpsListed_follow (texts : List (List Char))
    (hc : ∀ text ∈ texts, ∀ c ∈ Command.ofLine? text, NotesJump c) :
    ∀ {r : Replay} {g : Ledger}, Linear r g → r.JumpsListed → (r.follow texts).JumpsListed := by
  induction texts with
  | nil => intro r g _ hj; exact hj
  | cons text texts ih =>
    intro r g h hj
    have hfirst := hc text List.mem_cons_self
    have hrest := fun t ht => hc t (List.mem_cons_of_mem _ ht)
    exact ih hrest (linear_step h text) (jumpsListed_step h hj hfirst)

end Replay

open Replay

/-- **Which instructions name an instruction.** Let scripts be run on an empty builder. After the
first `n` executed lines, only jumps have targets exactly if each of these lines that patched a list
with something else than jumps on it was followed by a reset. In particular this holds, and no line
could stray next, if all that these lines put on lists are jumps. -/
theorem targets_only_at_jumps (b : Builder) (hb : b.length = 0) (sources : List String) (n : ℕ) :
    let r₀ := ofBuilder b
    let lines := (r₀.executedIn sources).take n
    let r := r₀.follow lines
    r₀.follow (r₀.executedIn sources) = r₀.runs sources ∧
    ((∀ i q t, r.builder.quad? i = some q → q.dest = .target t → q.isJump = true) ↔
      ∀ before text after, lines = before ++ text :: after → (r₀.follow before).Strays text →
        ∃ later ∈ after, Command.ofLine? later = some .reset) ∧
    ((∀ text ∈ lines, ∀ c ∈ Command.ofLine? text, NotesJump c) →
      (∀ i q t, r.builder.quad? i = some q → q.dest = .target t → q.isJump = true) ∧
      ∀ text, ¬ r.Strays text) := by
  intro r₀ lines r
  have hstart : r₀.builder.Proper := Builder.proper_of_length_zero hb
  have hiff : r.builder.Proper ↔ r₀.Recovers lines := by
    rw [proper_follow_iff, and_iff_left (Or.inl hstart)]
  have hproper : (∀ i q t, r.builder.quad? i = some q → q.dest = .target t → q.isJump = true) ↔
      r.builder.Proper :=
    ⟨fun h i q hq t => h i q t hq, fun h i q t hq => h i q hq t⟩
  rw [hproper]
  refine ⟨(runs_eq_follow sources r₀).symm, hiff, ?_⟩
  intro hnotes
  have hjumps : ∀ texts, (∀ text ∈ texts, text ∈ lines) → (r₀.follow texts).JumpsListed := by
    intro texts hsub
    refine jumpsListed_follow texts (fun text ht => hnotes text (hsub text ht)) (Linear.start b) ?_
    intro i hi
    exact absurd hi List.not_mem_nil
  refine ⟨hiff.2 ?_, (hjumps lines fun _ ht => ht).not_strays⟩
  intro before text after hsplit hstray
  refine absurd hstray ((hjumps before ?_).not_strays text)
  intro t ht
  rw [hsplit]; exact List.mem_append_left _ ht

/-- In the first script an assignment is on a list that is patched, in the second only a branch. -/
theorem targets_only_at_jumps_two_scripts :
    let after (script : String) (n : ℕ) :=
      (ofBuilder (.empty 9)).follow (((ofBuilder (.empty 9)).executedIn [script]).take n)
    let proper (r : Replay) :=
      ∀ i q t, r.builder.quad? i = some q → q.dest = .target t → q.isJump = true
    ¬ proper (after "emit := | 1 | - | y -> L\npatch L 3" 2) ∧
      proper (after "emit IF LTI | x | 5 -> L\nemit := | 1 | - | y\npatch L here" 3) := by
  intro after proper
  constructor
  · obtain ⟨-, hiff, -⟩ := targets_only_at_jumps (.empty 9) rfl
      ["emit := | 1 | - | y -> L\npatch L 3"] 2
    intro h
    have hlines : ((ofBuilder (.empty 9)).executedIn ["emit := | 1 | - | y -> L\npatch L 3"]).take 2 =
        ["emit := | 1 | - | y -> L".toList, "patch L 3".toList] := by decide +kernel
    have hstray : ((ofBuilder (.empty 9)).follow ["emit := | 1 | - | y -> L".toList]).Strays
        "patch L 3".toList :=
      ⟨"L", .index 3, ⟨[1]⟩, 1, ⟨.assign, some "1", none, .operand "y"⟩, by decide +kernel,
        by decide +kernel, by decide, by decide +kernel, rfl⟩
    obtain ⟨later, hlater, -⟩ := hiff.1 h _ _ [] hlines hstray
    cases hlater
  · obtain ⟨-, -, hjumps⟩ := targets_only_at_jumps (.empty 9) rfl
      ["emit IF LTI | x | 5 -> L\nemit := | 1 | - | y\npatch L here"] 3
    exact (hjumps (by decide +kernel)).1

/-- A script that succeeds and leaves an assignment whose destination is an instruction. -/
theorem assignment_with_target :
    let o := (ofBuilder (.empty 5000)).run "emit := | 1 | - | y -> L\npatch L 3"
    o.result = .ok () ∧ o.state.builder.quads = [⟨.assign, some "1", none, .target 3⟩] ∧
    ¬ ∀ i q t, o.state.builder.quad? i = some q → q.dest = .target t → q.isJump = true := by
  intro o
  have hquads : o.state.builder.quads = [⟨.assign, some "1", none, .target 3⟩] := by decide +kernel
  refine ⟨by decide +kernel, hquads, ?_⟩
  intro h
  have hquad : o.state.builder.quad? 1 = some ⟨.assign, some "1", none, .target 3⟩ := by
    rw [Builder.quad?_eq le_rfl, hquads]; rfl
  exact absurd (h 1 _ 3 hquad rfl) (by decide)

end Script

end ThreeAddress
