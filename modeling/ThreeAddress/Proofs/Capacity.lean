import ThreeAddress.Proofs.Actions

/-!
# The limit holds

Instructions come into the buffer one at a time and in whole copies of a range. Either way the buffer
never holds more than its limit.

* `Builder.Within`: a builder with the given limit, and no more instructions than that.
* `Within.perform`, `Within.performAll`: every action keeps this, also one that fails half way.
* `Script.Move`: what can happen in a session that mixes actions with scripts.
* `capacity_never_exceeded`: **in every state of every session** the limit is the one the session
  began with and is respected, and it alone decides whether an emission succeeds.
-/

namespace ThreeAddress

namespace Builder

variable {limit : ℕ} {b : Builder}

/-- The builder has the given limit and respects it. -/
structure Within (limit : ℕ) (b : Builder) : Prop where
  limit_eq : b.limit = limit
  length_le : b.length ≤ limit

theorem Within.empty (limit : ℕ) : Within limit (empty limit) := ⟨rfl, Nat.zero_le _⟩

theorem Within.append (h : b.Within limit) {qs : List Quad}
    (hfits : qs = [] ∨ b.length + qs.length ≤ b.limit) : (b.append qs).Within limit := by
  refine ⟨h.limit_eq, ?_⟩
  rw [length_append]
  rcases hfits with rfl | hfits
  · exact h.length_le
  · rw [h.limit_eq] at hfits; exact hfits

/-- **Every action respects the limit.** -/
theorem Within.perform (h : b.Within limit) (a : Action) : (b.perform a).state.Within limit := by
  rcases perform_cases b a with ⟨qs, happ, hs⟩ | ⟨-, hs⟩ | ⟨-, hs⟩ | ⟨list, target, -, hs⟩ |
    ⟨-, hs⟩
  · rw [hs]; exact h.append happ.fits
  · rw [hs]; exact ⟨h.limit_eq, h.length_le⟩
  · rw [hs]; exact ⟨h.limit_eq, h.length_le⟩
  · have hlimit := (backpatch_frame list target b).1
    have hlength := length_backpatch list target b
    rw [hs]; exact ⟨hlimit.trans h.limit_eq, hlength.trans_le h.length_le⟩
  · rw [hs, h.limit_eq]; exact .empty limit

theorem Within.performAll (actions : List Action) :
    ∀ {b : Builder}, b.Within limit → (b.performAll actions).Within limit := by
  induction actions with
  | nil => intro b h; exact h
  | cons a actions ih => intro b h; exact ih (h.perform a)

/-- An action that emits succeeds exactly if there is room, and changes nothing if there is none. -/
theorem perform_of_emission {a : Action} {q : Quad} (ha : a.emitted? = some q) :
    ((∃ answer, (b.perform a).result = .ok answer) ↔ b.length < b.limit) ∧
      ∀ e, (b.perform a).result = .error e →
        e = .capacityExceeded b.limit ∧ (b.perform a).state = b := by
  by_cases hroom : b.length < b.limit
  · rw [perform_emission_of_room ha hroom, Outcome.result_ok]
    exact ⟨iff_of_true ⟨_, rfl⟩ hroom, fun e he => by cases he⟩
  · rw [perform_emission_of_full ha hroom, Outcome.result_fail, Outcome.state_fail]
    refine ⟨iff_of_false ?_ hroom, ?_⟩
    · rintro ⟨answer, h⟩; cases h
    · intro e he
      exact ⟨(Except.error.inj he).symm, rfl⟩

end Builder

namespace Script

open Builder (Within)

/-- What can happen next in a session: an action on the builder, a line of a script, a whole script,
or the start of a new replay on the builder. -/
inductive Move where
  | act (action : Builder.Action)
  | line (text : List Char)
  | script (source : String)
  | renew
deriving DecidableEq, Repr

namespace Replay

variable {limit : ℕ} {r : Replay}

/-- The session after a move, whether the move fails or not. -/
def move (r : Replay) : Move → Replay
  | .act action => r.withBuilder (r.builder.perform action).state
  | .line text => (r.step text).state
  | .script source => (r.run source).state
  | .renew => .ofBuilder r.builder

/-- The session after moves. -/
def moveAll (r : Replay) (moves : List Move) : Replay := moves.foldl move r

theorem within_step (h : r.builder.Within limit) (text : List Char) :
    (r.step text).state.builder.Within limit := by
  rw [builder_step]; exact h.performAll _

theorem within_follow (texts : List (List Char)) :
    ∀ {r : Replay}, r.builder.Within limit → (r.follow texts).builder.Within limit := by
  induction texts with
  | nil => intro r h; exact h
  | cons text texts ih => intro r h; exact ih (within_step h text)

theorem within_move (h : r.builder.Within limit) (m : Move) : (r.move m).builder.Within limit := by
  cases m with
  | act action => exact h.perform action
  | line text => exact within_step h text
  | script source =>
    show (r.run source).state.builder.Within limit
    rw [run_state]; exact within_follow _ h
  | renew => exact h

theorem within_moveAll (moves : List Move) :
    ∀ {r : Replay}, r.builder.Within limit → (r.moveAll moves).builder.Within limit := by
  induction moves with
  | nil => intro r h; exact h
  | cons m moves ih => intro r h; exact ih (within_move h m)

/-- A line that emits does what its emission does. -/
theorem step_of_emission {text : List Char} {mnemonic : String} {arg1 arg2 dest list : Option String}
    (hc : Command.ofLine? text = some (.emit mnemonic arg1 arg2 dest list)) :
    ((r.step text).result = .ok () ↔ r.builder.length < r.builder.limit) ∧
      ∀ e, (r.step text).result = .error e →
        e = .capacityExceeded r.builder.limit ∧ (r.step text).state = r.advance := by
  rcases step_cases r text with ⟨hn, -⟩ | ⟨_, _, _, hn, -⟩ | ⟨_, _, c, hc', hs⟩
  · rw [hc] at hn; cases hn
  · rw [hc] at hn; cases hn
  · rw [hc] at hc'
    obtain rfl := Option.some.inj hc'
    rw [hs, Outcome.result_after, Outcome.state_after]
    by_cases hroom : r.builder.length < r.builder.limit
    · have hroom' : r.advance.builder.length < r.advance.builder.limit := hroom
      rw [perform_emit_of_room hroom', Outcome.result_ok]
      exact ⟨iff_of_true rfl hroom, fun e he => by cases he⟩
    · have hfull : ¬ r.advance.builder.length < r.advance.builder.limit := hroom
      rw [perform_emit_of_full hfull, Outcome.result_fail, Outcome.state_fail]
      refine ⟨iff_of_false (fun h => by cases h) hroom, ?_⟩
      intro e he
      exact ⟨(Except.error.inj he).symm, rfl⟩

end Replay

/-- **Capacity is never exceeded.** Whatever is done with a builder and with scripts on it, in any
order, with success or not: its limit stays the one it was made with, it never holds more
instructions, and an emission, by an action or by a line, succeeds exactly if there are fewer. One
that fails says that the limit is exceeded and changes nothing. -/
theorem capacity_never_exceeded (limit : ℕ) (moves : List Move) :
    let r := (Replay.ofBuilder (Builder.new limit).value).moveAll moves
    r.builder.length ≤ limit ∧ r.builder.limit = limit ∧
    (∀ a q, a.emitted? = some q →
      ((∃ answer, (r.builder.perform a).result = .ok answer) ↔ r.builder.length < limit) ∧
      ∀ e, (r.builder.perform a).result = .error e →
        e = .capacityExceeded limit ∧ (r.builder.perform a).state = r.builder) ∧
    ∀ text mnemonic arg1 arg2 dest list,
      Command.ofLine? text = some (.emit mnemonic arg1 arg2 dest list) →
      ((r.step text).result = .ok () ↔ r.builder.length < limit) ∧
      ∀ e, (r.step text).result = .error e →
        e = .capacityExceeded limit ∧ (r.step text).state = r.advance := by
  intro r
  have h : r.builder.Within limit := Replay.within_moveAll moves (.empty limit)
  refine ⟨h.length_le, h.limit_eq, ?_, ?_⟩
  · intro a q ha
    have hact := Builder.perform_of_emission (b := r.builder) ha
    rw [h.limit_eq] at hact
    exact hact
  · intro text mnemonic arg1 arg2 dest list hc
    have hline := Replay.step_of_emission (r := r) hc
    rw [h.limit_eq] at hline
    exact hline

end Script

end ThreeAddress
