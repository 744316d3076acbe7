import ThreeAddress.Proofs.Actions
import ThreeAddress.Proofs.Sequencing

/-!
# A reset isolates compilation units

What a script does depends on the lines before it only through builder, lists and line count. A reset
brings the first two back to their beginning, and the line count shows only in errors.

* `Error.later`, `Replay.later`: an error and a replay as they are some lines further down.
* `Replay.step_later`, `Replay.runLines_later`: **running lines further down** gives the same outcome,
  further down.
* `Replay.run_of_reset`: a script that ends with a reset leaves a fresh replay, further down.
* `reset_isolates_units`: so what comes after such a script is not influenced by it.
-/

namespace ThreeAddress

/-- The error as it is reported `n` lines further down. -/
def Error.later (n : ℕ) : Error → Error
  | .script fault line => .script fault (line + n)
  | e => e

namespace Builder

theorem limit_perform (b : Builder) (a : Action) : (b.perform a).state.limit = b.limit := by
  rcases perform_cases b a with ⟨qs, -, hs⟩ | ⟨-, hs⟩ | ⟨-, hs⟩ | ⟨list, target, -, hs⟩ | ⟨-, hs⟩
  · rw [hs]; rfl
  · rw [hs]
  · rw [hs]
  · rw [hs]; exact (backpatch_frame list target b).1
  · rw [hs]; rfl

theorem limit_performAll (actions : List Action) :
    ∀ b : Builder, (b.performAll actions).limit = b.limit := by
  induction actions with
  | nil => intro b; rfl
  | cons a actions ih =>
    intro b
    have hfirst := limit_perform b a
    rw [performAll_cons, ih, hfirst]

/-- Unrolling never reports a line of a script. -/
theorem unroll_result_later (b : Builder) (start stop : ℕ) (times : ℤ) (n : ℕ) :
    (b.unroll start stop times).result.mapError (Error.later n) =
      (b.unroll start stop times).result := by
  cases h : (b.unroll start stop times).result with
  | ok a => rfl
  | error e =>
    rcases unroll_of_error h with ⟨rfl, -⟩ | ⟨rfl, -⟩
    · rfl
    · rfl

end Builder

namespace Script

namespace Replay

variable {r : Replay} {n : ℕ}

/-- The replay with `n` more lines read. -/
def later (n : ℕ) (r : Replay) : Replay := { r with line := r.line + n }

@[simp] theorem builder_later (n : ℕ) (r : Replay) : (r.later n).builder = r.builder := rfl

@[simp] theorem lists_later (n : ℕ) (r : Replay) : (r.later n).lists = r.lists := rfl

theorem advance_later (n : ℕ) (r : Replay) : (r.later n).advance = r.advance.later n := by
  have hline : r.line + n + 1 = r.line + 1 + n := by omega
  unfold advance later
  simp only [hline]

theorem resolve_later (n : ℕ) (r : Replay) (place : Place) :
    (r.later n).resolve place = r.resolve place := by
  cases place <;> rfl

/-! ## Running further down -/

/-- A command does the same further down. -/
theorem perform_later (n : ℕ) (r : Replay) (c : Command) :
    ((r.later n).perform c).result = (r.perform c).result.mapError (Error.later n) ∧
      ((r.later n).perform c).state = (r.perform c).state.later n := by
  cases c with
  | emit mnemonic arg1 arg2 dest list =>
    by_cases hroom : r.builder.length < r.builder.limit
    · have hroom' : (r.later n).builder.length < (r.later n).builder.limit := hroom
      rw [perform_emit_of_room hroom, perform_emit_of_room hroom']
      cases list <;> exact ⟨rfl, rfl⟩
    · have hfull : ¬ (r.later n).builder.length < (r.later n).builder.limit := hroom
      rw [perform_emit_of_full hroom, perform_emit_of_full hfull]
      exact ⟨rfl, rfl⟩
  | patch name target =>
    cases hget : r.lists.get? name with
    | none =>
      have hget' : (r.later n).lists.get? name = none := hget
      rw [perform_patch_of_none hget, perform_patch_of_none hget']
      exact ⟨rfl, rfl⟩
    | some list =>
      have hget' : (r.later n).lists.get? name = some list := hget
      rw [perform_patch_of_some hget, perform_patch_of_some hget', resolve_later]
      exact ⟨rfl, rfl⟩
  | unroll start stop times =>
    have hresult := Builder.unroll_result_later r.builder start (r.resolve stop) times n
    simp only [perform, Outcome.result_within, Outcome.state_within, resolve_later, hresult]
    exact ⟨rfl, rfl⟩
  | temporary => exact ⟨rfl, rfl⟩
  | label => exact ⟨rfl, rfl⟩
  | merge into source => exact ⟨rfl, rfl⟩
  | reset => exact ⟨rfl, rfl⟩

/-- **A line does the same further down**, where its error names a later line. -/
theorem step_later (n : ℕ) (r : Replay) (text : List Char) :
    ((r.later n).step text).result = (r.step text).result.mapError (Error.later n) ∧
      ((r.later n).step text).state = (r.step text).state.later n := by
  show ((r.later n).advance.execute text).result = (r.advance.execute text).result.mapError _ ∧
    ((r.later n).advance.execute text).state = (r.advance.execute text).state.later n
  rw [advance_later]
  unfold execute
  cases statement? text with
  | none => exact ⟨rfl, rfl⟩
  | some s =>
    obtain ⟨word, arguments⟩ := s
    simp only [Outcome.result_after, Outcome.state_after]
    cases Command.ofWords word arguments with
    | error fault => exact ⟨rfl, rfl⟩
    | ok command => exact perform_later n r.advance command

/-- **Lines do the same further down.** -/
theorem runLines_later (n : ℕ) (texts : List (List Char)) :
    ∀ r : Replay,
      ((r.later n).runLines texts).result = (r.runLines texts).result.mapError (Error.later n) ∧
      ((r.later n).runLines texts).state = (r.runLines texts).state.later n := by
  induction texts with
  | nil => intro r; exact ⟨rfl, rfl⟩
  | cons text texts ih =>
    intro r
    obtain ⟨hres, hstate⟩ := step_later n r text
    cases hfirst : (r.step text).result with
    | error e =>
      rw [hfirst] at hres
      have hhere := Outcome.andThen_of_error hfirst fun _ r => r.runLines texts
      have hthere := Outcome.andThen_of_error hres fun _ r => r.runLines texts
      rw [runLines, runLines, hhere.1, hhere.2, hthere.1, hthere.2]
      exact ⟨rfl, hstate⟩
    | ok a =>
      rw [hfirst] at hres
      have hhere := Outcome.andThen_of_ok hfirst fun _ r => r.runLines texts
      have hthere := Outcome.andThen_of_ok hres fun _ r => r.runLines texts
      rw [runLines, runLines, hhere.1, hhere.2, hthere.1, hthere.2, hstate]
      exact ih (r.step text).state

theorem run_later (n : ℕ) (r : Replay) (source : String) :
    ((r.later n).run source).result = (r.run source).result.mapError (Error.later n) ∧
      ((r.later n).run source).state = (r.run source).state.later n := by
  obtain ⟨hres, hstate⟩ := run_eq_runLines r source
  obtain ⟨hres', hstate'⟩ := run_eq_runLines (r.later n) source
  rw [hres, hstate, hres', hstate']
  exact runLines_later n _ r

/-! ## After a reset -/

theorem limit_follow (texts : List (List Char)) :
    ∀ r : Replay, (r.follow texts).builder.limit = r.builder.limit := by
  induction texts with
  | nil => intro r; rfl
  | cons text texts ih =>
    intro r
    have hfirst : (r.step text).state.builder.limit = r.builder.limit := by
      rw [builder_step]; exact Builder.limit_performAll _ _
    rw [follow_cons, ih, hfirst]

theorem step_reset {text : List Char} (h : Command.ofLine? text = some .reset) :
    (r.step text).state = (ofBuilder (.empty r.builder.limit)).later (r.line + 1) := by
  have hline : 0 + (r.line + 1) = r.line + 1 := Nat.zero_add _
  unfold later
  rcases step_cases r text with ⟨hc, -⟩ | ⟨_, _, _, hc, -⟩ | ⟨_, _, c, hc, hs⟩
  · rw [h] at hc; cases hc
  · rw [h] at hc; cases hc
  · rw [h] at hc
    obtain rfl := Option.some.inj hc
    rw [hs, Outcome.state_after]
    simp only [ofBuilder, hline]
    rfl

/-- **A script that ends with a reset** leaves a fresh replay, as many lines further down as the script
has. -/
theorem run_of_reset {unit : String} (hrun : (r.run unit).result = .ok ())
    {text : List Char} (hlast : (Text.lines unit.toList).getLast? = some text)
    (hreset : Command.ofLine? text = some .reset) :
    (r.run unit).state =
      (ofBuilder (.empty r.builder.limit)).later (r.line + (Text.lines unit.toList).length) := by
  obtain ⟨before, hlines⟩ := List.getLast?_eq_some_iff.1 hlast
  obtain ⟨hres, hstate⟩ := run_eq_runLines r unit
  have hlimit := limit_follow before r
  have hline := line_follow before r
  rw [hstate, runLines_of_ok _ (hres.symm.trans hrun), hlines, follow_append, follow_cons,
    step_reset hreset, hlimit, hline, List.length_append, List.length_singleton, Nat.add_assoc]
  rfl

end Replay

open Replay

/-- **A reset isolates compilation units.** Let a script succeed on any builder, from a fresh replay on,
and end with a reset. Whatever script comes next, it leaves the builder, hence the code, the counters
and the listing, and the lists in their order as if it were run by a fresh replay on a new builder with
the same limit. Both runs of it succeed, or both fail with the same error, except that a line number is
larger by the number of lines of the first script. -/
theorem reset_isolates_units (b : Builder) (unit next : String) (text : List Char)
    (hrun : ((ofBuilder b).run unit).result = .ok ())
    (hlast : (Text.lines unit.toList).getLast? = some text)
    (hreset : Command.ofLine? text = some .reset) :
    let after := ((ofBuilder b).run unit).state.run next
    let alone := (ofBuilder (Builder.new b.limit).value).run next
    after.state.builder = alone.state.builder ∧ after.state.lists = alone.state.lists ∧
    after.state.builder.listing = alone.state.builder.listing ∧
    (after.result = .ok () ∧ alone.result = .ok () ∨
      ∃ e, alone.result = .error e ∧
        after.result = .error (e.later (Text.lines unit.toList).length)) := by
  intro after alone
  set n := (Text.lines unit.toList).length
  have hstart : ((ofBuilder b).run unit).state = (ofBuilder (Builder.new b.limit).value).later n := by
    have h := run_of_reset hrun hlast hreset
    have hline : (ofBuilder b).line + n = n := Nat.zero_add n
    rw [hline] at h
    exact h
  obtain ⟨hres, hstate⟩ : after.result = alone.result.mapError (Error.later n) ∧
      after.state = alone.state.later n := by
    have h := run_later n (ofBuilder (Builder.new b.limit).value) next
    rw [← hstart] at h
    exact h
  have hbuilder : after.state.builder = alone.state.builder := by rw [hstate, builder_later]
  have hlists : after.state.lists = alone.state.lists := by rw [hstate, lists_later]
  refine ⟨hbuilder, hlists, congrArg Builder.listing hbuilder, ?_⟩
  rw [hres]
  cases alone.result with
  | ok a => exact Or.inl ⟨rfl, rfl⟩
  | error e => exact Or.inr ⟨e, rfl, rfl⟩

/-- A unit that leaves code, names and lists behind it, and one that asks for one of these lists. -/
theorem reset_isolates_units_lists :
    let b : Builder := ⟨4, #[.ofText "HALT" none none none], 7, 3⟩
    let unit := "emit GOTO -> exit\ntemp\nmerge all exit\n  reset\r\n"
    let next := "label\nemit IF LTI | x | 5 -> true\npatch all here"
    let after := ((ofBuilder b).run unit).state.run next
    let alone := (ofBuilder (Builder.new b.limit).value).run next
    ((ofBuilder b).run unit).result = .ok () ∧ after.state.builder = alone.state.builder ∧
    after.state.lists = alone.state.lists ∧
    alone.result = .error (.script (.unknownList "all") 3) ∧
    after.result = .error (.script (.unknownList "all") 7) := by
  intro b unit next after alone
  have hrun : ((ofBuilder b).run unit).result = .ok () := by decide +kernel
  have hlast : (Text.lines unit.toList).getLast? = some "  reset".toList := by decide +kernel
  have hlength : (Text.lines unit.toList).length = 4 := by decide +kernel
  have hreset : Command.ofLine? "  reset".toList = some .reset := by decide +kernel
  have halone : alone.result = .error (.script (.unknownList "all") 3) := by decide +kernel
  obtain ⟨hbuilder, hlists, -, hresult⟩ := reset_isolates_units b unit next _ hrun hlast hreset
  refine ⟨hrun, hbuilder, hlists, halone, ?_⟩
  rcases hresult with ⟨-, hok⟩ | ⟨e, he, hafter⟩
  · cases halone.symm.trans hok
  · obtain rfl := Except.error.inj (halone.symm.trans he)
    rw [hlength] at hafter
    exact hafter

end Script

end ThreeAddress
