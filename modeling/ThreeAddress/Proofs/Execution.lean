import ThreeAddress.Proofs.Code
import ThreeAddress.Script.Replay

/-!
# Executions of scripts

A replay reads the lines of its scripts one by one. The lines that it carries out are those up to the
first failing one of each script (`executed`, `executedIn`), and `follow` goes through them whether
they succeed or not.

* `decode`: what a line says can be told from its text alone: nothing, a command, or why it is no command.
* `execute_cases`, `step_cases`: **everything that a line can do**. Either it holds no command, and
  nothing but the line count changes, or its command is performed.
* `runs_eq_follow`: the state after any number of scripts is the state after their executed lines,
  so that what every line preserves holds after every script, failed ones included.
-/

namespace ThreeAddress.Script

/-- What the text of a line says. -/
inductive Decoded where
  /-- The line is blank or a comment. -/
  | ignored
  | faulty (fault : Fault)
  | command (c : Command)
deriving DecidableEq, Repr

/-- The command, if there is one. -/
def Decoded.command? : Decoded → Option Command
  | ignored => none
  | faulty _ => none
  | command c => some c

/-- **What a line says**, as far as its text tells. -/
def decode (text : List Char) : Decoded :=
  match statement? text with
  | none => .ignored
  | some (word, arguments) =>
    match Command.ofWords word arguments with
    | .error fault => .faulty fault
    | .ok c => .command c

/-- What `decode` finds, part by part. -/
theorem decode_cases (text : List Char) :
    (statement? text = none ∧ decode text = .ignored) ∨
    ∃ word arguments, statement? text = some (word, arguments) ∧
      ((∃ fault, Command.ofWords word arguments = .error fault ∧ decode text = .faulty fault) ∨
        ∃ c, Command.ofWords word arguments = .ok c ∧ decode text = .command c) := by
  unfold decode
  cases hs : statement? text with
  | none => exact Or.inl ⟨rfl, rfl⟩
  | some s =>
    obtain ⟨word, arguments⟩ := s
    refine Or.inr ⟨word, arguments, rfl, ?_⟩
    cases hw : Command.ofWords word arguments with
    | error fault => exact Or.inl ⟨fault, rfl, by simp only [hw]⟩
    | ok c => exact Or.inr ⟨c, rfl, by simp only [hw]⟩

/-- The command on a line, if the line has one and it can be read. -/
def Command.ofLine? (text : List Char) : Option Command := (decode text).command?

/-- The command on a line is the one that the line says. -/
theorem ofLine?_eq_some_iff {text : List Char} {c : Command} :
    Command.ofLine? text = some c ↔ decode text = .command c := by
  unfold Command.ofLine?
  cases decode text with
  | ignored => simp [Decoded.command?]
  | faulty fault => simp [Decoded.command?]
  | command c' => simp [Decoded.command?]

namespace Replay

/-- The replay with one more line read. -/
def advance (r : Replay) : Replay := { r with line := r.line + 1 }

/-- **Everything that a line can do**, when it is the current one. -/
theorem execute_cases (r : Replay) (text : List Char) :
    (Command.ofLine? text = none ∧ r.execute text = .ok () r []) ∨
    (∃ word arguments fault, Command.ofLine? text = none ∧
      r.execute text = .fail (.script fault r.line) r [.replayed r.line word arguments]) ∨
    (∃ word arguments command, Command.ofLine? text = some command ∧
      r.execute text = (r.perform command).after [.replayed r.line word arguments]) := by
  unfold execute Command.ofLine?
  rcases decode_cases text with ⟨hs, hd⟩ | ⟨word, arguments, hs, ⟨fault, hw, hd⟩ | ⟨command, hw, hd⟩⟩
  · rw [hs, hd]
    exact Or.inl ⟨rfl, rfl⟩
  · refine Or.inr (Or.inl ⟨word, String.ofList arguments, fault, by rw [hd]; rfl, ?_⟩)
    simp only [hs, hw]; rfl
  · refine Or.inr (Or.inr ⟨word, String.ofList arguments, command, by rw [hd]; rfl, ?_⟩)
    simp only [hs, hw]

/-- The same for a line that is read next. -/
theorem step_cases (r : Replay) (text : List Char) :
    (Command.ofLine? text = none ∧ r.step text = .ok () r.advance []) ∨
    (∃ word arguments fault, Command.ofLine? text = none ∧
      r.step text = .fail (.script fault (r.line + 1)) r.advance
        [.replayed (r.line + 1) word arguments]) ∨
    (∃ word arguments command, Command.ofLine? text = some command ∧
      r.step text =
        (r.advance.perform command).after [.replayed (r.line + 1) word arguments]) :=
  execute_cases r.advance text

/-! ## What each command does -/

variable {r : Replay}

theorem perform_emit_of_room (h : r.builder.length < r.builder.limit) (mnemonic : String)
    (arg1 arg2 dest list : Option String) :
    r.perform (.emit mnemonic arg1 arg2 dest list) =
      .ok () ((r.withBuilder (r.builder.append [.ofText mnemonic arg1 arg2 dest])).note list
        r.builder.next) [.emitted r.builder.next (.ofText mnemonic arg1 arg2 dest)] := by
  simp only [perform, Builder.emit_of_room h]; rfl

theorem perform_emit_of_full (h : ¬ r.builder.length < r.builder.limit) (mnemonic : String)
    (arg1 arg2 dest list : Option String) :
    r.perform (.emit mnemonic arg1 arg2 dest list) =
      .fail (.capacityExceeded r.builder.limit) r
        [.noRoom r.builder.length 1 r.builder.limit] := by
  simp only [perform, Builder.emit_of_full h]; rfl

theorem perform_patch_of_none {name : String} (h : r.lists.get? name = none) (target : Place) :
    r.perform (.patch name target) = .fail (.script (.unknownList name) r.line) r [] := by
  simp only [perform, h]; rfl

theorem perform_patch_of_some {name : String} {list : PendingList} (h : r.lists.get? name = some list)
    (target : Place) :
    r.perform (.patch name target) =
      .ok () ⟨(r.builder.backpatch list (r.resolve target)).value, r.lists.erase name, r.line⟩
        (r.builder.backpatch list (r.resolve target)).log := by
  simp only [perform, h]

/-! ## Executed lines -/

/-- The lines that are carried out: all up to the first that fails, which is the last of them. -/
def executed (r : Replay) : List (List Char) → List (List Char)
  | [] => []
  | text :: texts =>
    match (r.step text).result with
    | .ok _ => text :: (r.step text).state.executed texts
    | .error _ => [text]

/-- The replay after the given lines, whether they fail or not. -/
def follow (r : Replay) (texts : List (List Char)) : Replay :=
  texts.foldl (fun r text => (r.step text).state) r

/-- The replay after the given scripts, whether they fail or not. -/
def runs (r : Replay) (sources : List String) : Replay :=
  sources.foldl (fun r source => (r.run source).state) r

/-- The lines that are carried out in the course of the given scripts. -/
def executedIn (r : Replay) : List String → List (List Char)
  | [] => []
  | source :: sources =>
    r.executed (Text.lines source.toList) ++ (r.run source).state.executedIn sources

theorem follow_append (r : Replay) (xs ys : List (List Char)) :
    r.follow (xs ++ ys) = (r.follow xs).follow ys := List.foldl_append

theorem follow_cons (r : Replay) (text : List Char) (texts : List (List Char)) :
    r.follow (text :: texts) = (r.step text).state.follow texts := rfl

theorem runLines_state (texts : List (List Char)) :
    ∀ r : Replay, (r.runLines texts).state = r.follow (r.executed texts) := by
  induction texts with
  | nil => intro r; rfl
  | cons text texts ih =>
    intro r
    unfold runLines executed Outcome.andThen
    -- a failing line is the last one that either side looks at
    cases hr : (r.step text).result with
    | error e => rfl
    | ok a => simp only; rw [ih, follow_cons]

theorem run_state (r : Replay) (source : String) :
    (r.run source).state = r.follow (r.executed (Text.lines source.toList)) := by
  rw [← runLines_state]
  unfold run Outcome.andThen
  cases (r.runLines (Text.lines source.toList)).result <;> rfl

/-- **The state after scripts** is the state after their executed lines. -/
theorem runs_eq_follow (sources : List String) :
    ∀ r : Replay, r.runs sources = r.follow (r.executedIn sources) := by
  induction sources with
  | nil => intro r; rfl
  | cons source sources ih =>
    intro r
    have h := ih (r.run source).state
    rw [executedIn, follow_append, ← run_state, ← h]
    rfl

end Replay

end ThreeAddress.Script
