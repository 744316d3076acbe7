import ThreeAddress.Proofs.Execution
import ThreeAddress.Proofs.Unrolling

/-!
# Lines that fail

A script line checks everything before it changes anything. The one exception is unrolling, which
appends copy after copy and may run out of room in between.

* `Builder.RunsOut`: an unrolling that finishes as many copies as fit, and not all.
* `Replay.perform_of_error`: **everything that a failing command can leave behind.** That is the state
  it found, or the finished copies of an unrolling that ran out of room.
* `Replay.step_of_script_error`: a line that is refused as a line of a script leaves the state it found.
* `failing_line_changes_nothing`: what this means for the parts of the state, line by line.
-/

namespace ThreeAddress

namespace Builder

variable {b : Builder} {start stop : ℕ} {times : ℤ} {e : Error}

/-- How many more instructions fit. -/
def room (b : Builder) : ℕ := b.limit - b.length

/-- An unrolling that **runs out of room**: of the copies that are asked for, `k` are finished, as many
as fit. -/
structure RunsOut (b : Builder) (start stop : ℕ) (times : ℤ) (k : ℕ) : Prop where
  repeats : b.Repeats start stop times
  unfinished : (k : ℤ) < times
  largest : IsGreatest {j | j * (stop - start) ≤ b.room} k

/-- If not all copies are finished, those that are finished are as many as fit. -/
theorem runsOut_copyCount (hrep : b.Repeats start stop times)
    (hne : b.copyCount start stop times ≠ times.toNat) :
    b.RunsOut start stop times (b.copyCount start stop times) := by
  have htimes := hrep.1
  have hlt := hrep.2.2.1
  have hm : 0 < stop - start := by omega
  have hcount : b.copyCount start stop times = min times.toNat (b.room / (stop - start)) := by
    rw [copyCount, if_pos hrep]; rfl
  have hdiv : b.copyCount start stop times = b.room / (stop - start) := by omega
  refine ⟨hrep, by omega, ?_⟩
  rw [hdiv]
  refine ⟨Nat.div_mul_le_self _ _, ?_⟩
  intro j hj
  exact (Nat.le_div_iff_mul_le hm).2 hj

/-- **An unrolling that fails** either does nothing, because of its range, or runs out of room. -/
theorem unroll_of_error (h : (b.unroll start stop times).result = .error e) :
    (e = .invalidRange start stop b.next ∧ (b.unroll start stop times).state = b) ∨
    (e = .capacityExceeded b.limit ∧ ∃ k, b.RunsOut start stop times k ∧
      (b.unroll start stop times).state =
        b.append (copies start stop (b.range start stop) k b.next)) := by
  by_cases hrep : b.Repeats start stop times
  · right
    rw [unroll_result hrep] at h
    split at h
    · cases h
    · rename_i hne
      have he : e = .capacityExceeded b.limit := (Except.error.inj h).symm
      exact ⟨he, _, runsOut_copyCount hrep hne, unroll_state b start stop times⟩
  · left
    refine ⟨?_, unroll_state_of_not_repeats hrep⟩
    -- a range that is not repeated is either skipped without an error or refused
    rw [unroll_result_of_not_repeats hrep] at h
    split at h
    · cases h
    · exact (Except.error.inj h).symm

end Builder

namespace Script

variable {r : Replay} {text : List Char} {e : Error}

namespace Replay

/-- The replay with `k` relocated copies of a range behind its code. -/
def withCopies (r : Replay) (start stop k : ℕ) : Replay :=
  r.withBuilder (r.builder.append
    (Builder.copies start stop (r.builder.range start stop) k r.builder.next))

/-- **Everything that a failing command can leave behind.** A refusal that belongs to the script names
the current line. -/
theorem perform_of_error {c : Command} (h : (r.perform c).result = .error e) :
    ((r.perform c).state = r ∧ (∀ fault n, e = .script fault n → n = r.line) ∧
      ∀ start stop times limit, c = .unroll start stop times → e ≠ .capacityExceeded limit) ∨
    ∃ start stop times k, c = .unroll start stop times ∧ e = .capacityExceeded r.builder.limit ∧
      r.builder.RunsOut start (r.resolve stop) times k ∧
      (r.perform c).state = r.withCopies start (r.resolve stop) k := by
  cases c with
  | emit mnemonic arg1 arg2 dest list =>
    by_cases hroom : r.builder.length < r.builder.limit
    · rw [perform_emit_of_room hroom] at h; cases h
    · rw [perform_emit_of_full hroom] at h ⊢
      have he : e = .capacityExceeded r.builder.limit := (Except.error.inj h).symm
      exact Or.inl ⟨rfl, by simp [he], by simp⟩
  | temporary => cases h
  | label => cases h
  | merge into source => cases h
  | patch name target =>
    cases hget : r.lists.get? name with
    | none =>
      rw [perform_patch_of_none hget] at h ⊢
      have he : e = .script (.unknownList name) r.line := (Except.error.inj h).symm
      exact Or.inl ⟨rfl, by simp [he], by simp⟩
    | some list => rw [perform_patch_of_some hget] at h; cases h
  | unroll start stop times =>
    rcases Builder.unroll_of_error h with ⟨he, hs⟩ | ⟨he, k, hk, hs⟩
    · exact Or.inl ⟨congrArg r.withBuilder hs, by simp [he], by simp [he]⟩
    · exact Or.inr ⟨start, stop, times, k, rfl, he, hk, congrArg r.withBuilder hs⟩
  | reset => cases h

/-- The same for the current line. -/
theorem execute_of_error (h : (r.execute text).result = .error e) :
    ((r.execute text).state = r ∧ (∀ fault n, e = .script fault n → n = r.line) ∧
      ∀ start stop times limit, Command.ofLine? text = some (.unroll start stop times) →
        e ≠ .capacityExceeded limit) ∨
    ∃ start stop times k, Command.ofLine? text = some (.unroll start stop times) ∧
      e = .capacityExceeded r.builder.limit ∧ r.builder.RunsOut start (r.resolve stop) times k ∧
      (r.execute text).state = r.withCopies start (r.resolve stop) k := by
  rcases execute_cases r text with ⟨hc, hs⟩ | ⟨_, _, fault, hc, hs⟩ | ⟨_, _, c, hc, hs⟩
  · rw [hs] at h; cases h
  · rw [hs] at h ⊢
    have he : e = .script fault r.line := (Except.error.inj h).symm
    exact Or.inl ⟨rfl, by simp [he], by simp [hc]⟩
  · rw [hs, Outcome.result_after] at h
    rw [hs, hc, Outcome.state_after]
    rcases perform_of_error h with ⟨hstate, hline, hne⟩ | ⟨start, stop, times, k, rfl, he, hk, hstate⟩
    · refine Or.inl ⟨hstate, hline, ?_⟩
      intro start stop times limit heq
      exact hne start stop times limit (Option.some.inj heq)
    · exact Or.inr ⟨start, stop, times, k, rfl, he, hk, hstate⟩

/-- **A line that is refused as part of a script** is the one just read, and leaves the state alone. -/
theorem step_of_script_error {fault : Fault} {n : ℕ}
    (h : (r.step text).result = .error (.script fault n)) :
    n = r.line + 1 ∧ (r.step text).state = r.advance := by
  rcases execute_of_error (r := r.advance) h with ⟨hs, hline, -⟩ | ⟨_, _, _, _, -, he, -⟩
  · exact ⟨hline fault n rfl, hs⟩
  · cases he

end Replay

open Replay

/-- **A failing line changes nothing**, whatever line it is and in whatever state: the lists with their
order, the line count, the counters of names and the limit are as before, and so is the code. Only an
unrolling that exceeds the limit leaves something behind: the copies of its range that it finished, as many
as fit. In them a jump into the range goes to the copy of its target, and every other instruction is as it
was. -/
theorem failing_line_changes_nothing (r : Replay) (text : List Char) (e : Error)
    (h : (r.execute text).result = .error e) :
    let r' := (r.execute text).state
    r'.lists = r.lists ∧ r'.line = r.line ∧ r'.builder.temporaries = r.builder.temporaries ∧
    r'.builder.labels = r.builder.labels ∧ r'.builder.limit = r.builder.limit ∧
    ((∀ start stop times limit, Command.ofLine? text = some (.unroll start stop times) →
        e ≠ .capacityExceeded limit) →
      r'.builder.quads = r.builder.quads) ∧
    ∀ start stop times limit, Command.ofLine? text = some (.unroll start stop times) →
      e = .capacityExceeded limit →
      let m := r.resolve stop - start
      ∃ k, r.builder.RunsOut start (r.resolve stop) times k ∧
        r'.builder.quads = r.builder.quads ++ Builder.copies start (r.resolve stop)
          (r.builder.range start (r.resolve stop)) k r.builder.next ∧
        r'.builder.length = r.builder.length + k * m ∧
        ∀ i j, 1 ≤ i → i ≤ k → j < m → ∃ q q', r.builder.quad? (start + j) = some q ∧
          r'.builder.quad? (r.builder.length + 1 + (i - 1) * m + j) = some q' ∧
          (∀ t, q.JumpsInto start (r.resolve stop) t →
            q' = { q with dest := .target (t + (r.builder.length + 1 + (i - 1) * m - start)) }) ∧
          ((∀ t, ¬ q.JumpsInto start (r.resolve stop) t) → q' = q) := by
  intro r'
  rcases execute_of_error h with ⟨hs, -, hne⟩ | ⟨start, stop, times, k, hc, he, hk, hs⟩
  · have hr : r' = r := hs
    rw [hr]
    refine ⟨rfl, rfl, rfl, rfl, rfl, fun _ => rfl, ?_⟩
    intro start stop times limit hc he
    exact absurd he (hne start stop times limit hc)
  · have hr : r' = r.withCopies start (r.resolve stop) k := hs
    rw [hr]
    refine ⟨rfl, rfl, rfl, rfl, rfl, ?_, ?_⟩
    · intro hnot
      exact absurd he (hnot start stop times _ hc)
    · intro start' stop' times' limit hc' _
      have hsame := Option.some.inj (hc.symm.trans hc')
      obtain ⟨rfl, rfl, rfl⟩ := Command.unroll.inj hsame
      obtain ⟨-, hstart, -, hstop⟩ := hk.repeats
      refine ⟨k, hk, Builder.quads_append _ _, ?_, fun i j hi1 hi2 hj => ?_⟩
      · show (Builder.append _ _).length = _
        rw [Builder.length_append, Builder.length_copies, Builder.length_range hstart hstop]
      · exact Builder.exists_copied_quad hstart hstop hi1 hi2 hj

/-- A buffer with room for two more copies of its loop, and a line that asks for nine; then a line that
patches a list that is not there. -/
theorem failing_line_changes_nothing_loop :
    let r : Replay := ⟨⟨8, #[.ofText ":=" (some "0") none (some "i"),
      .ofText "ADDI" (some "i") (some "1") (some "i"), .ofText "IF LTI" (some "i") (some "9") (some "2")],
      4, 2⟩, ⟨[("exit", ⟨[3]⟩), ("next", ⟨[]⟩)]⟩, 6⟩
    let unrolled := r.execute "unroll 2 here 9".toList
    let refused := r.execute "patch loop here".toList
    unrolled.result = .error (.capacityExceeded 8) ∧ unrolled.state.lists = r.lists ∧
    unrolled.state.builder.length = 7 ∧
    unrolled.state.builder.quad? 7 = some (.ofText "IF LTI" (some "i") (some "9") (some "6")) ∧
    refused.result = .error (.script (.unknownList "loop") 6) ∧
    refused.state.builder.quads = r.builder.quads := by
  intro r unrolled refused
  have hunrolled : unrolled.result = .error (.capacityExceeded 8) := by decide +kernel
  have hrefused : refused.result = .error (.script (.unknownList "loop") 6) := by decide +kernel
  have hc : Command.ofLine? "unroll 2 here 9".toList = some (.unroll 2 .here 9) := by decide +kernel
  obtain ⟨hlists, -, -, -, -, -, hcopies⟩ := failing_line_changes_nothing r _ _ hunrolled
  obtain ⟨-, -, -, -, -, hquads, -⟩ := failing_line_changes_nothing r _ _ hrefused
  obtain ⟨k, hk, -, hlength, hcopies⟩ := hcopies 2 .here 9 8 hc rfl
  -- two copies of two instructions fit into the room for five
  have htwo : k = 2 := by
    have hfits : k * 2 ≤ 5 := hk.largest.1
    have hmost : 2 ≤ k := hk.largest.2 (show 2 * 2 ≤ 5 by decide)
    omega
  rw [htwo] at hlength
  obtain ⟨q, q', hq, hq', hjump, -⟩ := hcopies 2 1 (by decide) (by rw [htwo]) (by decide)
  obtain rfl : Quad.ofText "IF LTI" (some "i") (some "9") (some "2") = q := Option.some.inj hq
  have hinto : (Quad.ofText "IF LTI" (some "i") (some "9") (some "2")).JumpsInto 2 4 2 :=
    ⟨isJump_iff.1 (by decide), by decide, by decide, by decide⟩
  have hcopy : q' = .ofText "IF LTI" (some "i") (some "9") (some "6") := (hjump 2 hinto).trans (by decide)
  rw [hcopy] at hq'
  exact ⟨hunrolled, hlists, hlength, hq', hrefused, hquads (by simp)⟩

end Script

end ThreeAddress
