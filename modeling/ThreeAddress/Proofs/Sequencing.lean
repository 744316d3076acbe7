import ThreeAddress.Proofs.Failure

/-!
# Scripts in sequence

A script can be cut behind any of its line feeds and run in two parts. So the lines before a failing
one are a script of their own, one that succeeds, and what follows the failing line does not matter.

* `Text.Ended`, `Text.firstLines`: texts that can be cut, and the text of the first lines.
* `Text.lines_append`, `Text.lines_firstLines`: **the lines of the parts are the lines of the whole.**
* `Replay.runLines_append`: running lines in two parts.
* `Replay.runLines_of_error`: **a run that fails** succeeds up to a line and ends with that line.
* `scripts_in_sequence`: both for scripts, with the line numbers that errors report.
-/

namespace ThreeAddress

namespace Text

variable {cs l : List Char}

/-- A text whose last line, if it has one, is closed by a line feed. -/
def Ended (cs : List Char) : Prop := cs = [] ∨ cs.getLast? = some '\n'

/-- The text of the first `k` lines, line feeds included. -/
def firstLines : ℕ → List Char → List Char
  | 0, _ => []
  | _ + 1, [] => []
  | k + 1, c :: cs => c :: firstLines (if c = '\n' then k else k + 1) cs

/-! ## A text line by line -/

theorem lines_of_not_mem (hl : '\n' ∉ l) (hne : l ≠ []) : lines l = [l] := by
  unfold lines
  rw [List.splitOn_eq_singleton hl]
  simp [Option.filter, hne]

/-- The first line, if a line feed closes it. -/
theorem lines_feed (hl : '\n' ∉ l) (rest : List Char) :
    lines (l ++ '\n' :: rest) = dropReturn l :: lines rest := by
  have hne : rest.splitOn '\n' ≠ [] := List.splitOn_ne_nil _ _
  unfold lines
  rw [List.splitOn_append_cons_self_of_not_mem hl]
  simp only [List.dropLast_cons_of_ne_nil hne, List.getLast?_cons_of_ne_nil hne, List.map_cons,
    List.cons_append]

/-- A text is empty, or a line that nothing closes, or a closed line in front of a text. -/
@[elab_as_elim]
theorem line_induction {motive : List Char → Prop} (nil : motive [])
    (last : ∀ l, '\n' ∉ l → l ≠ [] → motive l)
    (feed : ∀ l rest, '\n' ∉ l → motive rest → motive (l ++ '\n' :: rest)) :
    ∀ cs, motive cs := by
  intro cs
  induction h : cs.length using Nat.strong_induction_on generalizing cs with
  | _ n ih =>
    by_cases hmem : '\n' ∈ cs
    · obtain ⟨l, rest, rfl, hl⟩ := List.eq_append_cons_of_mem hmem
      have hlt : rest.length < n := by rw [← h]; simp; omega
      exact feed l rest hl (ih rest.length hlt rest rfl)
    · by_cases hne : cs = []
      · rw [hne]; exact nil
      · exact last cs hmem hne

theorem not_ended (hl : '\n' ∉ l) (hne : l ≠ []) : ¬ Ended l := by
  rintro (h | h)
  · exact hne h
  · exact hl (List.mem_of_getLast? h)

theorem ended_feed_iff {rest : List Char} : Ended (l ++ '\n' :: rest) ↔ Ended rest := by
  unfold Ended
  rw [List.getLast?_append_of_ne_nil _ (by simp)]
  cases rest with
  | nil => simp
  | cons c rest => simp [List.getLast?_cons_cons]

/-- **The lines of two texts**, the first of which is closed. -/
theorem lines_append (h : Ended cs) (ds : List Char) : lines (cs ++ ds) = lines cs ++ lines ds := by
  induction cs using line_induction with
  | nil => rfl
  | last l hl hne => exact absurd h (not_ended hl hne)
  | feed l rest hl ih =>
    rw [List.append_assoc, List.cons_append, lines_feed hl, lines_feed hl, ih (ended_feed_iff.1 h),
      List.cons_append]

theorem firstLines_zero (cs : List Char) : firstLines 0 cs = [] := by
  rw [firstLines]

theorem firstLines_of_not_mem (hl : '\n' ∉ l) (k : ℕ) : firstLines (k + 1) l = l := by
  induction l with
  | nil => rfl
  | cons c l ih =>
    rw [List.mem_cons, not_or] at hl
    have hc : c ≠ '\n' := fun h => hl.1 h.symm
    rw [firstLines, if_neg hc, ih hl.2]

theorem firstLines_feed (hl : '\n' ∉ l) (k : ℕ) (rest : List Char) :
    firstLines (k + 1) (l ++ '\n' :: rest) = l ++ '\n' :: firstLines k rest := by
  induction l with
  | nil => rfl
  | cons c l ih =>
    rw [List.mem_cons, not_or] at hl
    have hc : c ≠ '\n' := fun h => hl.1 h.symm
    rw [List.cons_append, firstLines, if_neg hc, ih hl.2, List.cons_append]

/-- **The text of the first lines** has these lines. -/
theorem lines_firstLines (cs : List Char) : ∀ k, lines (firstLines k cs) = (lines cs).take k := by
  induction cs using line_induction with
  | nil => intro k; cases k <;> rfl
  | last l hl hne =>
    intro k
    rw [lines_of_not_mem hl hne]
    cases k with
    | zero => rw [firstLines_zero]; rfl
    | succ k => rw [firstLines_of_not_mem hl, lines_of_not_mem hl hne, List.take_succ_cons, List.take_nil]
  | feed l rest hl ih =>
    intro k
    rw [lines_feed hl]
    cases k with
    | zero => rw [firstLines_zero]; rfl
    | succ k => rw [firstLines_feed hl, lines_feed hl, ih, List.take_succ_cons]

end Text

namespace Script

namespace Replay

variable {r : Replay} {e : Error}

/-! ## The line count -/

theorem line_perform (r : Replay) (c : Command) : (r.perform c).state.line = r.line := by
  cases c with
  | emit mnemonic arg1 arg2 dest list =>
    by_cases hroom : r.builder.length < r.builder.limit
    · rw [perform_emit_of_room hroom]; cases list <;> rfl
    · rw [perform_emit_of_full hroom]; rfl
  | patch name target =>
    cases hget : r.lists.get? name with
    | none => rw [perform_patch_of_none hget]; rfl
    | some list => rw [perform_patch_of_some hget]; rfl
  | _ => rfl

/-- Every line counts, whatever becomes of it. -/
theorem line_step (r : Replay) (text : List Char) : (r.step text).state.line = r.line + 1 := by
  rcases step_cases r text with ⟨-, hs⟩ | ⟨_, _, _, -, hs⟩ | ⟨_, _, c, -, hs⟩
  · rw [hs]; rfl
  · rw [hs]; rfl
  · rw [hs, Outcome.state_after, line_perform]; rfl

theorem line_follow (texts : List (List Char)) :
    ∀ r : Replay, (r.follow texts).line = r.line + texts.length := by
  induction texts with
  | nil => intro r; rfl
  | cons text texts ih =>
    intro r
    have hfirst := line_step r text
    rw [follow_cons, ih, hfirst, List.length_cons]
    omega

/-! ## Running lines in parts -/

/-- **Lines in two parts**: the second part is run if the first succeeds, from where the first ends. -/
theorem runLines_append (xs ys : List (List Char)) :
    ∀ r : Replay, r.runLines (xs ++ ys) = (r.runLines xs).andThen fun _ r => r.runLines ys := by
  induction xs with
  | nil => intro r; rfl
  | cons text xs ih =>
    intro r
    simp only [List.cons_append, runLines, ih, Outcome.andThen_assoc]

/-- A run that succeeds follows all its lines. -/
theorem runLines_of_ok (texts : List (List Char)) :
    ∀ {r : Replay}, (r.runLines texts).result = .ok () → (r.runLines texts).state = r.follow texts := by
  induction texts with
  | nil => intro r _; rfl
  | cons text texts ih =>
    intro r h
    rw [runLines] at h ⊢
    cases hres : (r.step text).result with
    | error e =>
      rw [(Outcome.andThen_of_error hres _).1] at h
      cases h
    | ok a =>
      obtain ⟨hrest, hstate⟩ := Outcome.andThen_of_ok hres fun _ r => r.runLines texts
      rw [hrest] at h
      rw [hstate, ih h, follow_cons]

/-- **A run that fails**: lines that succeed, then the line that fails. -/
theorem runLines_of_error (texts : List (List Char)) :
    ∀ {r : Replay}, (r.runLines texts).result = .error e →
      ∃ before text after, texts = before ++ text :: after ∧ (r.runLines before).result = .ok () ∧
        ((r.runLines before).state.step text).result = .error e := by
  induction texts with
  | nil => intro r h; cases h
  | cons text texts ih =>
    intro r h
    rw [runLines] at h
    cases hres : (r.step text).result with
    | error e' =>
      rw [(Outcome.andThen_of_error hres _).1] at h
      exact ⟨[], text, texts, rfl, rfl, hres.trans h⟩
    | ok a =>
      rw [(Outcome.andThen_of_ok hres _).1] at h
      obtain ⟨before, text', after, rfl, hbefore, herror⟩ := ih h
      -- the first line joins those that succeed
      obtain ⟨hfirst, hstate⟩ := Outcome.andThen_of_ok hres fun _ r => r.runLines before
      refine ⟨text :: before, text', after, rfl, ?_, ?_⟩
      · rw [runLines, hfirst]; exact hbefore
      · rw [runLines, hstate]; exact herror

/-- The run ends with a line that fails, whatever follows it. -/
theorem runLines_stops {before : List (List Char)} {text : List Char}
    (hbefore : (r.runLines before).result = .ok ())
    (herror : ((r.runLines before).state.step text).result = .error e) (after : List (List Char)) :
    (r.runLines (before ++ text :: after)).result = .error e ∧
      (r.runLines (before ++ text :: after)).state = ((r.runLines before).state.step text).state := by
  obtain ⟨hres, hstate⟩ := Outcome.andThen_of_ok hbefore fun _ r => r.runLines (text :: after)
  rw [runLines_append, hres, hstate, runLines]
  exact Outcome.andThen_of_error herror _

/-- **A run that is refused at a line** succeeds up to there, and builder and lists stay as they are
then. -/
theorem runLines_of_script_error {texts : List (List Char)} {fault : Fault} {n : ℕ}
    (h : (r.runLines texts).result = .error (.script fault n)) :
    ∃ before text after, texts = before ++ text :: after ∧ n = r.line + before.length + 1 ∧
      (r.runLines before).result = .ok () ∧
      ((r.runLines before).state.step text).result = .error (.script fault n) ∧
      (r.runLines texts).state = (r.runLines before).state.advance := by
  obtain ⟨before, text, after, rfl, hbefore, herror⟩ := runLines_of_error texts h
  obtain ⟨hn, hkept⟩ := step_of_script_error herror
  have hline := line_follow before r
  rw [← runLines_of_ok before hbefore] at hline
  refine ⟨before, text, after, rfl, by omega, hbefore, herror, ?_⟩
  rw [(runLines_stops hbefore herror after).2, hkept]

/-- The warnings at the end of a script change neither its result nor its state. -/
theorem run_eq_runLines (r : Replay) (source : String) :
    (r.run source).result = (r.runLines (Text.lines source.toList)).result ∧
      (r.run source).state = (r.runLines (Text.lines source.toList)).state := by
  unfold run Outcome.andThen
  cases (r.runLines (Text.lines source.toList)).result <;> exact ⟨rfl, rfl⟩

/-- **Scripts in two parts**, cut behind a line feed. -/
theorem run_append (r : Replay) {first : String} (h : Text.Ended first.toList) (second : String) :
    (r.run (first ++ second)).result = ((r.run first).andThen fun _ r => r.run second).result ∧
      (r.run (first ++ second)).state = ((r.run first).andThen fun _ r => r.run second).state := by
  obtain ⟨hres, hstate⟩ := run_eq_runLines r (first ++ second)
  obtain ⟨hres₁, hstate₁⟩ := run_eq_runLines r first
  rw [String.toList_append, Text.lines_append h, runLines_append] at hres hstate
  rw [hres, hstate]
  cases hfirst : (r.runLines (Text.lines first.toList)).result with
  | error e =>
    have hwhole := Outcome.andThen_of_error hfirst fun _ r => r.runLines (Text.lines second.toList)
    have hparts := Outcome.andThen_of_error (hres₁.trans hfirst) fun _ r => r.run second
    rw [hwhole.1, hwhole.2, hparts.1, hparts.2, hstate₁]
    exact ⟨rfl, rfl⟩
  | ok a =>
    have hwhole := Outcome.andThen_of_ok hfirst fun _ r => r.runLines (Text.lines second.toList)
    have hparts := Outcome.andThen_of_ok (hres₁.trans hfirst) fun _ r => r.run second
    have hrest := run_eq_runLines (r.run first).state second
    rw [hwhole.1, hwhole.2, hparts.1, hparts.2, hrest.1, hrest.2, hstate₁]
    exact ⟨rfl, rfl⟩

/-- The first lines of a script, as a script of their own. -/
theorem run_firstLines (r : Replay) (k : ℕ) (source : String) :
    let first := r.run (String.ofList (Text.firstLines k source.toList))
    first.result = (r.runLines ((Text.lines source.toList).take k)).result ∧
      first.state = (r.runLines ((Text.lines source.toList).take k)).state := by
  have h := run_eq_runLines r (String.ofList (Text.firstLines k source.toList))
  rwa [String.toList_ofList, Text.lines_firstLines] at h

end Replay

open Replay

/-- **Scripts in sequence.** A script whose lines are closed, with another one behind it, does what the
two do one after the other, the second only if the first succeeds. And if a script is refused at line
`n`, from a fresh replay on, then it has a line `n`, the lines before it are a script that succeeds,
line `n` fails after them, and builder and lists are those after them. Any other script that begins
with the same `n` lines ends in the same way. -/
theorem scripts_in_sequence :
    (∀ (r : Replay) (first second : String), Text.Ended first.toList →
      (r.run (first ++ second)).result = ((r.run first).andThen fun _ r => r.run second).result ∧
      (r.run (first ++ second)).state = ((r.run first).andThen fun _ r => r.run second).state) ∧
    ∀ (b : Builder) (source : String) (fault : Fault) (n : ℕ),
      let fresh := ofBuilder b
      let lines := Text.lines source.toList
      (fresh.run source).result = .error (.script fault n) →
      let before := fresh.run (String.ofList (Text.firstLines (n - 1) source.toList))
      1 ≤ n ∧ n ≤ lines.length ∧ before.result = .ok () ∧
      (∃ text, lines[n - 1]? = some text ∧
        (before.state.step text).result = .error (.script fault n)) ∧
      (fresh.run source).state.builder = before.state.builder ∧
      (fresh.run source).state.lists = before.state.lists ∧
      ∀ other : String, (Text.lines other.toList).take n = lines.take n →
        (fresh.run other).result = .error (.script fault n) ∧
        (fresh.run other).state = (fresh.run source).state := by
  refine ⟨fun r first second h => run_append r h second, ?_⟩
  intro b source fault n fresh lines herror before
  obtain ⟨hres, hstate⟩ := run_eq_runLines fresh source
  rw [hres] at herror
  obtain ⟨good, text, rest, hsplit, hn, hgood, hbad, hkept⟩ := runLines_of_script_error herror
  have hlines : lines = good ++ text :: rest := hsplit
  have hnumber : n = 0 + good.length + 1 := hn
  have hlength : n - 1 = good.length := by omega
  -- the first `n - 1` lines are those that succeed
  have htake : lines.take (n - 1) = good := by rw [hlines, hlength, List.take_left]
  obtain ⟨hbefore, hafter⟩ : before.result = .ok () ∧ before.state = (fresh.runLines good).state := by
    have hfirst := run_firstLines fresh (n - 1) source
    rw [htake] at hfirst
    exact ⟨hfirst.1.trans hgood, hfirst.2⟩
  rw [hkept] at hstate
  rw [hstate, hafter]
  refine ⟨by omega, ?_, hbefore, ⟨text, ?_, hbad⟩, rfl, rfl, ?_⟩
  · rw [hlines, List.length_append, List.length_cons]; omega
  · rw [hlines, hlength, List.getElem?_append_right le_rfl, Nat.sub_self]; rfl
  · intro other hsame
    have htaken : lines.take n = good ++ [text] := by
      rw [hlines, hnumber, Nat.zero_add, List.take_length_add_append]; rfl
    have hother : Text.lines other.toList = good ++ text :: (Text.lines other.toList).drop n := by
      have hparts := List.take_append_drop n (Text.lines other.toList)
      rw [hsame, htaken, List.append_assoc] at hparts
      exact hparts.symm
    obtain ⟨hres', hstate'⟩ := run_eq_runLines fresh other
    obtain ⟨hstop, hend⟩ := runLines_stops hgood hbad ((Text.lines other.toList).drop n)
    rw [← hother] at hstop hend
    rw [hres', hstate', hstop, hend, (step_of_script_error hbad).2]
    exact ⟨rfl, rfl⟩

/-- A script in two parts, and a script with blank lines that is refused at its fourth line. -/
theorem scripts_in_sequence_blank_lines :
    let fresh := ofBuilder (.empty 3)
    let source := "emit GOTO -> L\r\n\n# join\nmerge L\nreset"
    Text.Ended "temp\r\n".toList ∧
    (fresh.run ("temp\r\n" ++ source)).state =
      ((fresh.run "temp\r\n").andThen fun _ r => r.run source).state ∧
    (fresh.run source).result = .error (.script (.argumentCount "merge" 2 1) 4) ∧
    (fresh.run (String.ofList (Text.firstLines 3 source.toList))).result = .ok () ∧
    (fresh.run "emit GOTO -> L\n\n# join\nmerge L\npatch L here\n").state =
      (fresh.run source).state := by
  intro fresh source
  have hended : Text.Ended "temp\r\n".toList := Or.inr (by decide +kernel)
  have herror : (fresh.run source).result = .error (.script (.argumentCount "merge" 2 1) 4) := by
    decide +kernel
  have hparts := (scripts_in_sequence.1 fresh "temp\r\n" source hended).2
  obtain ⟨-, -, hbefore, -, -, -, hother⟩ := scripts_in_sequence.2 (.empty 3) source _ 4 herror
  exact ⟨hended, hparts, herror, hbefore, (hother _ (by decide +kernel)).2⟩

end Script

end ThreeAddress
