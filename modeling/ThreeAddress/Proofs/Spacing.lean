import ThreeAddress.Proofs.Isolation
import ThreeAddress.Proofs.Reading

/-!
# The layout of a script

Blanks around a line, returns in front of line feeds, blank lines and comments do not matter to what a
script does. Blank lines and comments count as lines, though, so errors further down name later lines.

* `Text.Padded`, `Text.Respaced`: blanks around a line, and around the lines of a text. Returns in front of
  the line feeds are a case of it (`respaced_withReturns`).
* `Respaced.trimmed_lines`: **trimmed, the lines stay as they are.** Only blanks behind the last line feed
  are a line that was not there.
* `Replay.runLines_congr`: **of every line only what is left when it is trimmed matters.**
* `Text.insertLine`, `Text.lines_insertLine`: a line put in.
* `Replay.runLines_idle`: **a line that says nothing**, put in between others.
* `layout_irrelevant`: all this for scripts.
-/

namespace ThreeAddress

namespace Text

variable {cs ds l : List Char}

/-- The text with a return in front of every line feed. -/
def withReturns (cs : List Char) : List Char :=
  cs.flatMap fun c => if c = '\n' then ['\r', '\n'] else [c]

/-- A line with blanks put in front of it and behind it, in front of the return if it ends with one. -/
inductive Padded : List Char → List Char → Prop
  | pad {front back stop : List Char} (line : List Char) (hfront : ∀ c ∈ front, isBlank c = true)
      (hback : ∀ c ∈ back, isBlank c = true) (hstop : stop = [] ∨ stop = ['\r']) :
      Padded (line ++ stop) (front ++ line ++ back ++ stop)

/-- The texts have the same line feeds, and what stands between them is padded in the second. -/
def Respaced (cs ds : List Char) : Prop := List.Forall₂ Padded (cs.splitOn '\n') (ds.splitOn '\n')

/-- The text with a line put in before its line `k`, counted from one. -/
def insertLine (k : ℕ) (line cs : List Char) : List Char :=
  firstLines (k - 1) cs ++ line ++ '\n' :: cs.drop (firstLines (k - 1) cs).length

/-! ## Padded lines -/

theorem isBlank_return : ∀ c ∈ ['\r'], isBlank c = true := by simp; decide

theorem Padded.trim_eq (h : Padded cs ds) : trim ds = trim cs := by
  obtain ⟨line, hfront, hback, hstop⟩ := h
  rcases hstop with rfl | rfl
  · rw [List.append_nil, List.append_nil, trim_append_blanks hback, trim_blanks_append hfront]
  · rw [trim_append_blanks isBlank_return, trim_append_blanks isBlank_return, trim_append_blanks hback,
      trim_blanks_append hfront]

theorem Padded.ne_nil (h : Padded cs ds) (hne : cs ≠ []) : ds ≠ [] := by
  obtain ⟨line, hfront, hback, hstop⟩ := h
  intro hnil
  simp only [List.append_eq_nil_iff] at hnil
  exact hne (List.append_eq_nil_iff.2 ⟨hnil.1.1.2, hnil.2⟩)

theorem trim_dropReturn (l : List Char) : trim (dropReturn l) = trim l := by
  unfold dropReturn
  split
  · rename_i h
    have hlast : l.dropLast ++ ['\r'] = l := List.dropLast_append_getLast? _ h
    rw [← trim_append_blanks isBlank_return l.dropLast, hlast]
  · rfl

/-! ## Texts with padded lines -/

/-- A text of one piece has one piece with blanks around it, too. -/
theorem Respaced.of_not_mem (h : Respaced l ds) (hl : '\n' ∉ l) : '\n' ∉ ds ∧ Padded l ds := by
  unfold Respaced at h
  rw [List.splitOn_eq_singleton hl] at h
  by_cases hmem : '\n' ∈ ds
  · obtain ⟨d, rest, rfl, hd⟩ := List.eq_append_cons_of_mem hmem
    rw [List.splitOn_append_cons_self_of_not_mem hd, List.forall₂_cons, List.forall₂_nil_left_iff] at h
    exact absurd h.2 (List.splitOn_ne_nil _ _)
  · rw [List.splitOn_eq_singleton hmem, List.forall₂_cons] at h
    exact ⟨hmem, h.1⟩

/-- The first line and the rest. -/
theorem Respaced.of_feed {rest : List Char} (h : Respaced (l ++ '\n' :: rest) ds) (hl : '\n' ∉ l) :
    ∃ d rest', ds = d ++ '\n' :: rest' ∧ '\n' ∉ d ∧ Padded l d ∧ Respaced rest rest' := by
  unfold Respaced at h
  rw [List.splitOn_append_cons_self_of_not_mem hl] at h
  by_cases hmem : '\n' ∈ ds
  · obtain ⟨d, rest', rfl, hd⟩ := List.eq_append_cons_of_mem hmem
    rw [List.splitOn_append_cons_self_of_not_mem hd, List.forall₂_cons] at h
    exact ⟨d, rest', rfl, hd, h⟩
  · rw [List.splitOn_eq_singleton hmem, List.forall₂_cons, List.forall₂_nil_right_iff] at h
    exact absurd h.2 (List.splitOn_ne_nil _ _)

/-- **Padding leaves the lines as they are**, trimmed. Only blanks behind the last line feed are a line
that was not there. -/
theorem Respaced.trimmed_lines (h : Respaced cs ds) :
    (lines ds).map trim = (lines cs).map trim ∨
      (Ended cs ∧ ¬ Ended ds ∧ (lines ds).map trim = (lines cs).map trim ++ [[]]) := by
  induction cs using line_induction generalizing ds with
  | nil =>
    obtain ⟨hmem, hpad⟩ := h.of_not_mem List.not_mem_nil
    by_cases hne : ds = []
    · rw [hne]; exact Or.inl rfl
    · refine Or.inr ⟨Or.inl rfl, not_ended hmem hne, ?_⟩
      rw [lines_of_not_mem hmem hne, List.map_singleton, hpad.trim_eq]
      rfl
  | last l hl hne =>
    obtain ⟨hmem, hpad⟩ := h.of_not_mem hl
    left
    rw [lines_of_not_mem hl hne, lines_of_not_mem hmem (hpad.ne_nil hne), List.map_singleton,
      List.map_singleton, hpad.trim_eq]
  | feed l rest hl ih =>
    obtain ⟨d, rest', rfl, hd, hpad, hrest⟩ := h.of_feed hl
    have hfirst : trim (dropReturn d) = trim (dropReturn l) := by
      rw [trim_dropReturn, trim_dropReturn, hpad.trim_eq]
    rw [lines_feed hl, lines_feed hd, List.map_cons, List.map_cons, hfirst, ended_feed_iff, ended_feed_iff]
    rcases ih hrest with heq | ⟨hended, hnot, heq⟩
    · exact Or.inl (by rw [heq])
    · exact Or.inr ⟨hended, hnot, by rw [heq, List.cons_append]⟩

/-! ## Returns in front of line feeds -/

theorem withReturns_of_not_mem (hl : '\n' ∉ l) : withReturns l = l := by
  unfold withReturns
  induction l with
  | nil => rfl
  | cons c l ih =>
    rw [List.mem_cons, not_or] at hl
    have hc : c ≠ '\n' := fun h => hl.1 h.symm
    rw [List.flatMap_cons, if_neg hc, ih hl.2, List.singleton_append]

theorem withReturns_feed (hl : '\n' ∉ l) (rest : List Char) :
    withReturns (l ++ '\n' :: rest) = (l ++ ['\r']) ++ '\n' :: withReturns rest := by
  have hfirst := withReturns_of_not_mem hl
  unfold withReturns at hfirst ⊢
  rw [List.flatMap_append, List.flatMap_cons, if_pos rfl, hfirst]
  simp

theorem padded_return (l : List Char) : Padded l l ∧ Padded l (l ++ ['\r']) := by
  have hnil : ∀ c ∈ ([] : List Char), isBlank c = true := List.forall_mem_nil _
  have hkept := Padded.pad l hnil hnil (Or.inl rfl)
  have hreturn := Padded.pad l hnil isBlank_return (Or.inl rfl)
  simp only [List.append_nil, List.nil_append] at hkept hreturn
  exact ⟨hkept, hreturn⟩

/-- **Returns in front of the line feeds** are blanks behind the lines. -/
theorem respaced_withReturns (cs : List Char) :
    Respaced cs (withReturns cs) ∧ (Ended cs → Ended (withReturns cs)) := by
  have hsame : ∀ {l : List Char}, '\n' ∉ l → Respaced l (withReturns l) ∧ (Ended l → Ended (withReturns l)) := by
    intro l hl
    rw [withReturns_of_not_mem hl]
    refine ⟨?_, id⟩
    unfold Respaced
    rw [List.splitOn_eq_singleton hl]
    exact .cons (padded_return l).1 .nil
  induction cs using line_induction with
  | nil => exact hsame List.not_mem_nil
  | last l hl hne => exact hsame hl
  | feed l rest hl ih =>
    obtain ⟨hrest, hended⟩ := ih
    have hl' : '\n' ∉ l ++ ['\r'] := by simpa using hl
    rw [withReturns_feed hl, ended_feed_iff, ended_feed_iff]
    refine ⟨?_, hended⟩
    unfold Respaced
    rw [List.splitOn_append_cons_self_of_not_mem hl, List.splitOn_append_cons_self_of_not_mem hl']
    exact .cons (padded_return l).2 hrest

/-! ## A line put in -/

theorem firstLines_isPrefix (cs : List Char) : ∀ k, firstLines k cs <+: cs := by
  induction cs with
  | nil => intro k; cases k <;> exact List.nil_prefix
  | cons c cs ih =>
    intro k
    cases k with
    | zero => rw [firstLines_zero]; exact List.nil_prefix
    | succ k => rw [firstLines, List.cons_prefix_cons]; exact ⟨rfl, ih _⟩

/-- Lines that are followed by another are closed. -/
theorem ended_firstLines (cs : List Char) : ∀ {k}, k < (lines cs).length → Ended (firstLines k cs) := by
  induction cs using line_induction with
  | nil => intro k hk; exact absurd hk (Nat.not_lt_zero k)
  | last l hl hne =>
    intro k hk
    rw [lines_of_not_mem hl hne, List.length_singleton, Nat.lt_one_iff] at hk
    rw [hk, firstLines_zero]
    exact Or.inl rfl
  | feed l rest hl ih =>
    intro k hk
    cases k with
    | zero => rw [firstLines_zero]; exact Or.inl rfl
    | succ k =>
      rw [lines_feed hl, List.length_cons, Nat.add_lt_add_iff_right] at hk
      rw [firstLines_feed hl, ended_feed_iff]
      exact ih hk

/-- **The lines of a text with a line put in.** -/
theorem lines_insertLine {k : ℕ} {line : List Char} (hk : 1 ≤ k) (hle : k ≤ (lines cs).length)
    (hline : '\n' ∉ line) :
    lines (insertLine k line cs) =
      (lines cs).take (k - 1) ++ dropReturn line :: (lines cs).drop (k - 1) := by
  have hended : Ended (firstLines (k - 1) cs) := ended_firstLines cs (by omega)
  have hparts := List.prefix_iff_eq_append.1 (firstLines_isPrefix cs (k - 1))
  have hfirst := lines_firstLines cs (k - 1)
  have hsecond : lines (cs.drop (firstLines (k - 1) cs).length) = (lines cs).drop (k - 1) := by
    have hlines := lines_append hended (cs.drop (firstLines (k - 1) cs).length)
    rw [hparts, hfirst] at hlines
    exact List.append_cancel_left (hlines.symm.trans (List.take_append_drop (k - 1) (lines cs)).symm)
  unfold insertLine
  rw [List.append_assoc, lines_append hended, lines_feed hline, hfirst, hsecond]

end Text

open Text

namespace Error

/-- The error as it is reported if a line is put in that becomes line `m`. -/
def pushedFrom (m : ℕ) : Error → Error
  | script fault n => script fault (if n < m then n else n + 1)
  | e => e

variable {result : Except Error Unit} {m : ℕ}

/-- Errors above the line that is put in stay as they are. -/
theorem pushedFrom_above (h : ∀ fault n, result = .error (script fault n) → n < m) :
    result.mapError (pushedFrom m) = result := by
  cases result with
  | ok a => rfl
  | error e =>
    cases e with
    | script fault n =>
      show Except.error (script fault (if n < m then n else n + 1)) = _
      rw [if_pos (h fault n rfl)]
    | _ => rfl

/-- Errors below it come one line later. -/
theorem pushedFrom_below (h : ∀ fault n, result = .error (script fault n) → m ≤ n) :
    result.mapError (pushedFrom m) = result.mapError (later 1) := by
  cases result with
  | ok a => rfl
  | error e =>
    cases e with
    | script fault n =>
      show Except.error (script fault (if n < m then n else n + 1)) = _
      rw [if_neg (Nat.not_lt.2 (h fault n rfl))]
      rfl
    | _ => rfl

end Error

namespace Script

/-- A line that says nothing: it is blank, or it is a comment. -/
def Idle (line : List Char) : Prop := trim line = [] ∨ (trim line).head? = some '#'

variable {text text' : List Char}

theorem statement?_of_idle (h : Idle text) : statement? text = none := by
  unfold statement?
  rcases h with h | h
  · rw [h]
  · split
    · rfl
    · rfl
    · rename_i hne hhash
      obtain ⟨rest, hrest⟩ := List.head?_eq_some_iff.1 h
      exact absurd hrest (hhash rest)

namespace Replay

/-! ## Only what is left of a line when it is trimmed matters -/

theorem step_congr (h : trim text = trim text') (r : Replay) : r.step text = r.step text' := by
  unfold step execute statement?
  rw [h]

/-- **Lines that are the same when they are trimmed** have the same outcome, with all that is told on the
way. -/
theorem runLines_congr {texts : List (List Char)} :
    ∀ {texts' : List (List Char)}, texts.map trim = texts'.map trim →
      ∀ r : Replay, r.runLines texts = r.runLines texts' := by
  induction texts with
  | nil =>
    intro texts' h r
    rw [List.map_eq_nil_iff.1 h.symm]
  | cons text texts ih =>
    intro texts' h r
    cases texts' with
    | nil => cases h
    | cons text' texts' =>
      obtain ⟨hfirst, hrest⟩ := List.cons.inj h
      rw [runLines, runLines, step_congr hfirst]
      simp only [ih hrest]

/-! ## Lines that say nothing -/

theorem step_of_idle (h : Idle text) (r : Replay) : r.step text = .ok () r.advance [] := by
  unfold step execute
  rw [statement?_of_idle h]
  rfl

/-- A run is refused at one of its own lines. -/
theorem line_of_script_error {r : Replay} {texts : List (List Char)} {fault : Fault} {n : ℕ}
    (h : (r.runLines texts).result = .error (.script fault n)) :
    r.line + 1 ≤ n ∧ n ≤ r.line + texts.length := by
  obtain ⟨before, text, after, rfl, hn, -⟩ := runLines_of_script_error h
  rw [List.length_append, List.length_cons]
  omega

/-- **A line that says nothing**, put in between other lines: builder and lists are the same, and so is the
result, but for the number of a line below. -/
theorem runLines_idle (h : Idle text) (xs ys : List (List Char)) (r : Replay) :
    let shorter := r.runLines (xs ++ ys)
    let longer := r.runLines (xs ++ text :: ys)
    longer.result = shorter.result.mapError (Error.pushedFrom (r.line + xs.length + 1)) ∧
      longer.state.builder = shorter.state.builder ∧ longer.state.lists = shorter.state.lists := by
  intro shorter longer
  have hshort : shorter = (r.runLines xs).andThen fun _ r => r.runLines ys := runLines_append xs ys r
  have hlong : longer = (r.runLines xs).andThen fun _ r => r.runLines (text :: ys) :=
    runLines_append xs (text :: ys) r
  cases hxs : (r.runLines xs).result with
  | error e =>
    -- neither run comes to the line
    obtain ⟨hres, hstate⟩ := Outcome.andThen_of_error hxs fun _ r => r.runLines ys
    obtain ⟨hres', hstate'⟩ := Outcome.andThen_of_error hxs fun _ r => r.runLines (text :: ys)
    have habove : ∀ fault n, (r.runLines xs).result = .error (.script fault n) →
        n < r.line + xs.length + 1 := by
      intro fault n he
      have hbounds := line_of_script_error he
      omega
    rw [hshort, hlong, hres, hstate, hres', hstate', ← hxs]
    exact ⟨(Error.pushedFrom_above habove).symm, rfl, rfl⟩
  | ok a =>
    obtain ⟨hres, hstate⟩ := Outcome.andThen_of_ok hxs fun _ r => r.runLines ys
    obtain ⟨hres', hstate'⟩ := Outcome.andThen_of_ok hxs fun _ r => r.runLines (text :: ys)
    have hline : (r.runLines xs).state.line = r.line + xs.length := by
      rw [runLines_of_ok xs hxs, line_follow]
    rw [hshort, hlong, hres, hstate, hres', hstate']
    rw [runLines, step_of_idle h, Outcome.ok_andThen, Outcome.result_after, Outcome.state_after]
    -- what is left runs one line further down
    obtain ⟨hlater, hsame⟩ := runLines_later 1 ys (r.runLines xs).state
    have hbelow : ∀ fault n, ((r.runLines xs).state.runLines ys).result = .error (.script fault n) →
        r.line + xs.length + 1 ≤ n := by
      intro fault n he
      have hbounds := line_of_script_error he
      omega
    have hbuilder := congrArg builder hsame
    have hlists := congrArg lists hsame
    rw [Error.pushedFrom_below hbelow]
    exact ⟨hlater, hbuilder, hlists⟩

/-! ## Scripts -/

/-- **Padding a script**, line by line, leaves result, builder and lists as they are, and if nothing is
added behind the last line feed, all the rest. -/
theorem run_respaced (r : Replay) {source other : String} (h : Respaced source.toList other.toList) :
    (r.run other).result = (r.run source).result ∧
    (r.run other).state.builder = (r.run source).state.builder ∧
    (r.run other).state.lists = (r.run source).state.lists ∧
    ((Ended source.toList → Ended other.toList) → r.run other = r.run source) := by
  rcases h.trimmed_lines with hsame | ⟨hended, hnot, hmore⟩
  · have hrun : r.run other = r.run source := by
      unfold run
      rw [runLines_congr hsame]
    rw [hrun]
    exact ⟨rfl, rfl, rfl, fun _ => rfl⟩
  · have hblank : Idle [] := Or.inl rfl
    have hlines : (lines other.toList).map trim = (lines source.toList ++ [[]]).map trim := by
      rw [hmore, List.map_append]; rfl
    obtain ⟨hres, hbuilder, hlists⟩ := runLines_idle hblank (lines source.toList) [] r
    rw [← runLines_congr hlines, List.append_nil] at hres hbuilder hlists
    rw [Error.pushedFrom_above fun fault n he => Nat.lt_succ_of_le (line_of_script_error he).2] at hres
    obtain ⟨hres₁, hstate₁⟩ := run_eq_runLines r source
    obtain ⟨hres₂, hstate₂⟩ := run_eq_runLines r other
    rw [hres₁, hres₂, hstate₁, hstate₂]
    exact ⟨hres, hbuilder, hlists, fun himp => absurd (himp hended) hnot⟩

end Replay

open Replay

/-- **The layout of a script is irrelevant.** With a return in front of every line feed, a script has the
same outcome in every state. With any blanks put in front of its lines and behind them, it has the same
result, builder and lists, and unless some of them stand alone behind the last line feed, the same outcome.
With a blank line or a comment put in before line `k`, it leaves the same builder and lists, and has the
same result, except that a refusal at that line or a later one is reported one line later. Lines are
counted on from those that were read before. -/
theorem layout_irrelevant (r : Replay) (source : String) :
    r.run (String.ofList (withReturns source.toList)) = r.run source ∧
    (∀ other : String, Respaced source.toList other.toList →
      (r.run other).result = (r.run source).result ∧
      (r.run other).state.builder = (r.run source).state.builder ∧
      (r.run other).state.lists = (r.run source).state.lists ∧
      ((Ended source.toList → Ended other.toList) → r.run other = r.run source)) ∧
    ∀ (k : ℕ) (line : List Char), 1 ≤ k → k ≤ (lines source.toList).length → '\n' ∉ line → Idle line →
      let longer := r.run (String.ofList (insertLine k line source.toList))
      longer.result = (r.run source).result.mapError (Error.pushedFrom (r.line + k)) ∧
      longer.state.builder = (r.run source).state.builder ∧
      longer.state.lists = (r.run source).state.lists := by
  refine ⟨?_, fun other h => run_respaced r h, ?_⟩
  · obtain ⟨hspaced, hended⟩ := respaced_withReturns source.toList
    rw [← String.toList_ofList (l := withReturns source.toList)] at hspaced hended
    exact (run_respaced r hspaced).2.2.2 hended
  · intro k line hk hle hline hidle longer
    have hdropped : Idle (dropReturn line) := by unfold Idle; rw [trim_dropReturn]; exact hidle
    have hrun := runLines_idle hdropped ((lines source.toList).take (k - 1))
      ((lines source.toList).drop (k - 1)) r
    have hlength : r.line + ((lines source.toList).take (k - 1)).length + 1 = r.line + k := by
      rw [List.length_take]; omega
    rw [← lines_insertLine hk hle hline, List.take_append_drop, hlength] at hrun
    obtain ⟨hres₁, hstate₁⟩ := run_eq_runLines r source
    obtain ⟨hres₂, hstate₂⟩ := run_eq_runLines r (String.ofList (insertLine k line source.toList))
    rw [String.toList_ofList] at hres₂ hstate₂
    rw [hres₁, hstate₁, hres₂, hstate₂]
    exact hrun

/-- A script that is refused at its fourth line, with blanks of all sorts put around its lines, and with a
comment put in before its second line. -/
theorem layout_irrelevant_odd_blanks :
    let r : Replay := ⟨.empty 3, .empty, 5⟩
    let source := "emit GOTO -> L\r\npatch L here\n\nmerge L"
    let padded := "\u3000emit GOTO -> L \t\r\n\u2028patch L here\r\r\n \nmerge L\u00a0"
    let comment := "\u00a0# join\r".toList
    let refusal (line : ℕ) : Except Error Unit := .error (.script (.argumentCount "merge" 2 1) line)
    (r.run source).result = refusal 9 ∧
    r.run (String.ofList (withReturns source.toList)) = r.run source ∧
    Respaced source.toList padded.toList ∧ r.run padded = r.run source ∧
    Idle comment ∧ (r.run (String.ofList (insertLine 2 comment source.toList))).result = refusal 10 := by
  intro r source padded comment refusal
  have hrefused : (r.run source).result = refusal 9 := by decide +kernel
  have hspaced : Respaced source.toList padded.toList := by
    have hsource : source.toList.splitOn '\n' = ["emit GOTO -> L".toList ++ ['\r'],
        "patch L here".toList ++ [], [] ++ [], "merge L".toList ++ []] := by decide +kernel
    have hpadded : padded.toList.splitOn '\n' =
        [['\u3000'] ++ "emit GOTO -> L".toList ++ [' ', '\t'] ++ ['\r'],
          ['\u2028'] ++ "patch L here".toList ++ ['\r', '\r'] ++ [], [' '] ++ [] ++ [] ++ [],
          [] ++ "merge L".toList ++ ['\u00a0'] ++ []] := by decide +kernel
    unfold Respaced
    rw [hsource, hpadded]
    refine .cons (.pad _ ?_ ?_ (Or.inr rfl)) (.cons (.pad _ ?_ ?_ (Or.inl rfl))
      (.cons (.pad _ ?_ ?_ (Or.inl rfl)) (.cons (.pad _ ?_ ?_ (Or.inl rfl)) .nil)))
    all_goals exact List.all_eq_true.1 (by decide +kernel)
  have hidle : Idle comment := Or.inr (by decide +kernel)
  obtain ⟨hreturns, hspacing, hinsert⟩ := layout_irrelevant r source
  obtain ⟨-, -, -, hsame⟩ := hspacing padded hspaced
  obtain ⟨hres, -⟩ := hinsert 2 comment (by decide) (by decide +kernel) (by decide +kernel) hidle
  have hopen : ¬ Ended source.toList := by unfold Ended; decide +kernel
  rw [hrefused] at hres
  exact ⟨hrefused, hreturns, hspaced, hsame fun hended => absurd hended hopen, hidle, hres⟩

end Script

end ThreeAddress
