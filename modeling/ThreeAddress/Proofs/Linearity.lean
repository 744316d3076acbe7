import ThreeAddress.Proofs.Execution
import ThreeAddress.Proofs.NamedLists
import ThreeAddress.Proofs.PatchJournal
import ThreeAddress.Proofs.Unrolling

/-!
# Pending lists are linear

A replay keeps each noted jump on exactly one list, from the line that notes it to the line that
patches it. The account is kept in a `Ledger`: the indices that were noted since the last reset, and
those of them whose list was spent.

* `Linear`: **the invariant.** What the lists hold and what was spent are together what was noted,
  and the noted indices are increasing and name instructions.
* `linear_step`, `linear_follow`: every line keeps it, so every execution does.
* `log_step`: a line patches what it spends, in order, and passes over nothing.
* `lists_linear`: the consequences, after every executed line of any number of scripts.
-/

namespace ThreeAddress.Script

open scoped List

/-- The indices that a replay put on lists since the last reset, and those whose list it patched. -/
structure Ledger where
  noted : List ℕ
  spent : List ℕ
deriving DecidableEq, Repr

namespace Replay

/-- What a command puts on a list: the index that the emission returns, if a list is named. -/
def notes (r : Replay) : Command → List ℕ
  | .emit mnemonic arg1 arg2 dest (some _) =>
    match (r.builder.emit (.ofText mnemonic arg1 arg2 dest)).result with
    | .ok index => [index]
    | .error _ => []
  | _ => []

/-- What a command takes off the lists for good: the list that it patches, if there is one. -/
def spends (r : Replay) : Command → List ℕ
  | .patch name _ => (r.lists.getD name).indices
  | _ => []

end Replay

namespace Ledger

/-- Nothing noted, nothing spent. -/
def empty : Ledger := ⟨[], []⟩

/-- The ledger after a command. A reset starts it anew. -/
def record (g : Ledger) (r : Replay) : Command → Ledger
  | .reset => empty
  | command => ⟨g.noted ++ r.notes command, g.spent ++ r.spends command⟩

/-- The ledger after a line. -/
def read (g : Ledger) (r : Replay) (text : List Char) : Ledger :=
  match Command.ofLine? text with
  | none => g
  | some command => g.record r command

/-- The ledger after lines that are carried out from the state `r` on. -/
def follow (g : Ledger) (r : Replay) : List (List Char) → Ledger
  | [] => g
  | text :: texts => (g.read r text).follow (r.step text).state texts

end Ledger

/-- **The invariant of the named lists.** -/
structure Linear (r : Replay) (g : Ledger) : Prop where
  names : r.lists.names.Nodup
  sorted : g.noted.Pairwise (· < ·)
  bounds : ∀ i ∈ g.noted, 1 ≤ i ∧ i ≤ r.builder.length
  perm : r.lists.held ++ g.spent ~ g.noted

variable {r : Replay} {g : Ledger}

namespace Linear

theorem start (b : Builder) : Linear (.ofBuilder b) .empty :=
  ⟨List.nodup_nil, List.Pairwise.nil, by simp [Ledger.empty], .refl _⟩

/-- The invariant looks only at the lists and at the length of the code, which may grow. -/
theorem grow (h : Linear r g) {r' : Replay} (hlists : r'.lists = r.lists)
    (hlen : r.builder.length ≤ r'.builder.length) : Linear r' g :=
  ⟨hlists ▸ h.names, h.sorted, fun i hi => ⟨(h.bounds i hi).1, (h.bounds i hi).2.trans hlen⟩,
    hlists ▸ h.perm⟩

theorem nodup (h : Linear r g) : (r.lists.held ++ g.spent).Nodup :=
  h.perm.nodup_iff.2 (h.sorted.imp (fun hlt => Nat.ne_of_lt hlt))

theorem held_bounds (h : Linear r g) {i : ℕ} (hi : i ∈ r.lists.held) :
    1 ≤ i ∧ i ≤ r.builder.length :=
  h.bounds i (h.perm.mem_iff.1 (List.mem_append_left _ hi))

/-- What is held is what was noted and not spent. -/
theorem mem_held_iff (h : Linear r g) (i : ℕ) :
    i ∈ r.lists.held ↔ i ∈ g.noted ∧ i ∉ g.spent := by
  have hd := (List.nodup_append.1 h.nodup).2.2
  rw [← h.perm.mem_iff, List.mem_append]
  constructor
  · intro hi; exact ⟨Or.inl hi, fun hs => hd i hi i hs rfl⟩
  · rintro ⟨hi | hi, hs⟩
    · exact hi
    · exact absurd hi hs

/-- Each index that is held is on exactly one list. -/
theorem existsUnique_list (h : Linear r g) {i : ℕ} (hi : i ∈ r.lists.held) :
    ∃! name, ∃ list, r.lists.get? name = some list ∧ i ∈ list.indices := by
  obtain ⟨⟨name, list⟩, hmem, hin⟩ := NamedLists.mem_held.1 hi
  refine ⟨name, ⟨list, NamedLists.get?_of_mem h.names hmem, hin⟩, ?_⟩
  rintro name' ⟨list', hget, hin'⟩
  by_contra hne
  -- taking out the first list leaves the second, so the index would be held twice
  have hd := (NamedLists.held_erase r.lists name).nodup_iff.2 (List.nodup_append.1 h.nodup).1
  have hfirst : r.lists.getD name = list :=
    NamedLists.getD_of_some (NamedLists.get?_of_mem h.names hmem)
  have hrest : i ∈ (r.lists.erase name).held :=
    NamedLists.mem_held.2 ⟨(name', list'),
      (List.mem_eraseP_of_neg (by simpa using hne)).2 (NamedLists.mem_of_get? hget), hin'⟩
  exact (List.nodup_append.1 hd).2.2 i (hfirst ▸ hin) i hrest rfl

theorem getD_subset (name : String) {i : ℕ} (hi : i ∈ (r.lists.getD name).indices) :
    i ∈ r.lists.held :=
  (NamedLists.held_erase r.lists name).mem_iff.1 (List.mem_append_left _ hi)

end Linear

theorem Replay.spends_of_none {name : String} (h : r.lists.get? name = none) (target : Place) :
    r.spends (.patch name target) = [] := by
  simp only [spends, NamedLists.getD_of_none h]; rfl

theorem record_eq {c : Command} (hc : c ≠ .reset) :
    g.record r c = ⟨g.noted ++ r.notes c, g.spent ++ r.spends c⟩ := by
  cases c <;> first | rfl | exact absurd rfl hc

theorem record_advance (c : Command) : g.record r.advance c = g.record r c := by
  cases c with
  | emit mnemonic arg1 arg2 dest list => cases list <;> rfl
  | _ => rfl

theorem spends_advance (c : Command) : r.advance.spends c = r.spends c := by
  cases c <;> rfl

/-- Commands that note and spend nothing and leave the lists alone. -/
theorem linear_of_silent (h : Linear r g) {c : Command} (hc : c ≠ .reset) (hnotes : r.notes c = [])
    (hspends : r.spends c = []) {r' : Replay} (hlists : r'.lists = r.lists)
    (hlen : r.builder.length ≤ r'.builder.length) : Linear r' (g.record r c) := by
  rw [record_eq hc, hnotes, hspends, List.append_nil, List.append_nil]
  exact h.grow hlists hlen

/-- An emission notes the new index, which is larger than every index noted before. -/
theorem linear_emit (h : Linear r g) (mnemonic : String) (arg1 arg2 dest list : Option String) :
    Linear (r.perform (.emit mnemonic arg1 arg2 dest list)).state
      (g.record r (.emit mnemonic arg1 arg2 dest list)) := by
  by_cases hroom : r.builder.length < r.builder.limit
  · rw [Replay.perform_emit_of_room hroom, Outcome.state_ok]
    have hlen : (r.builder.append [.ofText mnemonic arg1 arg2 dest]).length = r.builder.length + 1 := by
      rw [Builder.length_append, List.length_singleton]
    cases list with
    | none => exact linear_of_silent h (by simp) rfl rfl rfl (by
      simp only [Replay.note, Replay.withBuilder]; omega)
    | some name =>
      have hnotes : r.notes (.emit mnemonic arg1 arg2 dest (some name)) = [r.builder.length + 1] := by
        simp only [Replay.notes, Builder.emit_of_room hroom, Outcome.result_ok, Builder.next]
      rw [record_eq (by simp), hnotes]
      refine ⟨?_, ?_, ?_, ?_⟩
      · exact NamedLists.nodup_insert h.names _ _
      · refine List.pairwise_append.2 ⟨h.sorted, List.pairwise_singleton _ _, ?_⟩
        intro i hi j hj
        rw [List.mem_singleton.1 hj]
        exact Nat.lt_succ_of_le (h.bounds i hi).2
      · intro i hi
        simp only [Replay.note, Replay.withBuilder, hlen]
        rcases List.mem_append.1 hi with hi | hi
        · have := h.bounds i hi; omega
        · rw [List.mem_singleton.1 hi]; omega
      · -- the new index comes last on both sides
        have hp := NamedLists.held_push h.names name (r.builder.length + 1)
        simp only [Replay.spends, List.append_nil]
        refine (hp.append_right _).trans ?_
        rw [List.append_assoc]
        refine (List.Perm.append_left _ List.perm_append_comm).trans ?_
        rw [← List.append_assoc]
        exact h.perm.append_right _
  · have hnotes : r.notes (.emit mnemonic arg1 arg2 dest list) = [] := by
      cases list with
      | none => rfl
      | some name => simp only [Replay.notes, Builder.emit_of_full hroom, Outcome.result_fail]
    rw [Replay.perform_emit_of_full hroom, Outcome.state_fail]
    exact linear_of_silent h (by simp) hnotes rfl rfl le_rfl

/-- Patching moves a whole list from what is held to what is spent. -/
theorem linear_patch (h : Linear r g) (name : String) (target : Place) :
    Linear (r.perform (.patch name target)).state (g.record r (.patch name target)) := by
  have herase := NamedLists.held_erase r.lists name
  cases hget : r.lists.get? name with
  | none =>
    rw [Replay.perform_patch_of_none hget, Outcome.state_fail]
    exact linear_of_silent h (by simp) rfl (Replay.spends_of_none hget target) rfl le_rfl
  | some list =>
    have hspends : r.spends (.patch name target) = (r.lists.getD name).indices := rfl
    rw [Replay.perform_patch_of_some hget, Outcome.state_ok, record_eq (by simp), hspends]
    refine ⟨NamedLists.nodup_erase h.names name, ?_, ?_, ?_⟩
    · simpa only [Replay.notes, List.append_nil] using h.sorted
    · simpa only [Replay.notes, List.append_nil, Builder.length_backpatch] using h.bounds
    · simp only [Replay.notes, List.append_nil]
      set x := (r.lists.getD name).indices
      set rest := (r.lists.erase name).held
      calc rest ++ (g.spent ++ x)
        _ ~ rest ++ (x ++ g.spent) := List.Perm.append_left _ List.perm_append_comm
        _ ~ x ++ (rest ++ g.spent) := List.perm_append_comm_assoc _ _ _
        _ = x ++ rest ++ g.spent := (List.append_assoc ..).symm
        _ ~ r.lists.held ++ g.spent := herase.append_right _
        _ ~ g.noted := h.perm

/-- **Every command keeps the invariant**, whether it succeeds or fails. -/
theorem linear_perform (h : Linear r g) (c : Command) :
    Linear (r.perform c).state (g.record r c) := by
  cases c with
  | emit mnemonic arg1 arg2 dest list => exact linear_emit h mnemonic arg1 arg2 dest list
  | temporary => exact linear_of_silent h (by simp) rfl rfl rfl le_rfl
  | label => exact linear_of_silent h (by simp) rfl rfl rfl le_rfl
  | merge into source =>
    rw [record_eq (by simp)]
    refine ⟨NamedLists.nodup_merge h.names into source, ?_, ?_, ?_⟩
    · simpa only [Replay.notes, List.append_nil] using h.sorted
    · simpa only [Replay.notes, List.append_nil, Replay.perform, Outcome.state_ok] using h.bounds
    · simp only [Replay.notes, Replay.spends, List.append_nil]
      exact ((NamedLists.held_merge h.names into source).append_right _).trans h.perm
  | patch name target => exact linear_patch h name target
  | unroll start stop times =>
    refine linear_of_silent h (by simp) rfl rfl rfl ?_
    simp only [Replay.perform, Outcome.state_within, Replay.withBuilder, Builder.unroll_length]
    omega
  | reset => exact ⟨List.nodup_nil, List.Pairwise.nil, by simp [Ledger.record, Ledger.empty], .refl _⟩

/-- **Every line keeps the invariant.** -/
theorem linear_step (h : Linear r g) (text : List Char) :
    Linear (r.step text).state (g.read r text) := by
  have ha : Linear r.advance g := h.grow rfl le_rfl
  unfold Ledger.read
  rcases Replay.step_cases r text with ⟨hc, hs⟩ | ⟨_, _, _, hc, hs⟩ | ⟨_, _, c, hc, hs⟩
  · rw [hc, hs]; exact ha
  · rw [hc, hs]; exact ha
  · have hp := linear_perform ha c
    rw [record_advance] at hp
    rw [hc, hs, Outcome.state_after]; exact hp

theorem linear_follow (texts : List (List Char)) :
    ∀ {r : Replay} {g : Ledger}, Linear r g → Linear (r.follow texts) (g.follow r texts) := by
  -- on the lines, with replay and ledger general, as the ledger reads each line in its own state
  induction texts with
  | nil => intro r g h; exact h
  | cons text texts ih => intro r g h; exact ih (linear_step h text)

/-! ## The journal -/

theorem quiet_singleton {e₀ : Event} (h : e₀.patchedIndex? = none ∧ e₀.isSkipped = false) :
    ∀ e ∈ [e₀], e.patchedIndex? = none ∧ e.isSkipped = false := by
  intro e he
  rw [List.mem_singleton.1 he]; exact h

theorem log_appendCopies (start stop : ℕ) (times : ℤ) (body : List Quad) :
    ∀ (remaining repetition : ℕ) (b : Builder),
      ∀ e ∈ (Builder.appendCopies start stop times body remaining repetition b).log,
        e.patchedIndex? = none ∧ e.isSkipped = false := by
  intro remaining
  induction remaining with
  | zero => intro repetition b e he; simp [Builder.appendCopies, Outcome.ok] at he
  | succ remaining ih =>
    intro repetition b e he
    unfold Builder.appendCopies at he
    split at he
    · rcases List.mem_append.1 he with he | he
      · exact quiet_singleton ⟨rfl, rfl⟩ e he
      · exact ih _ _ e he
    · exact quiet_singleton ⟨rfl, rfl⟩ e he

theorem log_unroll (b : Builder) (start stop : ℕ) (times : ℤ) :
    ∀ e ∈ (b.unroll start stop times).log, e.patchedIndex? = none ∧ e.isSkipped = false := by
  intro e he
  unfold Builder.unroll at he
  split at he
  · exact quiet_singleton ⟨rfl, rfl⟩ e he
  · split at he
    · simp [Outcome.fail] at he
    · exact log_appendCopies _ _ _ _ _ _ _ e he

theorem patched_eq_nil {log : List Event}
    (h : ∀ e ∈ log, e.patchedIndex? = none ∧ e.isSkipped = false) :
    log.filterMap Event.patchedIndex? = [] ∧ ∀ e ∈ log, e.isSkipped = false :=
  ⟨List.filterMap_eq_nil_iff.2 fun e he => (h e he).1, fun e he => (h e he).2⟩

/-- **A command patches what it spends**, and no index of a script is ever passed over. -/
theorem log_perform (h : Linear r g) (c : Command) :
    (r.perform c).log.filterMap Event.patchedIndex? = r.spends c ∧
      ∀ e ∈ (r.perform c).log, e.isSkipped = false := by
  cases c with
  | emit mnemonic arg1 arg2 dest list =>
    by_cases hroom : r.builder.length < r.builder.limit
    · rw [Replay.perform_emit_of_room hroom]
      exact patched_eq_nil (quiet_singleton ⟨rfl, rfl⟩)
    · rw [Replay.perform_emit_of_full hroom]
      exact patched_eq_nil (quiet_singleton ⟨rfl, rfl⟩)
  | temporary => exact patched_eq_nil (quiet_singleton ⟨rfl, rfl⟩)
  | label => exact patched_eq_nil (quiet_singleton ⟨rfl, rfl⟩)
  | merge into source => exact patched_eq_nil fun e he => absurd he (List.not_mem_nil)
  | patch name target =>
    cases hget : r.lists.get? name with
    | none =>
      rw [Replay.perform_patch_of_none hget, Replay.spends_of_none hget]
      exact patched_eq_nil fun e he => absurd he (List.not_mem_nil)
    | some list =>
      have hlist := NamedLists.getD_of_some hget
      have hspends : r.spends (.patch name target) = list.indices := by
        rw [← hlist]; rfl
      rw [Replay.perform_patch_of_some hget, hspends]
      -- what is held names instructions, so backpatching passes over nothing
      exact Builder.log_backpatch list _ _ fun i hi =>
        h.held_bounds (Linear.getD_subset name (hlist ▸ hi))
  | unroll start stop times => exact patched_eq_nil (log_unroll _ _ _ _)
  | reset => exact patched_eq_nil (quiet_singleton ⟨rfl, rfl⟩)

/-- What a line spends. -/
def Replay.spentBy (r : Replay) (text : List Char) : List ℕ :=
  (Command.ofLine? text).elim [] r.spends

theorem log_step (h : Linear r g) (text : List Char) :
    (r.step text).log.filterMap Event.patchedIndex? = r.spentBy text ∧
      ∀ e ∈ (r.step text).log, e.isSkipped = false := by
  unfold Replay.spentBy
  rcases Replay.step_cases r text with ⟨hc, hs⟩ | ⟨_, _, _, hc, hs⟩ | ⟨_, _, c, hc, hs⟩
  · rw [hc, hs]
    exact patched_eq_nil fun e he => absurd he (List.not_mem_nil)
  · rw [hc, hs]
    exact patched_eq_nil (quiet_singleton ⟨rfl, rfl⟩)
  · have ha : Linear r.advance g := h.grow rfl le_rfl
    obtain ⟨h1, h2⟩ := log_perform ha c
    rw [hc, hs]
    refine ⟨h1.trans (spends_advance c), ?_⟩
    intro e he
    rcases List.mem_cons.1 he with rfl | he
    · rfl
    · exact h2 e he

/-- **Pending lists are linear.** After every executed line of any scripts, failed ones included, no
index is held twice, each names an instruction, and the indices held are those noted since the last
reset less those spent since then. So no index is spent twice between two resets, and each line
patches exactly what it spends without passing over an index. -/
theorem lists_linear (b : Builder) (sources : List String) :
    let r₀ := Replay.ofBuilder b
    let lines := r₀.executedIn sources
    r₀.follow lines = r₀.runs sources ∧
    ∀ n, let r := r₀.follow (lines.take n)
      let g := Ledger.empty.follow r₀ (lines.take n)
      r.lists.held.Nodup ∧
      (∀ i ∈ r.lists.held, 1 ≤ i ∧ i ≤ r.builder.length) ∧
      (∀ i, i ∈ r.lists.held ↔ i ∈ g.noted ∧ i ∉ g.spent) ∧
      g.spent.Nodup ∧
      ∀ text, lines[n]? = some text →
        (r.step text).log.filterMap Event.patchedIndex? = r.spentBy text ∧
        ∀ e ∈ (r.step text).log, e.isSkipped = false := by
  intro r₀ lines
  refine ⟨(Replay.runs_eq_follow sources r₀).symm, ?_⟩
  intro n r g
  have h : Linear r g := linear_follow (lines.take n) (Linear.start b)
  have hnd := List.nodup_append.1 h.nodup
  exact ⟨hnd.1, fun i hi => h.held_bounds hi, h.mem_held_iff, hnd.2.1, fun text _ => log_step h text⟩

end ThreeAddress.Script
