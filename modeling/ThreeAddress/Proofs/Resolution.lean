import ThreeAddress.Proofs.Linearity

/-!
# No jump is forgotten

A script is disciplined if every unresolved jump that it emits is put on a list, and if it copies no
unresolved jump. Then each unresolved jump waits on a list until that list is patched.

* `Covered`: every unresolved jump is on some list.
* `covered_step`, `covered_follow`: disciplined lines keep this, also those that fail.
* `unresolved_on_one_list`: as lists are linear, the jump is on exactly one of them. When no list
  holds anything, no jump is unresolved.
-/

namespace ThreeAddress

namespace Script

variable {r : Replay} {g : Ledger}

namespace Replay

/-- A command that leaves no unresolved jump without a list: an emission that makes a jump without
destination names a list, and an unrolling that finishes a copy copies no unresolved jump. -/
def Heeds (r : Replay) : Command → Prop
  | .emit mnemonic arg1 arg2 dest list =>
    r.builder.length < r.builder.limit → (Quad.ofText mnemonic arg1 arg2 dest).isJump = true →
      dest = none → list ≠ none
  | .unroll start stop times =>
    0 < r.builder.copyCount start (r.resolve stop) times →
      ∀ q ∈ r.builder.range start (r.resolve stop), q.isUnresolved = false
  | _ => True

instance (r : Replay) : (c : Command) → Decidable (r.Heeds c)
  | .emit mnemonic arg1 arg2 dest list =>
    inferInstanceAs (Decidable (r.builder.length < r.builder.limit →
      (Quad.ofText mnemonic arg1 arg2 dest).isJump = true → dest = none → list ≠ none))
  | .unroll start stop times =>
    inferInstanceAs (Decidable (0 < r.builder.copyCount start (r.resolve stop) times →
      ∀ q ∈ r.builder.range start (r.resolve stop), q.isUnresolved = false))
  | .temporary | .label | .merge _ _ | .patch _ _ | .reset => isTrue trivial

/-- A **disciplined line**: its command, if it has one, heeds the unresolved jumps. -/
def Disciplined (r : Replay) (text : List Char) : Prop := ∀ c ∈ Command.ofLine? text, r.Heeds c

instance (r : Replay) (text : List Char) : Decidable (r.Disciplined text) :=
  inferInstanceAs (Decidable (∀ c ∈ Command.ofLine? text, r.Heeds c))

/-- Every unresolved jump is on a list. -/
def Covered (r : Replay) : Prop := ∀ i ∈ r.builder.unresolved, i ∈ r.lists.held

end Replay

open Replay

theorem covered_emit (h : Linear r g) (hc : r.Covered) {mnemonic : String}
    {arg1 arg2 dest list : Option String} (hd : r.Heeds (.emit mnemonic arg1 arg2 dest list)) :
    (r.perform (.emit mnemonic arg1 arg2 dest list)).state.Covered := by
  by_cases hroom : r.builder.length < r.builder.limit
  · rw [perform_emit_of_room hroom, Outcome.state_ok]
    set q := Quad.ofText mnemonic arg1 arg2 dest
    intro i hi
    have hbuilder : ((r.withBuilder (r.builder.append [q])).note list r.builder.next).builder =
        r.builder.append [q] := by cases list <;> rfl
    rw [hbuilder] at hi
    obtain ⟨qi, hqi, hu⟩ := Builder.mem_unresolved.1 hi
    rcases lt_or_ge i r.builder.next with hlt | hge
    · -- an old jump is where it was, and lists only grow
      rw [Builder.quad?_append_left _ hlt] at hqi
      have hold := hc i (Builder.mem_unresolved.2 ⟨qi, hqi, hu⟩)
      cases list with
      | none => exact hold
      | some name =>
        exact (NamedLists.held_push h.names name _).mem_iff.2 (List.mem_append_left _ hold)
    · obtain ⟨j, rfl⟩ := Nat.exists_eq_add_of_le hge
      rw [Builder.quad?_append_right] at hqi
      have hj : j = 0 := by
        have := (List.getElem?_eq_some_iff.1 hqi).1
        simpa using this
      subst hj
      simp only [List.getElem?_cons_zero, Option.some.injEq] at hqi
      subst hqi
      obtain ⟨hjump, hnone⟩ := Quad.isUnresolved_ofText.1 hu
      -- the new jump has no destination, so the line names a list for it
      cases list with
      | none => exact absurd rfl (hd hroom hjump hnone)
      | some name =>
        exact (NamedLists.held_push h.names name _).mem_iff.2
          (List.mem_append_right _ (List.mem_singleton.2 rfl))
  · rw [perform_emit_of_full hroom]; exact hc

theorem covered_patch (hc : r.Covered) (name : String) (target : Place) :
    (r.perform (.patch name target)).state.Covered := by
  cases hget : r.lists.get? name with
  | none => rw [perform_patch_of_none hget]; exact hc
  | some list =>
    have hlist := NamedLists.getD_of_some hget
    rw [perform_patch_of_some hget, Outcome.state_ok]
    intro i hi
    obtain ⟨q, hq, hu⟩ := Builder.mem_unresolved.1 hi
    rw [Builder.quad?_backpatch] at hq
    by_cases hmem : i ∈ list.indices
    · -- a patched instruction has a target, so it is not unresolved
      rw [if_pos hmem] at hq
      obtain ⟨q₀, -, rfl⟩ := Option.map_eq_some_iff.1 hq
      unfold Quad.isUnresolved at hu
      exact absurd (Bool.and_eq_true_iff.1 hu).2 (by simp [Quad.retarget])
    · rw [if_neg hmem] at hq
      have hold := hc i (Builder.mem_unresolved.2 ⟨q, hq, hu⟩)
      rw [← (NamedLists.held_erase r.lists name).mem_iff, hlist] at hold
      exact (List.mem_append.1 hold).resolve_left hmem

theorem covered_unroll (hc : r.Covered) {start : ℕ} {stop : Place} {times : ℤ}
    (hd : r.Heeds (.unroll start stop times)) :
    (r.perform (.unroll start stop times)).state.Covered := by
  intro i hi
  obtain ⟨q, hq, hu⟩ := Builder.mem_unresolved.1 hi
  have hstate : (r.perform (.unroll start stop times)).state.builder =
      (r.builder.unroll start (r.resolve stop) times).state := rfl
  rw [hstate] at hq
  rcases lt_or_ge i r.builder.next with hlt | hge
  · rw [Builder.quad?_unroll_old hlt] at hq
    exact hc i (Builder.mem_unresolved.2 ⟨q, hq, hu⟩)
  · -- a copied instruction is unresolved only if the original is
    obtain ⟨j, rfl⟩ := Nat.exists_eq_add_of_le hge
    rw [Builder.unroll_state, Builder.quad?_append_right] at hq
    obtain ⟨q₀, hq₀, offset, rfl⟩ := Builder.mem_copies _ _ (List.mem_of_getElem? hq)
    have hpos : 0 < r.builder.copyCount start (r.resolve stop) times := by
      by_contra h0
      rw [Nat.eq_zero_of_not_pos h0, Builder.copies] at hq
      simp at hq
    rw [relocate_isUnresolved, hd hpos q₀ hq₀] at hu
    cases hu

/-- **A disciplined command leaves no unresolved jump without a list.** -/
theorem covered_perform (h : Linear r g) (hc : r.Covered) {c : Command} (hd : r.Heeds c) :
    (r.perform c).state.Covered := by
  cases c with
  | emit mnemonic arg1 arg2 dest list => exact covered_emit h hc hd
  | temporary => exact hc
  | label => exact hc
  | merge into source =>
    intro i hi
    exact (NamedLists.held_merge h.names into source).mem_iff.2 (hc i hi)
  | patch name target => exact covered_patch hc name target
  | unroll start stop times => exact covered_unroll hc hd
  | reset =>
    intro i hi
    obtain ⟨q, hq, -⟩ := Builder.mem_unresolved.1 hi
    have := Builder.quad?_isSome.1 (Option.isSome_of_mem hq)
    simp [Replay.perform, Builder.reset, Builder.empty, Builder.next, Builder.length] at this
    omega

theorem covered_step (h : Linear r g) (hc : r.Covered) {text : List Char}
    (hd : r.Disciplined text) : (r.step text).state.Covered := by
  rcases Replay.step_cases r text with ⟨_, hs⟩ | ⟨_, _, _, _, hs⟩ | ⟨_, _, c, hl, hs⟩
  · rw [hs]; exact hc
  · rw [hs]; exact hc
  · have ha : Linear r.advance g := h.grow rfl le_rfl
    have hca : r.advance.Covered := hc
    -- `Heeds` does not look at the line count
    have hheeds : r.advance.Heeds c := by
      have := hd c hl
      cases c with
      | unroll start stop times => cases stop <;> exact this
      | _ => exact this
    rw [hs, Outcome.state_after]
    exact covered_perform ha hca hheeds

theorem covered_follow (texts : List (List Char)) :
    ∀ {r : Replay} {g : Ledger}, Linear r g → r.Covered →
      (∀ m text, texts[m]? = some text → (r.follow (texts.take m)).Disciplined text) →
      (r.follow texts).Covered := by
  induction texts with
  | nil => intro r g _ hc _; exact hc
  | cons text texts ih =>
    intro r g h hc hd
    refine ih (linear_step h text) (covered_step h hc (hd 0 text rfl)) ?_
    intro m t ht
    exact hd (m + 1) t ht

/-- **No jump is forgotten.** Let scripts be run on an empty builder, and let the first `n` executed
lines be disciplined. Then after them each unresolved jump is on exactly one named list; and if no
list holds anything, no jump is unresolved. -/
theorem unresolved_on_one_list (b : Builder) (hb : b.length = 0) (sources : List String) (n : ℕ)
    (hd : ∀ m < n, ∀ text, ((ofBuilder b).executedIn sources)[m]? = some text →
      ((ofBuilder b).follow (((ofBuilder b).executedIn sources).take m)).Disciplined text) :
    let r := (ofBuilder b).follow (((ofBuilder b).executedIn sources).take n)
    (ofBuilder b).follow ((ofBuilder b).executedIn sources) = (ofBuilder b).runs sources ∧
    (∀ i ∈ r.builder.unresolved,
      ∃! name, ∃ list, r.lists.get? name = some list ∧ i ∈ list.indices) ∧
    ((∀ name list, r.lists.get? name = some list → list.isEmpty = true) →
      r.builder.unresolved = []) := by
  intro r
  set lines := (ofBuilder b).executedIn sources
  have hlin : Linear r (Ledger.empty.follow (ofBuilder b) (lines.take n)) :=
    linear_follow _ (Linear.start b)
  have hstart : (ofBuilder b).Covered := by
    intro i hi
    obtain ⟨q, hq, -⟩ := Builder.mem_unresolved.1 hi
    have := Builder.quad?_isSome.1 (Option.isSome_of_mem hq)
    simp only [ofBuilder, Builder.next, hb] at this
    omega
  have hcov : r.Covered := by
    refine covered_follow _ (Linear.start b) hstart ?_
    intro m text ht
    have hm : m < n := by
      have := (List.getElem?_eq_some_iff.1 ht).1
      rw [List.length_take] at this; omega
    rw [List.getElem?_take_of_lt hm] at ht
    rw [List.take_take, min_eq_left hm.le]
    exact hd m hm text ht
  refine ⟨(runs_eq_follow sources (ofBuilder b)).symm,
    fun i hi => hlin.existsUnique_list (hcov i hi), ?_⟩
  intro hempty
  rw [List.eq_nil_iff_forall_not_mem]
  intro i hi
  obtain ⟨name, ⟨list, hget, hmem⟩, -⟩ := hlin.existsUnique_list (hcov i hi)
  have := hempty name list hget
  unfold PendingList.isEmpty at this
  rw [List.isEmpty_iff.1 this] at hmem
  cases hmem

/-- A script whose last line is an unrolling that copies one resolved jump and then finds the buffer
full: the branch at index 1 still waits on its list. -/
theorem unresolved_on_one_list_full :
    let script := "emit IF LTI | x | 5 -> false\nemit GOTO -> true\npatch true here\n" ++
      "emit := | 1 | | y\nunroll 2 4 5"
    let r := (ofBuilder (.empty 6)).follow (((ofBuilder (.empty 6)).executedIn [script]).take 5)
    r.builder.unresolved = [1] ∧ r.builder.length = 5 ∧
      ∃! name, ∃ list, r.lists.get? name = some list ∧ 1 ∈ list.indices := by
  intro script r
  have hlines : (ofBuilder (.empty 6)).executedIn [script] =
      ["emit IF LTI | x | 5 -> false".toList, "emit GOTO -> true".toList, "patch true here".toList,
        "emit := | 1 | | y".toList, "unroll 2 4 5".toList] := by decide +kernel
  have hr : r.builder.unresolved = [1] ∧ r.builder.length = 5 := by
    simp only [r, hlines]; decide +kernel
  have hd : ∀ m < 5, ∀ text ∈ ((ofBuilder (.empty 6)).executedIn [script])[m]?,
      ((ofBuilder (.empty 6)).follow
        (((ofBuilder (.empty 6)).executedIn [script]).take m)).Disciplined text := by
    rw [hlines]; decide +kernel
  have h := unresolved_on_one_list (.empty 6) rfl [script] 5 hd
  exact ⟨hr.1, hr.2, h.2.1 1 (by rw [hr.1]; exact List.mem_singleton.2 rfl)⟩

end Script

end ThreeAddress
