import Mathlib.Tactic
import ThreeAddress.Script.NamedLists

/-!
# Named lists as one stock of indices

`held` is everything that the named lists hold, list after list. What the operations do to it, up to
order:

* `held_erase`: taking a list out takes away what that list holds.
* `held_push`: pushing adds the index.
* `held_merge`: merging changes nothing, also if a list is merged into itself or is not there.

The last two need that no name occurs twice, which every operation keeps (`nodup_erase`,
`nodup_insert`, `nodup_merge`).
-/

namespace ThreeAddress.Script.NamedLists

open scoped List

variable {ls : NamedLists} {name : String}

/-- All indices on all lists, in the order of the lists. -/
def held (ls : NamedLists) : List ℕ := ls.entries.flatMap fun e => e.2.indices

theorem get?_eq_none_iff : ls.get? name = none ↔ name ∉ ls.names := by
  obtain ⟨entries⟩ := ls
  unfold get? names
  simp only
  induction entries with
  | nil => simp
  | cons e es ih =>
    obtain ⟨k, l⟩ := e
    rw [List.lookup_cons]
    by_cases h : name = k
    · subst h; simp
    · simp [beq_false_of_ne h, ih, h]

theorem get?_isSome_iff : (ls.get? name).isSome ↔ name ∈ ls.names := by
  rw [← not_iff_not, ← get?_eq_none_iff, Option.not_isSome_iff_eq_none]

theorem mem_of_get? {list : PendingList} (h : ls.get? name = some list) :
    (name, list) ∈ ls.entries := by
  obtain ⟨entries⟩ := ls
  unfold get? at h
  simp only at h ⊢
  induction entries with
  | nil => simp at h
  | cons e es ih =>
    obtain ⟨k, l⟩ := e
    rw [List.lookup_cons] at h
    by_cases hk : name = k
    · subst hk
      simp only [beq_self_eq_true, Option.some.injEq] at h
      subst h; exact List.mem_cons_self
    · simp only [beq_false_of_ne hk] at h
      exact List.mem_cons_of_mem _ (ih h)

/-- Without repeated names, a list is found under its name. -/
theorem get?_of_mem (hn : ls.names.Nodup) {list : PendingList} (h : (name, list) ∈ ls.entries) :
    ls.get? name = some list := by
  obtain ⟨entries⟩ := ls
  unfold get? names at *
  simp only at *
  induction entries with
  | nil => simp at h
  | cons e es ih =>
    obtain ⟨k, l⟩ := e
    rw [List.map_cons, List.nodup_cons] at hn
    rw [List.lookup_cons]
    rcases List.mem_cons.1 h with he | hes
    · simp only [Prod.mk.injEq] at he
      obtain ⟨rfl, rfl⟩ := he
      simp
    · have hk : name ≠ k := by
        rintro rfl; exact hn.1 (List.mem_map.2 ⟨_, hes, rfl⟩)
      simp only [beq_false_of_ne hk]
      exact ih hn.2 hes

theorem getD_of_none (h : ls.get? name = none) : ls.getD name = ∅ := by
  unfold getD; rw [h]; rfl

theorem getD_of_some {list : PendingList} (h : ls.get? name = some list) : ls.getD name = list := by
  unfold getD; rw [h]; rfl

/-! ## Names -/

theorem names_erase (ls : NamedLists) (name : String) :
    (ls.erase name).names = ls.names.erase name := by
  obtain ⟨entries⟩ := ls
  unfold erase names
  simp only
  induction entries with
  | nil => rfl
  | cons e es ih =>
    by_cases h : e.1 = name
    · simp [h]
    · rw [List.eraseP_cons_of_neg (by simpa using h), List.map_cons, List.map_cons,
        List.erase_cons_tail (by simpa using h), ih]

theorem names_insert (ls : NamedLists) (name : String) (list : PendingList) :
    (ls.insert name list).names = if name ∈ ls.names then ls.names else ls.names ++ [name] := by
  unfold insert
  by_cases h : name ∈ ls.names
  · rw [if_pos (get?_isSome_iff.2 h), if_pos h]
    unfold names
    rw [List.map_map]
    apply List.map_congr_left
    intro e _
    by_cases he : e.1 = name <;> simp [he]
  · rw [if_neg (by rw [get?_isSome_iff]; exact h), if_neg h]
    simp [names]

theorem nodup_erase (hn : ls.names.Nodup) (name : String) : (ls.erase name).names.Nodup := by
  rw [names_erase]; exact hn.erase name

theorem nodup_insert (hn : ls.names.Nodup) (name : String) (list : PendingList) :
    (ls.insert name list).names.Nodup := by
  rw [names_insert]
  split
  · exact hn
  · rename_i h
    exact List.nodup_append.2 ⟨hn, List.nodup_singleton _, by rintro a ha b hb rfl; simp_all⟩

theorem nodup_merge (hn : ls.names.Nodup) (into source : String) :
    (ls.merge into source).names.Nodup := by
  unfold merge
  exact nodup_insert (nodup_erase (nodup_erase hn source) into) _ _

theorem not_mem_names_erase (hn : ls.names.Nodup) : name ∉ (ls.erase name).names := by
  rw [names_erase]; exact hn.not_mem_erase

/-- The list that is merged into comes last, and the source is gone. -/
theorem names_merge (hn : ls.names.Nodup) (into source : String) :
    (ls.merge into source).names = (ls.names.erase source).erase into ++ [into] := by
  have hnot : into ∉ (ls.names.erase source).erase into := (hn.erase source).not_mem_erase
  unfold merge
  rw [names_insert, names_erase, names_erase, if_neg hnot]

theorem erase_of_not_mem (h : name ∉ ls.names) : ls.erase name = ls := by
  obtain ⟨entries⟩ := ls
  unfold erase
  rw [List.eraseP_of_forall_not]
  intro e he hk
  exact h (List.mem_map.2 ⟨e, he, by simpa using hk⟩)

/-! ## What the lists hold -/

theorem mem_held {i : ℕ} : i ∈ ls.held ↔ ∃ e ∈ ls.entries, i ∈ e.2.indices := List.mem_flatMap

/-- **Taking a list out** takes away exactly what it holds. -/
theorem held_erase (ls : NamedLists) (name : String) :
    ((ls.getD name).indices ++ (ls.erase name).held).Perm ls.held := by
  obtain ⟨entries⟩ := ls
  unfold getD get? erase held
  simp only
  induction entries with
  | nil => exact .refl _
  | cons e es ih =>
    obtain ⟨k, l⟩ := e
    rw [List.lookup_cons]
    by_cases h : k = name
    · subst h; simp
    · rw [List.eraseP_cons_of_neg (by simpa using h)]
      simp only [beq_false_of_ne (Ne.symm h), List.flatMap_cons]
      -- move the first list past the one that is taken out
      refine (List.perm_append_comm_assoc _ _ _).trans ?_
      exact List.Perm.append_left _ ih

/-- **Giving a name a list** puts it in the place of what the name had. -/
theorem held_insert (hn : ls.names.Nodup) (name : String) (list : PendingList) :
    (ls.insert name list).held.Perm (list.indices ++ (ls.erase name).held) := by
  by_cases h : name ∈ ls.names
  · obtain ⟨entries⟩ := ls
    unfold insert
    rw [if_pos (get?_isSome_iff.2 h)]
    unfold names at h hn
    unfold erase held
    simp only at *
    induction entries with
    | nil => simp at h
    | cons e es ih =>
      obtain ⟨k, l⟩ := e
      rw [List.map_cons, List.nodup_cons] at hn
      by_cases hk : k = name
      · subst hk
        -- the name does not occur again, so the other lists stay
        have hrest : es.map (fun e => if e.1 = k then (k, list) else e) = es := by
          conv_rhs => rw [← List.map_id es]
          apply List.map_congr_left
          intro e he
          have hne : e.1 ≠ k := by rintro rfl; exact hn.1 (List.mem_map.2 ⟨e, he, rfl⟩)
          rw [if_neg hne]; rfl
        rw [List.map_cons, hrest, List.eraseP_cons_of_pos (by simp)]
        simp
      · rw [List.map_cons, List.mem_cons] at h
        have hes := h.resolve_left (Ne.symm hk)
        rw [List.eraseP_cons_of_neg (by simpa using hk), List.map_cons, if_neg hk,
          List.flatMap_cons, List.flatMap_cons]
        exact (List.Perm.append_left _ (ih hn.2 hes)).trans (List.perm_append_comm_assoc _ _ _)
  · unfold insert
    rw [if_neg (by rw [get?_isSome_iff]; exact h), erase_of_not_mem h]
    unfold held
    rw [List.flatMap_append, List.flatMap_singleton]
    exact List.perm_append_comm

/-- **Pushing** adds the index to what is held. -/
theorem held_push (hn : ls.names.Nodup) (name : String) (index : ℕ) :
    (ls.push name index).held.Perm (ls.held ++ [index]) := by
  have h := held_insert hn name ((ls.getD name).push index)
  rw [PendingList.indices_push, List.append_assoc] at h
  refine h.trans ?_
  calc (ls.getD name).indices ++ ([index] ++ (ls.erase name).held)
    _ ~ (ls.getD name).indices ++ ((ls.erase name).held ++ [index]) :=
        List.Perm.append_left _ List.perm_append_comm
    _ = ((ls.getD name).indices ++ (ls.erase name).held) ++ [index] := (List.append_assoc ..).symm
    _ ~ ls.held ++ [index] := (held_erase ls name).append_right _

/-- **Merging** keeps what is held, whatever the two names are. -/
theorem held_merge (hn : ls.names.Nodup) (into source : String) :
    (ls.merge into source).held.Perm ls.held := by
  have hn' := nodup_erase hn source
  have hins := held_insert (nodup_erase hn' into) into
    (((ls.erase source).getD into).merge (ls.getD source))
  -- `into` is inserted where it was just taken out
  rw [erase_of_not_mem (not_mem_names_erase hn'), PendingList.indices_merge] at hins
  refine hins.trans ?_
  set x := ((ls.erase source).getD into).indices
  set y := (ls.getD source).indices
  set rest := ((ls.erase source).erase into).held
  calc x ++ y ++ rest
    _ = x ++ (y ++ rest) := List.append_assoc ..
    _ ~ y ++ (x ++ rest) := List.perm_append_comm_assoc _ _ _
    _ ~ y ++ (ls.erase source).held := List.Perm.append_left _ (held_erase _ into)
    _ ~ ls.held := held_erase ls source

end ThreeAddress.Script.NamedLists
