import ThreeAddress.Proofs.Backpatching

/-!
# The journal of a patch

Backpatching tells of every entry of its list what became of it. What it tells of an entry depends on the
code that the entries before it left. Here it is told from the code as it was before the patch.

* `entryRecords`: the records of one entry, from the code before the patch and the earlier entries.
* `log_patch_after`: **the records of an entry** are these, in the code that the earlier entries left.
* `log_backpatch_eq`: so the journal is the records of the entries, one after the other.
* `log_backpatch`: if every entry names an instruction, each is told to be patched and none passed over.
* `backpatch_journal`: what this means for the warnings and for the number of targets that are replaced.
-/

namespace ThreeAddress

/-- Whether an event says that an instruction had another target. -/
def Event.isRetargeted : Event → Bool
  | .retargeted .. => true
  | _ => false

namespace Builder

/-- The target that an instruction has. -/
def target? (b : Builder) (i : ℕ) : Option ℕ := (b.quad? i).bind fun q => q.dest.target?

/-- The instruction has a target, and it is another one than the given. -/
def AimsElsewhere (b : Builder) (target i : ℕ) : Prop :=
  (b.target? i).isSome ∧ b.target? i ≠ some target

instance (b : Builder) (target i : ℕ) : Decidable (b.AimsElsewhere target i) :=
  inferInstanceAs (Decidable (_ ∧ _))

/-- **The records of an entry** `i` of a list that is patched. If it names an instruction, the write to it
is told, and before that the target that is replaced, but only at the first entry for the instruction. -/
def entryRecords (b : Builder) (target : ℕ) (earlier : List ℕ) (i : ℕ) : List Event :=
  if 1 ≤ i ∧ i ≤ b.length then
    (match b.target? i with
      | some previous =>
        if i ∉ earlier ∧ previous ≠ target then [.retargeted i previous target] else []
      | none => []) ++ [.patched i target]
  else [.skipped i b.length target]

variable {b : Builder} {target i : ℕ} {earlier : List ℕ}

theorem entryRecords_of_outside (h : ¬ (1 ≤ i ∧ i ≤ b.length)) :
    b.entryRecords target earlier i = [.skipped i b.length target] := if_neg h

/-- A target is told of exactly if it is replaced by another one and no earlier entry did so. -/
theorem entryRecords_of_inside (h : 1 ≤ i ∧ i ≤ b.length) (target : ℕ) (earlier : List ℕ) :
    (∃ previous, b.target? i = some previous ∧ previous ≠ target ∧ i ∉ earlier ∧
      b.entryRecords target earlier i = [.retargeted i previous target, .patched i target]) ∨
    (¬ (b.AimsElsewhere target i ∧ i ∉ earlier) ∧
      b.entryRecords target earlier i = [.patched i target]) := by
  unfold entryRecords AimsElsewhere
  rw [if_pos h]
  cases ht : b.target? i with
  | none => exact Or.inr ⟨by simp, rfl⟩
  | some previous =>
    by_cases hnew : i ∉ earlier ∧ previous ≠ target
    · refine Or.inl ⟨previous, rfl, hnew.2, hnew.1, ?_⟩
      simp only [if_pos hnew, List.singleton_append]
    · refine Or.inr ⟨?_, ?_⟩
      · rintro ⟨⟨-, hne⟩, hmem⟩
        exact hnew ⟨hmem, fun heq => hne (by rw [heq])⟩
      · simp only [if_neg hnew, List.nil_append]

/-! ## Entry by entry -/

theorem retargeting_eq (i : ℕ) (dest : Destination) (target : ℕ) :
    retargeting i dest target =
      match dest.target? with
      | some previous => if previous ≠ target then [.retargeted i previous target] else []
      | none => [] := by
  cases dest with
  | target previous =>
    by_cases h : previous = target <;> simp [retargeting, Destination.target?, h]
  | _ => rfl

/-- **What is told of an entry** once the earlier entries are patched. -/
theorem log_patch_after (b : Builder) (target : ℕ) (earlier : List ℕ) (i : ℕ) :
    ((b.backpatch ⟨earlier⟩ target).value.patch i target).log = b.entryRecords target earlier i := by
  set b' := (b.backpatch ⟨earlier⟩ target).value
  have hquad : b'.quad? i = if i ∈ earlier then (b.quad? i).map (·.retarget target) else b.quad? i :=
    quad?_backpatch ⟨earlier⟩ target i b
  have hlength : b'.length = b.length := length_backpatch ⟨earlier⟩ target b
  cases hq : b.quad? i with
  | none =>
    have hout : ¬ (1 ≤ i ∧ i ≤ b.length) := by
      rintro ⟨h1, h2⟩
      obtain ⟨q, hsome⟩ := exists_quad (b := b) h1 (Nat.lt_succ_of_le h2)
      rw [hq] at hsome; cases hsome
    have hnone : b'.quad? i = none := by rw [hquad, hq, Option.map_none, ite_self]
    rw [entryRecords_of_outside hout]
    unfold patch
    rw [hnone, hlength]
  | some q =>
    have hin : 1 ≤ i ∧ i ≤ b.length := by
      obtain ⟨h1, h2⟩ := bounds_of_quad? hq
      exact ⟨h1, Nat.le_of_lt_succ h2⟩
    have htarget : b.target? i = q.dest.target? := by unfold target?; rw [hq]; rfl
    unfold entryRecords
    rw [if_pos hin, htarget]
    by_cases hmem : i ∈ earlier
    · -- an earlier entry has given the instruction the target that it gets again
      have hsome : b'.quad? i = some (q.retarget target) := by rw [hquad, if_pos hmem, hq]; rfl
      have hsame : retargeting i (q.retarget target).dest target = [] := by
        rw [retargeting_eq]; simp [Quad.retarget, Destination.target?]
      unfold patch
      rw [hsome]
      simp only [hsame]
      cases q.dest.target? <;> simp [hmem]
    · have hsome : b'.quad? i = some q := by rw [hquad, if_neg hmem, hq]
      unfold patch
      rw [hsome]
      simp only [retargeting_eq]
      cases q.dest.target? <;> simp [hmem]

theorem log_backpatch_after (b : Builder) (target : ℕ) (rest : List ℕ) : ∀ earlier : List ℕ,
    ((b.backpatch ⟨earlier⟩ target).value.backpatch ⟨rest⟩ target).log =
      (rest.zipIdx earlier.length).flatMap fun p =>
        b.entryRecords target ((earlier ++ rest).take p.2) p.1 := by
  -- on the entries to come, with those already patched general
  induction rest with
  | nil => intro earlier; rfl
  | cons i rest ih =>
    intro earlier
    have hnext : ((b.backpatch ⟨earlier⟩ target).value.patch i target).value =
        (b.backpatch ⟨earlier ++ [i]⟩ target).value := (backpatch_append earlier [i] target b).symm
    have hrest := ih (earlier ++ [i])
    rw [List.append_assoc, List.singleton_append, List.length_append, List.length_singleton] at hrest
    rw [backpatch_cons, Logged.log_bind, log_patch_after, hnext, hrest, List.zipIdx_cons,
      List.flatMap_cons, List.take_left]

/-- **The journal of a patch** is the records of its entries, one after the other. -/
theorem log_backpatch_eq (b : Builder) (list : PendingList) (target : ℕ) :
    (b.backpatch list target).log = list.indices.zipIdx.flatMap fun p =>
      b.entryRecords target (list.indices.take p.2) p.1 :=
  log_backpatch_after b target list.indices []

/-- What is read off the records of each entry, whatever came before it, is read off the journal. -/
theorem filterMap_log {β : Type} {view : Event → Option β} {found : ℕ → Option β}
    (h : ∀ earlier i, (b.entryRecords target earlier i).filterMap view = (found i).toList)
    (list : PendingList) :
    (b.backpatch list target).log.filterMap view = list.indices.filterMap found := by
  rw [log_backpatch_eq, List.filterMap_flatMap, List.filterMap_eq_flatMap_toList found]
  simp only [h]
  rw [← List.flatMap_map Prod.fst (fun i => (found i).toList), List.zipIdx_map_fst]

theorem mem_log {list : PendingList} {e : Event} (h : e ∈ (b.backpatch list target).log) :
    ∃ earlier i, e ∈ b.entryRecords target earlier i := by
  rw [log_backpatch_eq] at h
  obtain ⟨p, -, he⟩ := List.mem_flatMap.1 h
  exact ⟨_, _, he⟩

/-- **The writes** that are told of are those to the entries that name an instruction. -/
theorem patched_log (b : Builder) (list : PendingList) (target : ℕ) :
    (b.backpatch list target).log.filterMap Event.patchedIndex? =
      list.indices.filter fun i => 1 ≤ i ∧ i ≤ b.length := by
  rw [← List.filterMap_eq_filter]
  refine filterMap_log (fun earlier i => ?_) list
  by_cases h : 1 ≤ i ∧ i ≤ b.length
  · have hfound : Option.guard (fun i => decide (1 ≤ i ∧ i ≤ b.length)) i = some i := by
      simp [Option.guard, h]
    rw [hfound]
    rcases entryRecords_of_inside h target earlier with ⟨previous, -, -, -, he⟩ | ⟨-, he⟩
    · rw [he]; rfl
    · rw [he]; rfl
  · have hnone : Option.guard (fun i => decide (1 ≤ i ∧ i ≤ b.length)) i = none := by
      simp [Option.guard, h]
    rw [hnone, entryRecords_of_outside h]; rfl

/-- **The warnings** are those for the entries that name no instruction. -/
theorem warnings_log (b : Builder) (list : PendingList) (target : ℕ) :
    (b.backpatch list target).log.filter (fun e => e.level = .warn) =
      (list.indices.filter fun i => ¬ (1 ≤ i ∧ i ≤ b.length)).map
        fun i => .skipped i b.length target := by
  rw [← List.filterMap_eq_filter, ← List.filterMap_eq_map, List.filterMap_filter]
  refine filterMap_log (fun earlier i => ?_) list
  by_cases h : 1 ≤ i ∧ i ≤ b.length
  · rcases entryRecords_of_inside h target earlier with ⟨previous, -, -, -, he⟩ | ⟨-, he⟩
    · rw [he]; simp [Event.level, Option.guard, h]
    · rw [he]; simp [Event.level, Option.guard, h]
  · rw [entryRecords_of_outside h]
    simp [Event.level, Option.guard, h]

theorem level_log {list : PendingList} {e : Event} (he : e ∈ (b.backpatch list target).log) :
    e.level = if e.isSkipped then .warn else .debug := by
  obtain ⟨earlier, i, hrecord⟩ := mem_log he
  by_cases h : 1 ≤ i ∧ i ≤ b.length
  · rcases entryRecords_of_inside h target earlier with ⟨previous, -, -, -, hr⟩ | ⟨-, hr⟩
    · rw [hr, List.mem_cons, List.mem_singleton] at hrecord
      rcases hrecord with rfl | rfl <;> rfl
    · rw [hr, List.mem_singleton] at hrecord
      rw [hrecord]; rfl
  · rw [entryRecords_of_outside h, List.mem_singleton] at hrecord
    rw [hrecord]; rfl

/-- **If every entry names an instruction**, each is told to be written to, and none to be passed over. -/
theorem log_backpatch (list : PendingList) (target : ℕ) (b : Builder)
    (h : ∀ i ∈ list.indices, 1 ≤ i ∧ i ≤ b.length) :
    (b.backpatch list target).log.filterMap Event.patchedIndex? = list.indices ∧
      ∀ e ∈ (b.backpatch list target).log, e.isSkipped = false := by
  refine ⟨?_, ?_⟩
  · rw [patched_log, List.filter_eq_self]
    intro i hi
    exact decide_eq_true (h i hi)
  · intro e he
    by_contra hskipped
    have hlevel : e.level = .warn := by
      rw [level_log he, if_pos (Bool.eq_true_of_not_eq_false hskipped)]
    have hwarning : e ∈ (b.backpatch list target).log.filter (fun e => e.level = .warn) :=
      List.mem_filter.2 ⟨he, decide_eq_true hlevel⟩
    rw [warnings_log] at hwarning
    obtain ⟨i, hi, -⟩ := List.mem_map.1 hwarning
    obtain ⟨hmem, hout⟩ := List.mem_filter.1 hi
    exact of_decide_eq_true hout (h i hmem)

/-! ## Replaced targets -/

theorem countP_entryRecords (b : Builder) (target : ℕ) (earlier : List ℕ) (i : ℕ) :
    (b.entryRecords target earlier i).countP Event.isRetargeted =
      if b.AimsElsewhere target i ∧ i ∉ earlier then 1 else 0 := by
  by_cases h : 1 ≤ i ∧ i ≤ b.length
  · rcases entryRecords_of_inside h target earlier with ⟨previous, ht, hne, hmem, he⟩ | ⟨hnot, he⟩
    · have haims : b.AimsElsewhere target i := by
        unfold AimsElsewhere
        rw [ht]
        exact ⟨rfl, fun heq => hne (Option.some.inj heq)⟩
      rw [he, if_pos ⟨haims, hmem⟩]; rfl
    · rw [he, if_neg hnot]; rfl
  · have hnot : ¬ (b.AimsElsewhere target i ∧ i ∉ earlier) := by
      rintro ⟨⟨hsome, -⟩, -⟩
      obtain ⟨t, ht⟩ := Option.isSome_iff_exists.1 hsome
      obtain ⟨q, hq, -⟩ := Option.bind_eq_some_iff.1 ht
      obtain ⟨h1, h2⟩ := bounds_of_quad? hq
      exact h ⟨h1, Nat.le_of_lt_succ h2⟩
    rw [entryRecords_of_outside h, if_neg hnot]; rfl

/-- Of the entries to come, those count that aim elsewhere and have not come before. -/
theorem countP_records (b : Builder) (target : ℕ) (rest : List ℕ) : ∀ earlier : List ℕ,
    ((rest.zipIdx earlier.length).flatMap fun p =>
        b.entryRecords target ((earlier ++ rest).take p.2) p.1).countP Event.isRetargeted =
      ((rest.toFinset \ earlier.toFinset).filter (b.AimsElsewhere target)).card := by
  induction rest with
  | nil => intro earlier; simp
  | cons i rest ih =>
    intro earlier
    have hrest := ih (earlier ++ [i])
    rw [List.append_assoc, List.singleton_append, List.length_append, List.length_singleton] at hrest
    rw [List.zipIdx_cons, List.flatMap_cons, List.countP_append, hrest, List.take_left,
      countP_entryRecords]
    set later := rest.toFinset \ (earlier ++ [i]).toFinset with hlater
    have hi : i ∉ later := by simp [hlater]
    by_cases hmem : i ∈ earlier
    · have hsame : (i :: rest).toFinset \ earlier.toFinset = later := by
        ext j
        by_cases hj : j = i <;> simp [hlater, hj, hmem]
      rw [hsame, if_neg (by simp [hmem]), Nat.zero_add]
    · have hmore : (i :: rest).toFinset \ earlier.toFinset = insert i later := by
        ext j
        by_cases hj : j = i <;> simp [hlater, hj, hmem]
      rw [hmore, Finset.filter_insert]
      by_cases haims : b.AimsElsewhere target i
      · have hnot : i ∉ later.filter (b.AimsElsewhere target) := fun h => hi (Finset.mem_filter.1 h).1
        rw [if_pos ⟨haims, hmem⟩, if_pos haims, Finset.card_insert_of_notMem hnot, Nat.add_comm]
      · rw [if_neg (fun h => haims h.1), if_neg haims, Nat.zero_add]

/-- **The journal of a patch is faithful.** For any list and target it holds the records of the entries in
the order of the list. An entry that names no instruction has one record, the warning that it is passed
over. An entry that names one has the record of the write, and before it the record of the target that is
replaced if this is the first entry for the instruction and its target before the patch was another one. So
the warnings tell of all entries that name no instruction, the writes of all others, and the number of
targets that are told to be replaced is the number of listed instructions that had another target. -/
theorem backpatch_journal (b : Builder) (list : PendingList) (target : ℕ) :
    let log := (b.backpatch list target).log
    (log = list.indices.zipIdx.flatMap fun p =>
      b.entryRecords target (list.indices.take p.2) p.1) ∧
    (∀ e ∈ log, e.level = if e.isSkipped then .warn else .debug) ∧
    log.filter (fun e => e.level = .warn) =
      (list.indices.filter fun i => ¬ (1 ≤ i ∧ i ≤ b.length)).map
        (fun i => .skipped i b.length target) ∧
    log.filterMap Event.patchedIndex? = list.indices.filter (fun i => 1 ≤ i ∧ i ≤ b.length) ∧
    log.countP Event.isRetargeted = (list.indices.toFinset.filter (b.AimsElsewhere target)).card := by
  intro log
  have hlog : log = _ := log_backpatch_eq b list target
  refine ⟨hlog, fun e he => level_log he, warnings_log b list target, patched_log b list target, ?_⟩
  have hcount := countP_records b target list.indices []
  rw [List.toFinset_nil, Finset.sdiff_empty] at hcount
  rw [hlog]
  exact hcount

/-- A jump with another target is listed twice, between entries that name nothing. -/
example :
    let b := (empty 5).append [.goto none, .goto (some 9)]
    (b.backpatch ⟨[2, 0, 1, 2, 3]⟩ 4).log = [.retargeted 2 9 4, .patched 2 4, .skipped 0 2 4, .patched 1 4,
      .patched 2 4, .skipped 3 2 4] := by decide

end Builder

end ThreeAddress
