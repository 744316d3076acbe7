import ThreeAddress.Builder.Backpatch
import ThreeAddress.Proofs.Code

/-!
# What backpatching changes

Patching rewrites the destinations of the listed instructions and nothing else.

* `quad?_backpatch`: the code afterwards, instruction by instruction.
* `backpatch_congr`, `backpatch_append`: what a list does is a matter of the instructions it names.
* `backpatch_exact`: **the exact effect of backpatching**, for lists with any entries.
-/

namespace ThreeAddress

/-- The index that an event says was given a target. -/
def Event.patchedIndex? : Event → Option ℕ
  | .patched index _ => some index
  | _ => none

/-- Whether an event says that a pending index was passed over. -/
def Event.isSkipped : Event → Bool
  | .skipped .. => true
  | _ => false

namespace Builder

variable {b : Builder}

theorem length_patch (b : Builder) (index target : ℕ) : (b.patch index target).value.length = b.length := by
  unfold patch
  split
  · rfl
  · simp [length]

theorem quad?_patch (b : Builder) (index target j : ℕ) :
    (b.patch index target).value.quad? j =
      if j = index then (b.quad? j).map (·.retarget target) else b.quad? j := by
  unfold patch
  cases hq : b.quad? index with
  | none =>
    by_cases hj : j = index
    · subst hj; rw [if_pos rfl, hq]; rfl
    · rw [if_neg hj]
  | some q =>
    obtain ⟨h1, h2⟩ := quad?_isSome.1 (Option.isSome_of_mem hq)
    unfold next length at h2
    simp only
    by_cases hj : j = index
    · subst hj
      rw [if_pos rfl, hq]
      unfold quad?
      rw [if_neg (by omega), Array.getElem?_setIfInBounds_self_of_lt (by omega)]; rfl
    · rw [if_neg hj]
      unfold quad?
      by_cases h0 : j = 0
      · rw [if_pos h0, if_pos h0]
      · rw [if_neg h0, if_neg h0, Array.getElem?_setIfInBounds_ne (by omega)]

theorem backpatch_nil (b : Builder) (target : ℕ) : b.backpatch ⟨[]⟩ target = ⟨b, []⟩ := rfl

theorem backpatch_cons (b : Builder) (i : ℕ) (is : List ℕ) (target : ℕ) :
    b.backpatch ⟨i :: is⟩ target =
      (b.patch i target >>= fun b' => b'.backpatch ⟨is⟩ target) := rfl

/-- Patching touches nothing but the code. -/
theorem patch_frame (b : Builder) (index target : ℕ) :
    (b.patch index target).value.limit = b.limit ∧
      (b.patch index target).value.temporaries = b.temporaries ∧
      (b.patch index target).value.labels = b.labels := by
  unfold patch
  split
  · exact ⟨rfl, rfl, rfl⟩
  · exact ⟨rfl, rfl, rfl⟩

theorem backpatch_frame (list : PendingList) (target : ℕ) :
    ∀ b : Builder, (b.backpatch list target).value.limit = b.limit ∧
      (b.backpatch list target).value.temporaries = b.temporaries ∧
      (b.backpatch list target).value.labels = b.labels := by
  obtain ⟨is⟩ := list
  induction is with
  | nil => intro b; exact ⟨rfl, rfl, rfl⟩
  | cons i is ih =>
    intro b
    obtain ⟨h1, h2, h3⟩ := patch_frame b i target
    obtain ⟨h4, h5, h6⟩ := ih (b.patch i target).value
    rw [backpatch_cons, Logged.value_bind]
    exact ⟨h4.trans h1, h5.trans h2, h6.trans h3⟩

theorem length_backpatch (list : PendingList) (target : ℕ) :
    ∀ b : Builder, (b.backpatch list target).value.length = b.length := by
  obtain ⟨is⟩ := list
  induction is with
  | nil => intro b; rfl
  | cons i is ih =>
    intro b
    rw [backpatch_cons, Logged.value_bind, ih, length_patch]

/-- **The code after backpatching**: the listed instructions have the target, the others are as they
were. -/
theorem quad?_backpatch (list : PendingList) (target j : ℕ) :
    ∀ b : Builder, (b.backpatch list target).value.quad? j =
      if j ∈ list.indices then (b.quad? j).map (·.retarget target) else b.quad? j := by
  obtain ⟨is⟩ := list
  simp only
  induction is with
  | nil => intro b; simp [backpatch_nil]
  | cons i is ih =>
    intro b
    rw [backpatch_cons, Logged.value_bind, ih, quad?_patch]
    by_cases hi : j = i
    · subst hi
      -- patched once or more often, the last target is the same
      by_cases hmem : j ∈ is
      · simp [hmem, Function.comp_def, Quad.retarget]
      · simp [hmem]
    · simp [hi]

/-! ## The effect of a list -/

theorem backpatch_append (xs ys : List ℕ) (target : ℕ) : ∀ b : Builder,
    (b.backpatch ⟨xs ++ ys⟩ target).value =
      ((b.backpatch ⟨xs⟩ target).value.backpatch ⟨ys⟩ target).value := by
  induction xs with
  | nil => intro b; rfl
  | cons i xs ih =>
    intro b
    rw [List.cons_append, backpatch_cons, backpatch_cons, Logged.value_bind, Logged.value_bind, ih]

/-- **The instructions that a list names decide what it does.** Lists that name the same ones do the
same, whatever the order of their entries is, how often each occurs, and what else they hold. -/
theorem backpatch_congr {list list' : PendingList} (target : ℕ)
    (h : ∀ i, 1 ≤ i → i ≤ b.length → (i ∈ list.indices ↔ i ∈ list'.indices)) :
    (b.backpatch list target).value = (b.backpatch list' target).value := by
  obtain ⟨hlimit, htemp, hlabel⟩ := backpatch_frame list target b
  obtain ⟨hlimit', htemp', hlabel'⟩ := backpatch_frame list' target b
  refine ext_quad? (hlimit.trans hlimit'.symm) (htemp.trans htemp'.symm) (hlabel.trans hlabel'.symm) ?_
  intro i
  rw [quad?_backpatch, quad?_backpatch]
  cases hq : b.quad? i with
  | none => rw [Option.map_none, ite_self, ite_self]
  | some q =>
    obtain ⟨h1, h2⟩ := bounds_of_quad? hq
    have hiff := h i h1 (Nat.le_of_lt_succ h2)
    simp only [hiff]

/-- The target that a list is patched to last is the one that counts. -/
theorem backpatch_again (b : Builder) (list : PendingList) (target target' : ℕ) :
    ((b.backpatch list target').value.backpatch list target).value =
      (b.backpatch list target).value := by
  obtain ⟨hlimit, htemp, hlabel⟩ := backpatch_frame list target b
  obtain ⟨hlimit', htemp', hlabel'⟩ := backpatch_frame list target' b
  obtain ⟨hlimit₂, htemp₂, hlabel₂⟩ := backpatch_frame list target (b.backpatch list target').value
  refine ext_quad? (by omega) (by omega) (by omega) ?_
  intro i
  rw [quad?_backpatch, quad?_backpatch, quad?_backpatch]
  by_cases hi : i ∈ list.indices
  · rw [if_pos hi, if_pos hi, if_pos hi, Option.map_map]; rfl
  · rw [if_neg hi, if_neg hi, if_neg hi]

/-- **The exact effect of backpatching.** A list may name instructions in any order and more than once,
and it may hold zero and indices behind the code. The instructions that it names have the target
afterwards, in place of the destination that they had. All else stays: their operations and operands, the
other instructions, their number, the limit and the counters. So only the set of the instructions that are
named matters. Patching the list once more to the same target changes nothing, and the target of an
earlier patch of the list does not matter. -/
theorem backpatch_exact (b : Builder) (list : PendingList) (target : ℕ) :
    let after := (b.backpatch list target).value
    (after.length = b.length ∧ after.limit = b.limit ∧ after.temporaries = b.temporaries ∧
      after.labels = b.labels) ∧
    (∀ i, 1 ≤ i → i ≤ b.length → ∃ q q', b.quad? i = some q ∧ after.quad? i = some q' ∧
      q'.op = q.op ∧ q'.arg1 = q.arg1 ∧ q'.arg2 = q.arg2 ∧
      q'.dest = if i ∈ list.indices then .target target else q.dest) ∧
    (∀ list' : PendingList,
      (∀ i, 1 ≤ i → i ≤ b.length → (i ∈ list'.indices ↔ i ∈ list.indices)) →
        (b.backpatch list' target).value = after) ∧
    (∀ list' : PendingList, list'.indices.Perm list.indices →
      (b.backpatch list' target).value = after) ∧
    (∀ list' : PendingList, (∀ i, i ∈ list'.indices ↔ i ∈ list.indices) →
      (b.backpatch list' target).value = after) ∧
    (∀ list' : PendingList, list'.indices.filter (fun i => 1 ≤ i ∧ i ≤ b.length) =
        list.indices.filter (fun i => 1 ≤ i ∧ i ≤ b.length) →
      (b.backpatch list' target).value = after) ∧
    (after.backpatch list target).value = after ∧
    (∀ target', ((b.backpatch list target').value.backpatch list target).value = after) := by
  intro after
  have hset : ∀ list' : PendingList,
      (∀ i, 1 ≤ i → i ≤ b.length → (i ∈ list'.indices ↔ i ∈ list.indices)) →
        (b.backpatch list' target).value = after := fun _ h => backpatch_congr target h
  refine ⟨⟨length_backpatch list target b, backpatch_frame list target b⟩, ?_, hset, ?_, ?_, ?_,
    backpatch_again b list target target, backpatch_again b list target⟩
  · intro i h1 h2
    obtain ⟨q, hq⟩ := exists_quad (b := b) h1 (Nat.lt_succ_of_le h2)
    have hafter : after.quad? i = _ := quad?_backpatch list target i b
    rw [hq] at hafter
    by_cases hi : i ∈ list.indices
    · rw [if_pos hi] at hafter
      exact ⟨q, q.retarget target, hq, hafter, rfl, rfl, rfl, (if_pos hi).symm⟩
    · rw [if_neg hi] at hafter
      exact ⟨q, q, hq, hafter, rfl, rfl, rfl, (if_neg hi).symm⟩
  · intro list' hperm
    exact hset list' fun i _ _ => hperm.mem_iff
  · intro list' hmem
    exact hset list' fun i _ _ => hmem i
  · intro list' hfilter
    refine hset list' fun i h1 h2 => ?_
    have hin := congrArg (i ∈ ·) hfilter
    simpa [h1, h2] using hin

/-- A list with a repeated entry, zero and an index behind the code does what the list of the two
instructions does that it names. The assignment between them stays as it is. -/
theorem backpatch_exact_stale_entries :
    let b := (empty 5).append [.goto none, .assign "x" "1", .goto (some 9)]
    let after := (b.backpatch ⟨[3, 0, 7, 1, 3]⟩ 2).value
    (b.backpatch ⟨[1, 3]⟩ 2).value = after ∧ (b.backpatch ⟨[7, 3, 1, 0, 3]⟩ 2).value = after ∧
    ((b.backpatch ⟨[3, 0, 7, 1, 3]⟩ 4).value.backpatch ⟨[3, 0, 7, 1, 3]⟩ 2).value = after ∧
    (∃ q, after.quad? 3 = some q ∧ q.dest = .target 2) ∧
    (∃ q, after.quad? 2 = some q ∧ q.dest = .operand "x") := by
  intro b after
  obtain ⟨-, hquad, hset, hperm, -, -, -, hlast⟩ := backpatch_exact b ⟨[3, 0, 7, 1, 3]⟩ 2
  have hnamed : ∀ i, 1 ≤ i → i ≤ b.length → (i ∈ [1, 3] ↔ i ∈ [3, 0, 7, 1, 3]) := by
    intro i h1 h2
    have hlength : b.length = 3 := rfl
    simp only [List.mem_cons, List.not_mem_nil, or_false]
    omega
  refine ⟨hset ⟨[1, 3]⟩ hnamed, hperm ⟨[7, 3, 1, 0, 3]⟩ (by decide), hlast 4, ?_, ?_⟩
  · obtain ⟨_, q', -, hq', -, -, -, hdest⟩ := hquad 3 (by decide) (by decide)
    exact ⟨q', hq', hdest⟩
  · obtain ⟨q, q', hq, hq', -, -, -, hdest⟩ := hquad 2 (by decide) (by decide)
    obtain rfl : Quad.assign "x" "1" = q := Option.some.inj hq
    exact ⟨q', hq', hdest⟩

end Builder

end ThreeAddress
