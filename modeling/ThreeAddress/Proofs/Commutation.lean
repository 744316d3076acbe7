import ThreeAddress.Proofs.ControlFlow
import ThreeAddress.Proofs.History

/-!
# Patching before and after unrolling

A jump that is pending while its loop is unrolled leaves copies that no list knows about. Patching the
list first and unrolling afterwards comes to the same as unrolling first, if the copies of the listed
jumps are patched as well.

* `relocate_retarget`: a patched jump is copied as the copied jump is patched, with the target moved
  along.
* `copyPatches`: what has to be patched in the copies. `CopiesOf`: which lists do for that.
* `lastTarget?_old`, `lastTarget?_copy`: what the list and the lists for the copies give to each index.
* `patching_commutes`: **both orders lead to the same builder**, with the same result.
-/

namespace ThreeAddress

variable {start stop offset : ℕ}

/-- **Patching and copying a jump.** -/
theorem relocate_retarget {q : Quad} (hq : q.isJump = true) (target : ℕ) :
    (q.retarget target).relocate start stop offset =
      (q.relocate start stop offset).retarget (moved start stop offset target) := by
  -- the target that the jump had before does not matter
  have hforget : ∀ t, (q.relocate start stop offset).retarget t = q.retarget t := by
    intro t
    rcases relocate_cases start stop offset q with he | ⟨_, -, -, -, -, he⟩
    · rw [he]
    · rw [he]; rfl
  have hjump : (q.retarget target).isJump = true := hq
  rw [hforget]
  by_cases hin : start ≤ target ∧ target < stop
  · have hinto : (q.retarget target).JumpsInto start stop target :=
      ⟨isJump_iff.1 hjump, rfl, hin⟩
    rw [relocate_of_jumpsInto hinto, moved, if_pos hin]; rfl
  · have hout : ∀ t, ¬ (q.retarget target).JumpsInto start stop t := by
      rintro t ⟨-, ht, hrange⟩
      obtain rfl : target = t := Destination.target.inj ht
      exact hin hrange
    rw [relocate_of_not_jumpsInto hout, moved, if_neg hin]

namespace Builder

variable {b : Builder} {times : ℤ}

/-! ## The patches that make up for the order -/

theorem performAll_of_patches {actions : List Action}
    (h : ∀ a ∈ actions, ∃ list target, a = .backpatch list target) :
    ∀ b : Builder, (b.performAll actions).length = b.length ∧ (b.performAll actions).limit = b.limit ∧
      (b.performAll actions).temporaries = b.temporaries ∧
      (b.performAll actions).labels = b.labels := by
  induction actions with
  | nil => intro b; exact ⟨rfl, rfl, rfl, rfl⟩
  | cons a actions ih =>
    intro b
    obtain ⟨list, target, rfl⟩ := h a List.mem_cons_self
    have hlength := length_backpatch list target b
    obtain ⟨hlimit, htemp, hlabel⟩ := backpatch_frame list target b
    obtain ⟨h1, h2, h3, h4⟩ := ih (fun a ha => h a (List.mem_cons_of_mem _ ha))
      (b.backpatch list target).value
    exact ⟨h1.trans hlength, h2.trans hlimit, h3.trans htemp, h4.trans hlabel⟩

/-- For each of `k` copies, the patch of the list `copied r` to the target moved along with the copy. -/
def copyPatches (b : Builder) (target start stop k : ℕ) (copied : ℕ → PendingList) : List Action :=
  (List.range' 1 k).map fun r =>
    .backpatch (copied r) (moved start stop (b.copyOffset start stop r) target)

/-- For copies `1` to `k`, `copied r` lists the copies of the listed instructions of the range, in any
order. -/
def CopiesOf (b : Builder) (list : PendingList) (start stop k : ℕ) (copied : ℕ → PendingList) : Prop :=
  ∀ r, 1 ≤ r → r ≤ k → ∀ j, j ∈ (copied r).indices ↔
    ∃ i ∈ list.indices, start ≤ i ∧ i < stop ∧ j = i + b.copyOffset start stop r

variable {list : PendingList} {target k : ℕ} {copied : ℕ → PendingList}

theorem mem_copyPatches {a : Action} : a ∈ b.copyPatches target start stop k copied ↔
    ∃ r, 1 ≤ r ∧ r ≤ k ∧
      a = .backpatch (copied r) (moved start stop (b.copyOffset start stop r) target) := by
  unfold copyPatches
  simp only [List.mem_map, List.mem_range'_1]
  constructor
  · rintro ⟨r, hr, rfl⟩; exact ⟨r, hr.1, by omega, rfl⟩
  · rintro ⟨r, hr1, hr2, rfl⟩; exact ⟨r, ⟨hr1, by omega⟩, rfl⟩

/-- An index from before the unrolling is given its target by the list alone. -/
theorem lastTarget?_old (hcopied : b.CopiesOf list start stop k copied)
    (hstart : 0 < k → start ≤ b.next) {j : ℕ} (hj : j < b.next) :
    lastTarget? j (.backpatch list target :: b.copyPatches target start stop k copied) =
      if j ∈ list.indices then some target else none := by
  have hrest : lastTarget? j (b.copyPatches target start stop k copied) = none := by
    rw [lastTarget?_eq_none_iff]
    intro list' t hmem hin
    obtain ⟨r, hr1, hr2, heq⟩ := mem_copyPatches.1 hmem
    obtain ⟨rfl, -⟩ := Action.backpatch.inj heq
    obtain ⟨i, -, hi1, -, rfl⟩ := (hcopied r hr1 hr2 j).1 hin
    have hfits := hstart (Nat.lt_of_lt_of_le hr1 hr2)
    unfold copyOffset at hj
    unfold next at hj hfits
    omega
  rw [lastTarget?_cons, hrest, Option.none_or]
  rfl

/-- An index in a copy is given its target by the list for that copy alone. -/
theorem lastTarget?_copy (hcopied : b.CopiesOf list start stop k copied)
    (hlist : ∀ i ∈ list.indices, i < b.next) (hstart : start ≤ b.next) {p r : ℕ} (h1 : start ≤ p)
    (h2 : p < stop) (hr1 : 1 ≤ r) (hr2 : r ≤ k) :
    lastTarget? (p + b.copyOffset start stop r)
        (.backpatch list target :: b.copyPatches target start stop k copied) =
      if p ∈ list.indices then some (moved start stop (b.copyOffset start stop r) target) else none := by
  have hnew : (Action.backpatch list target).target? (p + b.copyOffset start stop r) = none := by
    refine if_neg ?_
    intro hin
    have hlt := hlist _ hin
    unfold copyOffset at hlt
    unfold next at hlt hstart
    omega
  -- a list that holds this index is the one for copy `r`, and holds it because of `p`
  have honly : ∀ list' t, .backpatch list' t ∈ b.copyPatches target start stop k copied →
      p + b.copyOffset start stop r ∈ list'.indices →
      p ∈ list.indices ∧ t = moved start stop (b.copyOffset start stop r) target := by
    intro list' t hmem hin
    obtain ⟨r', hr1', hr2', heq⟩ := mem_copyPatches.1 hmem
    obtain ⟨rfl, rfl⟩ := Action.backpatch.inj heq
    obtain ⟨i, hi, hi1, hi2, hplace⟩ := (hcopied r' hr1' hr2' _).1 hin
    obtain ⟨rfl, rfl⟩ := copyOffset_inj h1 h2 hi1 hi2 hr1 hr1' hplace
    exact ⟨hi, rfl⟩
  rw [lastTarget?_cons, hnew, Option.or_none]
  by_cases hp : p ∈ list.indices
  · rw [if_pos hp]
    have hin := (hcopied r hr1 hr2 _).2 ⟨p, hp, h1, h2, rfl⟩
    have hmem : .backpatch (copied r) (moved start stop (b.copyOffset start stop r) target) ∈
        b.copyPatches target start stop k copied := mem_copyPatches.2 ⟨r, hr1, hr2, rfl⟩
    cases ht : lastTarget? (p + b.copyOffset start stop r)
        (b.copyPatches target start stop k copied) with
    | none => exact absurd hin (lastTarget?_eq_none_iff.1 ht _ _ hmem)
    | some t =>
      obtain ⟨list', hmem', hin'⟩ := exists_backpatch_of_lastTarget? ht
      rw [(honly list' t hmem' hin').2]
  · rw [if_neg hp, lastTarget?_eq_none_iff]
    intro list' t hmem hin
    exact hp (honly list' t hmem hin).1

/-! ## Both orders -/

theorem only_patches (b : Builder) (list : PendingList) (target start stop k : ℕ)
    (copied : ℕ → PendingList) :
    ∀ a ∈ Action.backpatch list target :: b.copyPatches target start stop k copied,
      ∃ list' t, a = .backpatch list' t := by
  intro a ha
  rcases List.mem_cons.1 ha with rfl | ha
  · exact ⟨_, _, rfl⟩
  · obtain ⟨r, -, -, rfl⟩ := mem_copyPatches.1 ha
    exact ⟨_, _, rfl⟩

theorem reset_not_mem_patches :
    .reset ∉ Action.backpatch list target :: b.copyPatches target start stop k copied := by
  intro hmem
  obtain ⟨_, _, h⟩ := only_patches _ _ _ _ _ _ _ _ hmem
  cases h

/-- After unrolling and then patching, the old code is what patching alone makes of it. -/
theorem quad?_unroll_patch_old
    (hcopied : b.CopiesOf list start stop (b.copyCount start stop times) copied) {j : ℕ}
    (hj : j < b.next) :
    ((b.unroll start stop times).state.performAll (.backpatch list target ::
        b.copyPatches target start stop (b.copyCount start stop times) copied)).quad? j =
      (b.backpatch list target).value.quad? j := by
  have hlen := unroll_length b start stop times
  have hafter : j < (b.unroll start stop times).state.next := by unfold next at hj ⊢; omega
  have hstart : 0 < b.copyCount start stop times → start ≤ b.next := by
    intro hpos
    obtain ⟨-, -, hlt, hn⟩ := repeats_of_copyCount_pos hpos
    omega
  rw [quad?_performAll reset_not_mem_patches _ hafter, quad?_unroll_old hj,
    lastTarget?_old hcopied hstart hj, quad?_backpatch]
  by_cases hmem : j ∈ list.indices
  · rw [if_pos hmem, if_pos hmem]; rfl
  · rw [if_neg hmem, if_neg hmem]; exact Option.map_id'

/-- After unrolling and then patching, a copy is what copying makes of the patched range. -/
theorem quad?_unroll_patch_copy
    (hlist : ∀ i ∈ list.indices, ∃ q, b.quad? i = some q ∧ q.isJump = true)
    (hcopied : b.CopiesOf list start stop (b.copyCount start stop times) copied) {p r : ℕ}
    (h1 : start ≤ p) (h2 : p < stop) (hr1 : 1 ≤ r) (hr2 : r ≤ b.copyCount start stop times) :
    ((b.unroll start stop times).state.performAll (.backpatch list target ::
        b.copyPatches target start stop (b.copyCount start stop times) copied)).quad?
          (p + b.copyOffset start stop r) =
      ((b.backpatch list target).value.quad? p).map
        (Quad.relocate start stop (b.copyOffset start stop r)) := by
  have hbounds : ∀ i ∈ list.indices, i < b.next := by
    intro i hi
    obtain ⟨q, hq, -⟩ := hlist i hi
    exact (bounds_of_quad? hq).2
  obtain ⟨-, hs, hlt, hn⟩ := repeats_of_copyCount_pos (Nat.lt_of_lt_of_le hr1 hr2)
  obtain ⟨q, hq⟩ := exists_quad (b := b) (p := p) (by omega) (by omega)
  have hcopy := quad?_place_in_copy h1 h2 hr1 hr2
  rw [hq] at hcopy
  rw [quad?_performAll reset_not_mem_patches _ (bounds_of_quad? hcopy).2, hcopy,
    lastTarget?_copy hcopied hbounds (by omega) h1 h2 hr1 hr2, quad?_backpatch, hq]
  by_cases hp : p ∈ list.indices
  · obtain ⟨q', hq', hjump⟩ := hlist p hp
    obtain rfl : q = q' := Option.some.inj (hq.symm.trans hq')
    rw [if_pos hp, if_pos hp]
    exact congrArg some (relocate_retarget hjump target).symm
  · rw [if_neg hp, if_neg hp]; rfl

/-- **Patching and unrolling commute**, up to the copies. Let a list hold jumps that are in the buffer.
Patching it and then unrolling any range gives the same result as unrolling at once, the same number
of copies, and the same builder as unrolling, patching the list, and then patching for each copy the
copies of the listed jumps of the range, to the target moved along with the copy. -/
theorem patching_commutes (b : Builder) (list : PendingList) (target start stop : ℕ) (times : ℤ)
    (hlist : ∀ i ∈ list.indices, ∃ q, b.quad? i = some q ∧ q.isJump = true)
    (copied : ℕ → PendingList)
    (hcopied : b.CopiesOf list start stop (b.copyCount start stop times) copied) :
    let patched := (b.backpatch list target).value
    let k := b.copyCount start stop times
    (patched.unroll start stop times).result = (b.unroll start stop times).result ∧
    (patched.unroll start stop times).state.length = b.length + k * (stop - start) ∧
    (b.unroll start stop times).state.length = b.length + k * (stop - start) ∧
    b.performAll [.backpatch list target, .unroll start stop times] =
      b.performAll (.unroll start stop times :: .backpatch list target ::
        b.copyPatches target start stop k copied) := by
  intro patched k
  obtain ⟨hlimit, htemp, hlabel⟩ : patched.limit = b.limit ∧ patched.temporaries = b.temporaries ∧
    patched.labels = b.labels := backpatch_frame list target b
  have hlength : patched.length = b.length := length_backpatch list target b
  have hnext : patched.next = b.next := by unfold next; rw [hlength]
  obtain ⟨hcount, hresult⟩ : patched.copyCount start stop times = k ∧
    (patched.unroll start stop times).result = (b.unroll start stop times).result :=
    unroll_congr hlimit hlength
  have hlen : (b.unroll start stop times).state.length = b.length + k * (stop - start) :=
    unroll_length b start stop times
  have hlen' : (patched.unroll start stop times).state.length = b.length + k * (stop - start) := by
    rw [unroll_length, hcount, hlength]
  refine ⟨hresult, hlen', hlen, ?_⟩
  obtain ⟨flength, flimit, ftemp, flabel⟩ := performAll_of_patches
    (only_patches b list target start stop k copied) (b.unroll start stop times).state
  obtain ⟨ulimit, utemp, ulabel⟩ := unroll_frame b start stop times
  obtain ⟨plimit, ptemp, plabel⟩ := unroll_frame patched start stop times
  show (patched.unroll start stop times).state = (b.unroll start stop times).state.performAll
    (.backpatch list target :: b.copyPatches target start stop k copied)
  refine ext_quad? (by omega) (by omega) (by omega) ?_
  intro j
  -- an old index, an index in a copy, or no index
  rcases lt_or_ge j b.next with hold | hold
  · rw [quad?_unroll_patch_old hcopied hold]
    exact quad?_unroll_old (by omega)
  rcases lt_or_ge j (b.next + k * (stop - start)) with hnew | hnew
  · obtain ⟨p, r, hp1, hp2, hr1, hr2, rfl⟩ := exists_place_in_copy hold hnew
    have hoffset : patched.copyOffset start stop r = b.copyOffset start stop r := by
      unfold copyOffset; rw [hlength]
    have hr2' : r ≤ patched.copyCount start stop times := by omega
    have hcopy := quad?_place_in_copy hp1 hp2 hr1 hr2'
    rw [quad?_unroll_patch_copy hlist hcopied hp1 hp2 hr1 hr2, ← hoffset]
    exact hcopy
  · rw [quad?_eq_none (by unfold next at hnew ⊢; omega), quad?_eq_none (by unfold next at hnew ⊢; omega)]

/-- A jump back and a jump into the loop wait for the same target, which lies in the loop. Five copies
of the loop are asked for and two fit: the jump back of each copy goes to the start of its own copy. -/
theorem patching_commutes_two_copies :
    let b := (empty 8).append [.goto none, .branch "GEI" "i" "5", .goto none]
    (b.performAll [.backpatch ⟨[3, 1]⟩ 2, .unroll 2 4 5]) =
      b.performAll [.unroll 2 4 5, .backpatch ⟨[3, 1]⟩ 2, .backpatch ⟨[5]⟩ 4, .backpatch ⟨[7]⟩ 6] ∧
    (b.performAll [.backpatch ⟨[3, 1]⟩ 2, .unroll 2 4 5]).quad? 7 = some (.goto (some 6)) ∧
    ((b.backpatch ⟨[3, 1]⟩ 2).value.unroll 2 4 5).result = .error (.capacityExceeded 8) := by
  intro b
  have hlist : ∀ i ∈ [3, 1], ∃ q, b.quad? i = some q ∧ q.isJump = true := by
    intro i hi
    rcases List.mem_cons.1 hi with rfl | hi
    · exact ⟨.goto none, rfl, rfl⟩
    · rw [List.mem_singleton.1 hi]; exact ⟨.goto none, rfl, rfl⟩
  have hcopied : b.CopiesOf ⟨[3, 1]⟩ 2 4 2 fun r => ⟨[2 * r + 3]⟩ := by
    intro r hr1 hr2 j
    have hoffset : b.copyOffset 2 4 r = 2 + (r - 1) * 2 := rfl
    simp only [List.mem_cons, List.not_mem_nil, or_false, exists_eq_or_imp, exists_eq_left, hoffset]
    omega
  have hk : b.copyCount 2 4 5 = 2 := by decide
  have hpatches : b.copyPatches 2 2 4 2 (fun r => ⟨[2 * r + 3]⟩) =
    [.backpatch ⟨[5]⟩ 4, .backpatch ⟨[7]⟩ 6] := rfl
  obtain ⟨hresult, -, -, hstate⟩ :=
    patching_commutes b ⟨[3, 1]⟩ 2 2 4 5 hlist (fun r => ⟨[2 * r + 3]⟩) (by rw [hk]; exact hcopied)
  rw [hk, hpatches] at hstate
  have hfail : (b.unroll 2 4 5).result = .error (.capacityExceeded 8) := by decide
  exact ⟨hstate, by decide, hresult.trans hfail⟩

end Builder

end ThreeAddress
