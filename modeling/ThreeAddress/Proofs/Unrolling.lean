import ThreeAddress.Builder.Unroll
import ThreeAddress.Proofs.Code

/-!
# What unrolling appends

Unrolling leaves the code as it is and puts whole copies of a range behind it, each with its own
offset.

* `copies`: the instructions of `k` copies, the first of which starts at a given index.
* `copyCount`: how many copies are finished: all that are asked for, or as many as fit.
* `unroll_state`, `unroll_result`: **the exact outcome of an unrolling** in these terms.
* `quad?_unroll_old`, `quad?_unroll_copy`: the same, instruction by instruction.
* `copyOffset`: how far a copy is from the range. `copyOffset_inj`, `exists_place_in_copy`: every new
  index belongs to one instruction of one copy.
* `unroll_exact`: **the exact outcome from the arguments alone**, refusals and no-ops included.
-/

namespace ThreeAddress

variable {start stop offset : ℕ}

/-! ## Relocation of a single instruction -/

theorem relocate_cases (start stop offset : ℕ) (q : Quad) :
    q.relocate start stop offset = q ∨
      ∃ t, q.isJump = true ∧ q.dest = .target t ∧ start ≤ t ∧ t < stop ∧
        q.relocate start stop offset = q.retarget (t + offset) := by
  unfold Quad.relocate
  split
  · rename_i t ht
    split
    · rename_i hc
      exact Or.inr ⟨t, hc.1, ht, hc.2.1, hc.2.2, rfl⟩
    · exact Or.inl rfl
  · exact Or.inl rfl

/-- A jump to the instruction `t`, which lies from `start` up to `stop`. -/
def Quad.JumpsInto (start stop t : ℕ) (q : Quad) : Prop :=
  ((∃ relation, q.op = .branch relation) ∨ q.op = .goto) ∧ q.dest = .target t ∧ start ≤ t ∧ t < stop

theorem isJump_iff {q : Quad} : q.isJump = true ↔ (∃ relation, q.op = .branch relation) ∨ q.op = .goto := by
  unfold Quad.isJump
  cases q.op <;> simp [Operation.isJump]

theorem relocate_of_jumpsInto {q : Quad} {t : ℕ} (h : q.JumpsInto start stop t) :
    q.relocate start stop offset = q.retarget (t + offset) := by
  obtain ⟨hjump, ht, hrange⟩ := h
  have hcond : q.isJump = true ∧ start ≤ t ∧ t < stop := ⟨isJump_iff.2 hjump, hrange⟩
  unfold Quad.relocate
  rw [ht]
  exact if_pos hcond

theorem relocate_of_not_jumpsInto {q : Quad} (h : ∀ t, ¬ q.JumpsInto start stop t) :
    q.relocate start stop offset = q := by
  rcases relocate_cases start stop offset q with he | ⟨t, hjump, ht, h1, h2, -⟩
  · exact he
  · exact absurd ⟨isJump_iff.1 hjump, ht, h1, h2⟩ (h t)

theorem relocate_fields (q : Quad) :
    (q.relocate start stop offset).op = q.op ∧ (q.relocate start stop offset).arg1 = q.arg1 ∧
      (q.relocate start stop offset).arg2 = q.arg2 := by
  rcases relocate_cases start stop offset q with h | ⟨t, -, -, -, -, h⟩
  · rw [h]; exact ⟨rfl, rfl, rfl⟩
  · rw [h]; exact ⟨rfl, rfl, rfl⟩

/-- Relocation neither adds nor removes a target, and leaves every other destination alone. -/
theorem relocate_dest (q : Quad)
    (h : q.dest.target? = none ∨ (q.relocate start stop offset).dest.target? = none) :
    (q.relocate start stop offset).dest = q.dest := by
  rcases relocate_cases start stop offset q with he | ⟨t, -, ht, -, -, he⟩
  · rw [he]
  · -- there is a target before and after, against `h`
    rw [he, ht] at h
    simp [Destination.target?, Quad.retarget] at h

theorem relocate_isUnresolved (q : Quad) :
    (q.relocate start stop offset).isUnresolved = q.isUnresolved := by
  rcases relocate_cases start stop offset q with he | ⟨t, -, ht, -, -, he⟩
  · rw [he]
  · have hne : ∀ i, (Destination.target i == .unresolved) = false := fun _ => rfl
    unfold Quad.isUnresolved
    rw [he, ht, hne, Bool.and_false]
    simp only [Quad.retarget, hne, Bool.and_false]

namespace Builder

variable {b : Builder} {times : ℤ}

/-! ## Copies of a range -/

theorem range_eq :
    b.range start stop = (b.quads.drop (start - 1)).take (stop - 1 - (start - 1)) := by
  simp [range, quads]

theorem length_range (h1 : 1 ≤ start) (h2 : stop ≤ b.next) :
    (b.range start stop).length = stop - start := by
  unfold next at h2
  rw [range_eq, List.length_take, List.length_drop, length_quads]; omega

theorem getElem?_range (h1 : 1 ≤ start) {j : ℕ} (hj : start + j < stop) :
    (b.range start stop)[j]? = b.quad? (start + j) := by
  rw [range_eq, List.getElem?_take_of_lt (by omega), List.getElem?_drop, quad?_eq (by omega),
    Nat.sub_add_comm h1]

theorem exists_quad_of_mem_range {q : Quad} (h : q ∈ b.range start stop) : ∃ i, b.quad? i = some q := by
  rw [range_eq] at h
  exact exists_quad_of_mem (List.mem_of_mem_drop (List.mem_of_mem_take h))

/-- The instructions of `k` copies of `body`, taken from `start` up to `stop`, when the first copy
starts at index `first`. -/
def copies (start stop : ℕ) (body : List Quad) : (k first : ℕ) → List Quad
  | 0, _ => []
  | k + 1, first =>
    body.map (Quad.relocate start stop (first - start)) ++
      copies start stop body k (first + body.length)

@[simp] theorem length_copies (body : List Quad) (k : ℕ) :
    ∀ first, (copies start stop body k first).length = k * body.length := by
  induction k with
  | zero => intro first; simp [copies]
  | succ k ih => intro first; simp [copies, ih, Nat.succ_mul, Nat.add_comm]

/-- Instruction `j` of copy `r` is instruction `j` of the body, relocated for that copy. -/
theorem getElem?_copies (body : List Quad) {k r j : ℕ} (hj : j < body.length) :
    ∀ first, r < k → (copies start stop body k first)[r * body.length + j]? =
      body[j]?.map (Quad.relocate start stop (first + r * body.length - start)) := by
  induction k generalizing r with
  | zero => intro first hr; omega
  | succ k ih =>
    intro first hr
    rw [copies]
    -- copy 0 is the first part, and copy `r + 1` is copy `r` of the rest
    rcases r with _ | r
    · rw [List.getElem?_append_left (by simpa using hj)]
      simp
    · have hsplit : (r + 1) * body.length + j = body.length + (r * body.length + j) := by ring
      have hfirst : first + (r + 1) * body.length = first + body.length + r * body.length := by ring
      rw [List.getElem?_append_right (by rw [List.length_map, hsplit]; omega), List.length_map, hsplit,
        Nat.add_sub_cancel_left, ih (first + body.length) (by omega), hfirst]

theorem mem_copies {body : List Quad} {q : Quad} (k : ℕ) :
    ∀ first, q ∈ copies start stop body k first →
      ∃ q₀ ∈ body, ∃ offset, q = q₀.relocate start stop offset := by
  induction k with
  | zero => intro first h; simp [copies] at h
  | succ k ih =>
    intro first h
    rw [copies] at h
    rcases List.mem_append.1 h with h | h
    · obtain ⟨q₀, hq₀, rfl⟩ := List.mem_map.1 h
      exact ⟨q₀, hq₀, _, rfl⟩
    · exact ih _ h

theorem appendCopies_of_room {body : List Quad} (h : b.hasRoom body.length = true)
    (remaining repetition : ℕ) :
    appendCopies start stop times body (remaining + 1) repetition b =
      (appendCopies start stop times body remaining (repetition + 1)
        (b.append (body.map (Quad.relocate start stop (b.next - start))))).after
          [.copied start stop repetition times b.next (b.next - start)] := by
  rw [appendCopies, if_pos h]

theorem appendCopies_of_full {body : List Quad} (h : ¬ b.hasRoom body.length = true)
    (remaining repetition : ℕ) :
    appendCopies start stop times body (remaining + 1) repetition b = b.refuse body.length := by
  rw [appendCopies, if_neg h]

/-- **Copying, in closed form.** From a builder with room for `f` copies, the loop that has
`remaining` copies to make makes the smaller number of the two. -/
theorem appendCopies_eq (body : List Quad) (hm : 0 < body.length) :
    ∀ (remaining repetition : ℕ) (b : Builder),
      (appendCopies start stop times body remaining repetition b).state =
          b.append (copies start stop body
            (min remaining ((b.limit - b.length) / body.length)) b.next) ∧
        (appendCopies start stop times body remaining repetition b).result =
          if remaining ≤ (b.limit - b.length) / body.length then .ok ()
          else .error (.capacityExceeded b.limit) := by
  intro remaining
  induction remaining with
  | zero => intro repetition b; simp [appendCopies, copies, append_nil]
  | succ remaining ih =>
    intro repetition b
    by_cases hr : b.length + body.length ≤ b.limit
    · -- one more copy fits, so the builder after it has room for one copy less
      have hdiv : (b.limit - b.length) / body.length =
          (b.limit - (b.length + body.length)) / body.length + 1 := by
        rw [Nat.div_eq_sub_div hm (by omega), Nat.sub_sub]
      have hcopy : (body.map (Quad.relocate start stop (b.next - start))).length = body.length :=
        List.length_map _
      obtain ⟨hs, hres⟩ := ih (repetition + 1)
        (b.append (body.map (Quad.relocate start stop (b.next - start))))
      rw [limit_append, length_append, hcopy] at hs hres
      rw [appendCopies_of_room (by simpa [hasRoom] using hr), Outcome.state_after,
        Outcome.result_after, hs, hres, hdiv, append_append, next_append, hcopy,
        Nat.add_min_add_right, copies]
      exact ⟨rfl, by simp only [Nat.add_le_add_iff_right]⟩
    · -- not even one copy fits, and the loop stops here
      have hdiv : (b.limit - b.length) / body.length = 0 := Nat.div_eq_of_lt (by omega)
      rw [appendCopies_of_full (by simpa [hasRoom] using hr), hdiv, refuse]
      simp [copies, append_nil]

/-- An unrolling that **repeats something**: a positive number of copies of a range that is not
empty and lies in the buffer. -/
def Repeats (b : Builder) (start stop : ℕ) (times : ℤ) : Prop :=
  0 < times ∧ 1 ≤ start ∧ start < stop ∧ stop ≤ b.next

instance : Decidable (b.Repeats start stop times) :=
  inferInstanceAs (Decidable (0 < times ∧ 1 ≤ start ∧ start < stop ∧ stop ≤ b.next))

/-- **How many copies are finished**: all that are asked for, or as many as fit. -/
def copyCount (b : Builder) (start stop : ℕ) (times : ℤ) : ℕ :=
  if b.Repeats start stop times then
    min times.toNat ((b.limit - b.length) / (stop - start))
  else 0

theorem repeats_of_copyCount_pos (h : 0 < b.copyCount start stop times) :
    b.Repeats start stop times := by
  by_contra hn
  rw [copyCount, if_neg hn] at h; omega

theorem unroll_of_repeats (h : b.Repeats start stop times) :
    b.unroll start stop times =
      appendCopies start stop times (b.range start stop) times.toNat 1 b := by
  obtain ⟨h1, h2, h3, h4⟩ := h
  rw [unroll, if_neg (by omega), if_neg (by omega)]

theorem unroll_state_of_not_repeats (h : ¬ b.Repeats start stop times) :
    (b.unroll start stop times).state = b := by
  unfold Repeats at h
  unfold unroll
  split
  · rfl
  · rw [if_pos (by omega)]; rfl

theorem unroll_result_of_not_repeats (h : ¬ b.Repeats start stop times) :
    (b.unroll start stop times).result =
      if times ≤ 0 ∨ start = stop then .ok () else .error (.invalidRange start stop b.next) := by
  unfold Repeats at h
  unfold unroll
  split
  · rfl
  · rw [if_pos (by omega)]; rfl

/-- **The state after unrolling**: the finished copies stand behind the old code. -/
theorem unroll_state (b : Builder) (start stop : ℕ) (times : ℤ) :
    (b.unroll start stop times).state =
      b.append (copies start stop (b.range start stop) (b.copyCount start stop times) b.next) := by
  by_cases h : b.Repeats start stop times
  · have hlen := length_range h.2.1 h.2.2.2
    have hlt := h.2.2.1
    rw [unroll_of_repeats h, (appendCopies_eq _ (by omega) _ _ _).1, hlen, copyCount, if_pos h]
  · rw [unroll_state_of_not_repeats h, copyCount, if_neg h, copies, append_nil]

/-- **The result of unrolling**, if there is something to repeat: success exactly when all copies
were finished. -/
theorem unroll_result (h : b.Repeats start stop times) :
    (b.unroll start stop times).result =
      if b.copyCount start stop times = times.toNat then .ok ()
      else .error (.capacityExceeded b.limit) := by
  have hlen := length_range h.2.1 h.2.2.2
  have hlt := h.2.2.1
  rw [unroll_of_repeats h, (appendCopies_eq _ (by omega) _ _ _).2, hlen, copyCount, if_pos h]
  simp only [min_eq_left_iff]

theorem unroll_length (b : Builder) (start stop : ℕ) (times : ℤ) :
    (b.unroll start stop times).state.length =
      b.length + b.copyCount start stop times * (stop - start) := by
  rw [unroll_state, length_append, length_copies]
  rcases Nat.eq_zero_or_pos (b.copyCount start stop times) with h | h
  · rw [h]; omega
  · obtain ⟨-, h2, -, h4⟩ := repeats_of_copyCount_pos h
    rw [length_range h2 h4]

/-- The copies that are finished fit. -/
theorem copyCount_fits (h : 0 < b.copyCount start stop times) :
    b.length + b.copyCount start stop times * (stop - start) ≤ b.limit := by
  have hrep := repeats_of_copyCount_pos h
  have hle : b.copyCount start stop times ≤ (b.limit - b.length) / (stop - start) := by
    rw [copyCount, if_pos hrep]; exact min_le_right _ _
  have hmul := (Nat.mul_le_mul_right (stop - start) hle).trans (Nat.div_mul_le_self _ _)
  have hpos : 0 < b.copyCount start stop times * (stop - start) :=
    Nat.mul_pos h (Nat.sub_pos_of_lt hrep.2.2.1)
  omega

/-- Unrolling keeps every instruction that was there. -/
theorem quad?_unroll_old {p : ℕ} (hp : p < b.next) :
    (b.unroll start stop times).state.quad? p = b.quad? p := by
  rw [unroll_state]; exact quad?_append_left _ hp

/-- The instruction that stands at `p` of the range stands, relocated, at the same place of copy
`r`. -/
theorem quad?_append_copies {k r p : ℕ} (hs : 1 ≤ start) (hn : stop ≤ b.next) (hr : r < k) (h1 : start ≤ p)
    (h2 : p < stop) :
    (b.append (copies start stop (b.range start stop) k b.next)).quad?
        (p + (b.next + r * (stop - start) - start)) =
      (b.quad? p).map (Quad.relocate start stop (b.next + r * (stop - start) - start)) := by
  have hlen := length_range hs hn
  -- the place `p - start` within copy `r`, counted from the end of the old code
  have hpos : p + (b.next + r * (stop - start) - start) =
      b.next + (r * (b.range start stop).length + (p - start)) := by rw [hlen]; omega
  rw [hpos, quad?_append_right, getElem?_copies _ (by rw [hlen]; omega) _ hr, getElem?_range hs (by omega), hlen,
    Nat.add_sub_cancel' h1]

theorem quad?_unroll_copy {r p : ℕ} (hr : r < b.copyCount start stop times) (h1 : start ≤ p)
    (h2 : p < stop) :
    (b.unroll start stop times).state.quad? (p + (b.next + r * (stop - start) - start)) =
      (b.quad? p).map (Quad.relocate start stop (b.next + r * (stop - start) - start)) := by
  obtain ⟨-, hs, -, hn⟩ := repeats_of_copyCount_pos (Nat.zero_lt_of_lt hr)
  rw [unroll_state]
  exact quad?_append_copies hs hn hr h1 h2

/-- **What stands in the copies**, spelled out: in copy `r` a jump into the range goes to the copy of its target,
and every other instruction is as it was. The first copy has number one. -/
theorem exists_copied_quad {k r j : ℕ} (hs : 1 ≤ start) (hn : stop ≤ b.next) (hr1 : 1 ≤ r) (hr2 : r ≤ k)
    (hj : j < stop - start) :
    ∃ q q', b.quad? (start + j) = some q ∧
      (b.append (copies start stop (b.range start stop) k b.next)).quad?
        (b.length + 1 + (r - 1) * (stop - start) + j) = some q' ∧
      (∀ t, q.JumpsInto start stop t →
        q' = { q with dest := .target (t + (b.length + 1 + (r - 1) * (stop - start) - start)) }) ∧
      ((∀ t, ¬ q.JumpsInto start stop t) → q' = q) := by
  obtain ⟨q, hq⟩ := exists_quad (b := b) (p := start + j) (by omega) (by omega)
  have hr : r - 1 < k := by omega
  have hcopy := quad?_append_copies hs hn hr (Nat.le_add_right start j) (by omega)
  have hplace : start + j + (b.next + (r - 1) * (stop - start) - start) =
      b.length + 1 + (r - 1) * (stop - start) + j := by unfold next at hn ⊢; omega
  rw [hplace, hq] at hcopy
  exact ⟨q, _, hq, hcopy, fun t => relocate_of_jumpsInto, relocate_of_not_jumpsInto⟩

/-! ## Places in the copies -/

/-- How far copy `r` is from the range; the first copy has number one. -/
def copyOffset (b : Builder) (start stop r : ℕ) : ℕ :=
  (b.length + 1 - start) + (r - 1) * (stop - start)

/-- Different instructions of the range have different places in the copies, and different copies
have no place in common. -/
theorem copyOffset_inj {i i' r r' : ℕ} (hi1 : start ≤ i) (hi2 : i < stop) (hi1' : start ≤ i')
    (hi2' : i' < stop) (hr : 1 ≤ r) (hr' : 1 ≤ r')
    (h : i + b.copyOffset start stop r = i' + b.copyOffset start stop r') : i = i' ∧ r = r' := by
  have hm : 0 < stop - start := by omega
  have hsum : (i - start) + (r - 1) * (stop - start) = (i' - start) + (r' - 1) * (stop - start) := by
    unfold copyOffset at h; omega
  have hcopy : r - 1 = r' - 1 := by
    have hdiv := congrArg (· / (stop - start)) hsum
    simp only [Nat.add_mul_div_right _ _ hm] at hdiv
    rwa [Nat.div_eq_of_lt (by omega), Nat.div_eq_of_lt (by omega), Nat.zero_add, Nat.zero_add] at hdiv
  rw [hcopy] at hsum
  omega

/-- **Every new index lies in a copy.** -/
theorem exists_place_in_copy {j : ℕ} (h1 : b.next ≤ j)
    (h2 : j < b.next + b.copyCount start stop times * (stop - start)) :
    ∃ p r, start ≤ p ∧ p < stop ∧ 1 ≤ r ∧ r ≤ b.copyCount start stop times ∧
      j = p + b.copyOffset start stop r := by
  have hpos : 0 < b.copyCount start stop times * (stop - start) := by omega
  obtain ⟨-, -, hlt, hn⟩ := repeats_of_copyCount_pos (Nat.pos_of_mul_pos_right hpos)
  have hm : 0 < stop - start := by omega
  have hmod := Nat.mod_lt (j - b.next) hm
  have hsplit := Nat.div_add_mod' (j - b.next) (stop - start)
  have hcopy : (j - b.next) / (stop - start) < b.copyCount start stop times :=
    (Nat.div_lt_iff_lt_mul hm).2 (by omega)
  refine ⟨start + (j - b.next) % (stop - start), (j - b.next) / (stop - start) + 1, by omega, by omega,
    Nat.succ_pos _, hcopy, ?_⟩
  unfold copyOffset
  rw [Nat.add_sub_cancel]
  unfold next at *
  omega

theorem quad?_place_in_copy {p r : ℕ} (h1 : start ≤ p) (h2 : p < stop) (hr1 : 1 ≤ r)
    (hr2 : r ≤ b.copyCount start stop times) :
    (b.unroll start stop times).state.quad? (p + b.copyOffset start stop r) =
      (b.quad? p).map (Quad.relocate start stop (b.copyOffset start stop r)) := by
  have hr : r - 1 < b.copyCount start stop times := by omega
  obtain ⟨-, -, hlt, hn⟩ := repeats_of_copyCount_pos (Nat.zero_lt_of_lt hr)
  have hoffset : b.next + (r - 1) * (stop - start) - start = b.copyOffset start stop r := by
    unfold copyOffset; unfold next at hn ⊢; omega
  have hcopy := quad?_unroll_copy hr h1 h2
  rwa [hoffset] at hcopy

/-! ## The outcome from the arguments alone -/

theorem unroll_of_nothing (h : times ≤ 0 ∨ start = stop) :
    (b.unroll start stop times).result = .ok () ∧ (b.unroll start stop times).state = b := by
  have hrep : ¬ b.Repeats start stop times := by unfold Repeats; omega
  rw [unroll_result_of_not_repeats hrep, if_pos h]
  exact ⟨rfl, unroll_state_of_not_repeats hrep⟩

theorem unroll_of_invalid (ht : 0 < times) (hne : start ≠ stop)
    (h : ¬ (1 ≤ start ∧ start < stop ∧ stop ≤ b.next)) :
    (b.unroll start stop times).result = .error (.invalidRange start stop b.next) ∧
      (b.unroll start stop times).state = b := by
  have hrep : ¬ b.Repeats start stop times := fun hrep => h hrep.2
  rw [unroll_result_of_not_repeats hrep, if_neg (by omega)]
  exact ⟨rfl, unroll_state_of_not_repeats hrep⟩

/-- How many copies are finished depends on the limit and the length only, and so does the result. -/
theorem unroll_congr {b' : Builder} (hlimit : b'.limit = b.limit) (hlength : b'.length = b.length) :
    b'.copyCount start stop times = b.copyCount start stop times ∧
      (b'.unroll start stop times).result = (b.unroll start stop times).result := by
  have hnext : b'.next = b.next := by unfold next; rw [hlength]
  have hiff : b'.Repeats start stop times ↔ b.Repeats start stop times := by
    unfold Repeats; rw [hnext]
  have hcount : b'.copyCount start stop times = b.copyCount start stop times := by
    unfold copyCount; rw [hlimit, hlength]; simp only [hiff]
  refine ⟨hcount, ?_⟩
  by_cases hrep : b.Repeats start stop times
  · rw [unroll_result hrep, unroll_result (hiff.2 hrep), hcount, hlimit]
  · rw [unroll_result_of_not_repeats hrep, unroll_result_of_not_repeats (mt hiff.1 hrep), hnext]

/-- Unrolling touches nothing but the code. -/
theorem unroll_frame (b : Builder) (start stop : ℕ) (times : ℤ) :
    (b.unroll start stop times).state.limit = b.limit ∧
      (b.unroll start stop times).state.temporaries = b.temporaries ∧
      (b.unroll start stop times).state.labels = b.labels := by
  rw [unroll_state]
  exact ⟨rfl, rfl, rfl⟩

/-- **The exact outcome of unrolling.** Nothing is done, whatever the range, if no copy is asked for or
the range is empty. A range that does not lie in the buffer is refused. Otherwise as many copies as are
asked for, or as fit, stand behind the code. In a copy a jump into the range goes to the copy of its
target, and every other instruction is as it was. The outcome is a failure exactly if copies are
missing. -/
theorem unroll_exact (b : Builder) (start stop : ℕ) (times : ℤ) :
    let after := b.unroll start stop times
    (times ≤ 0 ∨ start = stop → after.result = .ok () ∧ after.state = b) ∧
    (0 < times → start ≠ stop → ¬ (1 ≤ start ∧ start < stop ∧ stop ≤ b.length + 1) →
      after.result = .error (.invalidRange start stop (b.length + 1)) ∧ after.state = b) ∧
    (0 < times → 1 ≤ start → start < stop → stop ≤ b.length + 1 →
      let m := stop - start
      let k := min times.toNat ((b.limit - b.length) / m)
      after.state.length = b.length + k * m ∧
      (∀ i, i ≤ b.length → after.state.quad? i = b.quad? i) ∧
      (∀ r j, 1 ≤ r → r ≤ k → j < m → ∃ q q', b.quad? (start + j) = some q ∧
        after.state.quad? (b.length + 1 + (r - 1) * m + j) = some q' ∧
        (∀ t, q.JumpsInto start stop t →
          q' = { q with dest := .target (t + (b.length + 1 + (r - 1) * m - start)) }) ∧
        ((∀ t, ¬ q.JumpsInto start stop t) → q' = q)) ∧
      (after.state.limit = b.limit ∧ after.state.temporaries = b.temporaries ∧
        after.state.labels = b.labels) ∧
      ((k : ℤ) = times → after.result = .ok ()) ∧
      ((k : ℤ) < times → after.result = .error (.capacityExceeded b.limit))) := by
  intro after
  refine ⟨unroll_of_nothing, unroll_of_invalid, ?_⟩
  intro ht h1 h2 h3 m k
  have hrep : b.Repeats start stop times := ⟨ht, h1, h2, h3⟩
  have hk : b.copyCount start stop times = k := by rw [copyCount, if_pos hrep]
  have hlength := unroll_length b start stop times
  have hresult := unroll_result hrep
  rw [hk] at hlength hresult
  refine ⟨hlength, fun i hi => quad?_unroll_old (Nat.lt_succ_of_le hi), ?_,
    unroll_frame b start stop times, ?_, ?_⟩
  · intro r j hr1 hr2 hj
    have hstate : after.state = _ := unroll_state b start stop times
    rw [hstate, hk]
    exact exists_copied_quad h1 h3 hr1 hr2 hj
  · intro hall
    have hdone : k = times.toNat := by omega
    rw [hresult, if_pos hdone]
  · intro hfew
    have hmissing : ¬ k = times.toNat := by omega
    rw [hresult, if_neg hmissing]

/-- A loop of two instructions of which three copies are asked for and two fit: the exit of the second
copy stays, its jump back goes to its own start, and the outcome is a failure. -/
theorem unroll_exact_two_of_three :
    let b := (empty 8).append
      [.assign "i" "0", (Quad.branch "GEI" "i" "5").retarget 4, .goto (some 2)]
    let after := b.unroll 2 4 3
    after.result = .error (.capacityExceeded 8) ∧ after.state.length = 7 ∧
    after.state.quad? 6 = some ((Quad.branch "GEI" "i" "5").retarget 4) ∧
    after.state.quad? 7 = some (.goto (some 6)) := by
  intro b after
  obtain ⟨hlength, -, hcopies, -, -, hfail⟩ :=
    (unroll_exact b 2 4 3).2.2 (by decide) (by decide) (by decide) (by decide)
  obtain ⟨q, q', hq, hq', -, hsame⟩ := hcopies 2 0 (by decide) (by decide) (by decide)
  obtain ⟨p, p', hp, hp', hjump, -⟩ := hcopies 2 1 (by decide) (by decide) (by decide)
  obtain rfl : (Quad.branch "GEI" "i" "5").retarget 4 = q := Option.some.inj hq
  obtain rfl : Quad.goto (some 2) = p := Option.some.inj hp
  have hout : ∀ t, ¬ ((Quad.branch "GEI" "i" "5").retarget 4).JumpsInto 2 4 t := by
    rintro t ⟨-, ht, -, hlt⟩
    obtain rfl : 4 = t := Destination.target.inj ht
    omega
  have hback : (Quad.goto (some 2)).JumpsInto 2 4 2 := ⟨Or.inr rfl, rfl, by decide, by decide⟩
  refine ⟨hfail (by decide), hlength.trans (by decide), ?_, ?_⟩
  · rw [← hsame hout]; exact hq'
  · rw [hjump 2 hback] at hp'; exact hp'

end Builder

end ThreeAddress
