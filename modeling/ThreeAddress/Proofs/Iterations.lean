import ThreeAddress.Proofs.Unrolling

/-!
# The iterations of unrolling

Indices and lengths are natural numbers here, and a difference below zero would be zero. This module shows
that neither hides anything: in 64 bits no sum of an unrolling overflows and no difference goes below zero.

* `iterations`: the builders from which the copying loop starts an iteration. `log_unroll_of_repeats`: each
  of them left one record in the journal, and there are no other records.
* `iterationsFrom_eq`: iteration `k` starts with `k` finished copies. `length_iterations_le`: **however many
  copies are asked for, there are only as many iterations as copies fit, and one more.**
* `SafeIteration`: what the arithmetic of one iteration relies on.
* `unroll_arithmetic`: **every iteration is safe** whose buffer has less than `2^63` instructions.
-/

namespace ThreeAddress.Builder

variable {b s : Builder} {start stop : ℕ} {times : ℤ} {body : List Quad}

/-! ## Iterations and their records -/

/-- The builders from which the copying loop starts an iteration, when it has `remaining` copies to
make. -/
def iterationsFrom (start stop : ℕ) (body : List Quad) : (remaining : ℕ) → Builder → List Builder
  | 0, _ => []
  | remaining + 1, b =>
    b :: if b.hasRoom body.length then
        iterationsFrom start stop body remaining
          (b.append (body.map (Quad.relocate start stop (b.next - start))))
      else []

/-- **The iterations of an unrolling**, each given by the builder from which it starts. -/
def iterations (b : Builder) (start stop : ℕ) (times : ℤ) : List Builder :=
  if b.Repeats start stop times then iterationsFrom start stop (b.range start stop) times.toNat b else []

/-- The record of an iteration that starts from `s`: of the copy, or of the room that it lacks. -/
def iterationRecord (start stop : ℕ) (times : ℤ) (size : ℕ) (s : Builder) (repetition : ℕ) : Event :=
  if s.hasRoom size then .copied start stop repetition times s.next (s.next - start)
  else .noRoom s.length size s.limit

/-- Every iteration of the loop leaves its record, and nothing else does. -/
theorem log_appendCopies_eq (remaining : ℕ) : ∀ (repetition : ℕ) (b : Builder),
    (appendCopies start stop times body remaining repetition b).log =
      ((iterationsFrom start stop body remaining b).zipIdx repetition).map fun p =>
        iterationRecord start stop times body.length p.1 p.2 := by
  induction remaining with
  | zero => intro repetition b; rfl
  | succ remaining ih =>
    intro repetition b
    by_cases hroom : b.hasRoom body.length = true
    · rw [appendCopies_of_room hroom, iterationsFrom, if_pos hroom, List.zipIdx_cons, List.map_cons,
        ← ih, iterationRecord, if_pos hroom]
      rfl
    · rw [appendCopies_of_full hroom, iterationsFrom, if_neg hroom, List.zipIdx_cons, List.map_cons,
        iterationRecord, if_neg hroom]
      rfl

theorem log_unroll_of_repeats (h : b.Repeats start stop times) :
    (b.unroll start stop times).log = ((b.iterations start stop times).zipIdx 1).map fun p =>
      iterationRecord start stop times (b.range start stop).length p.1 p.2 := by
  rw [unroll_of_repeats h, log_appendCopies_eq, iterations, if_pos h]

/-! ## Iterations in closed form -/

/-- **Iteration `k` starts with `k` finished copies.** There is one iteration for each copy that is asked
for and fits, and one for the first copy that does not fit. -/
theorem iterationsFrom_eq (hm : 0 < body.length) (remaining : ℕ) : ∀ b : Builder,
    iterationsFrom start stop body remaining b =
      (List.range (min remaining ((b.limit - b.length) / body.length + 1))).map fun k =>
        b.append (copies start stop body k b.next) := by
  induction remaining with
  | zero => intro b; simp [iterationsFrom]
  | succ remaining ih =>
    intro b
    have hfirst : b.append (copies start stop body 0 b.next) = b := by rw [copies, append_nil]
    by_cases hroom : b.length + body.length ≤ b.limit
    · -- the builder after this copy has room for one copy less
      have hdiv : (b.limit - b.length) / body.length =
          (b.limit - (b.length + body.length)) / body.length + 1 := by
        rw [Nat.div_eq_sub_div hm (by omega), Nat.sub_sub]
      have hcopy : (body.map (Quad.relocate start stop (b.next - start))).length = body.length :=
        List.length_map _
      rw [iterationsFrom, if_pos (by simpa [hasRoom] using hroom), ih, limit_append, length_append,
        hcopy, hdiv, Nat.add_min_add_right, List.range_succ_eq_map, List.map_cons, hfirst, List.map_map]
      congr 1
      apply List.map_congr_left
      intro k _
      rw [append_append, next_append, hcopy]; rfl
    · have hdiv : (b.limit - b.length) / body.length = 0 := Nat.div_eq_of_lt (by omega)
      have hmin : min (remaining + 1) (0 + 1) = 1 := by omega
      rw [iterationsFrom, if_neg (by simpa [hasRoom] using hroom), hdiv, hmin, List.range_one,
        List.map_singleton, hfirst]

theorem iterations_eq (h : b.Repeats start stop times) :
    b.iterations start stop times =
      (List.range (min times.toNat ((b.limit - b.length) / (stop - start) + 1))).map fun k =>
        b.append (copies start stop (b.range start stop) k b.next) := by
  have hlen := length_range h.2.1 h.2.2.2
  have hlt := h.2.2.1
  rw [iterations, if_pos h, iterationsFrom_eq (by omega), hlen]

/-- What is known of an iteration: how many copies are finished, and hence how long the code is. -/
theorem exists_finished_of_mem (h : s ∈ b.iterations start stop times) :
    b.Repeats start stop times ∧ ∃ k, k < times.toNat ∧ s.limit = b.limit ∧
      s.length = b.length + k * (stop - start) := by
  by_cases hrep : b.Repeats start stop times
  · rw [iterations_eq hrep] at h
    obtain ⟨k, hk, rfl⟩ := List.mem_map.1 h
    have hlt := List.mem_range.1 hk
    refine ⟨hrep, k, by omega, rfl, ?_⟩
    rw [length_append, length_copies, length_range hrep.2.1 hrep.2.2.2]
  · rw [iterations, if_neg hrep] at h
    cases h

/-- **The loop ends soon**: no iteration starts once a copy did not fit. -/
theorem length_iterations_le (b : Builder) (start stop : ℕ) (times : ℤ) :
    (b.iterations start stop times).length ≤
      min times.toNat ((b.limit - b.length) / (stop - start) + 1) := by
  by_cases hrep : b.Repeats start stop times
  · rw [iterations_eq hrep, List.length_map, List.length_range]
  · rw [iterations, if_neg hrep]
    exact Nat.zero_le _

/-- An iteration that has room makes one of the copies that are finished in the end. -/
theorem lt_copyCount_of_room {k : ℕ} (hrep : b.Repeats start stop times) (hk : k < times.toNat)
    (hroom : b.length + k * (stop - start) + (stop - start) ≤ b.limit) :
    k < b.copyCount start stop times := by
  have hm : 0 < stop - start := Nat.sub_pos_of_lt hrep.2.2.1
  have hfit : k + 1 ≤ (b.limit - b.length) / (stop - start) := by
    rw [Nat.le_div_iff_mul_le hm, Nat.succ_mul]
    omega
  rw [copyCount, if_pos hrep]
  omega

/-! ## Sums and differences -/

/-- **The arithmetic of an iteration is safe.** The builder `b` is unrolled from `start` up to `stop`, and
one iteration starts from `s`. No difference goes below zero, no sum reaches `2^64`, and a jump into the
range becomes a jump into its own copy. -/
structure SafeIteration (b : Builder) (start stop : ℕ) (times : ℤ) (s : Builder) : Prop where
  /-- The range is a slice of the code. -/
  slice : 1 ≤ start ∧ start - 1 ≤ stop - 1 ∧ stop - 1 ≤ b.length ∧ b.length ≤ s.length
  size : (b.range start stop).length = stop - start
  /-- The index of the copy, and its distance from the range. -/
  offset : s.next < 2 ^ 64 ∧ start ≤ s.next
  /-- The length that is compared with the limit. -/
  room : s.length + (b.range start stop).length < 2 ^ 64
  /-- A target that moves is a sum of 64 bits and lies in the copy. -/
  moved : ∀ p q t, start ≤ p → p < stop → b.quad? p = some q → q.JumpsInto start stop t →
    t + (s.next - start) < 2 ^ 64 ∧ s.next ≤ t + (s.next - start) ∧
      t + (s.next - start) < s.next + (b.range start stop).length
  /-- If there is room for the copy, that target is in the code from then on, and within the limit. -/
  written : s.hasRoom (b.range start stop).length = true →
    ∀ p q t, start ≤ p → p < stop → b.quad? p = some q → q.JumpsInto start stop t →
      (b.unroll start stop times).state.quad? (p + (s.next - start)) =
        some (q.retarget (t + (s.next - start))) ∧
      t + (s.next - start) ≤ s.length + (b.range start stop).length ∧ t + (s.next - start) ≤ b.limit

theorem safe_of_mem (h : s ∈ b.iterations start stop times) (hlt : s.length < 2 ^ 63) :
    b.SafeIteration start stop times s := by
  obtain ⟨hrep, k, hk, hlimit, hlength⟩ := exists_finished_of_mem h
  have ⟨_, h1, h2, h3⟩ := hrep
  have hsize := length_range h1 h3
  have hnext : s.next = b.next + k * (stop - start) := by unfold next; omega
  have hstop : stop ≤ b.length + 1 := h3
  have hsum : s.length + 1 = s.next := rfl
  -- a target of the range is less than `stop`, so it moves to before the end of the copy
  have hmoved : ∀ q t, Quad.JumpsInto start stop t q → s.next ≤ t + (s.next - start) ∧
      t + (s.next - start) < s.next + (stop - start) := by
    rintro q t ⟨-, -, ht1, ht2⟩
    omega
  refine ⟨by omega, hsize, by omega, by omega, ?_, ?_⟩
  · intro p q t _ _ _ hjump
    have hinside := hmoved q t hjump
    rw [hsize]
    omega
  · intro hroom p q t hp1 hp2 hq hjump
    have hfits : s.length + (b.range start stop).length ≤ s.limit := by simpa [hasRoom] using hroom
    have hcopy := quad?_unroll_copy (lt_copyCount_of_room hrep hk (by omega)) hp1 hp2
    have hinside := hmoved q t hjump
    rw [← hnext, hq, Option.map_some, relocate_of_jumpsInto hjump] at hcopy
    exact ⟨hcopy, by omega, by omega⟩

/-- **The arithmetic of unrolling is safe.** The iterations of an unrolling are those in its journal, one
record for each. Every iteration is safe that starts with less than `2^63` instructions. There are at most
as many iterations as copies fit and one more, however many copies are asked for. -/
theorem unroll_arithmetic (b : Builder) (start stop : ℕ) (times : ℤ) :
    let iterations := b.iterations start stop times
    let size := (b.range start stop).length
    (b.Repeats start stop times → (b.unroll start stop times).log =
      (iterations.zipIdx 1).map fun p => iterationRecord start stop times size p.1 p.2) ∧
    (¬ b.Repeats start stop times → iterations = []) ∧
    (∀ s ∈ iterations, s.length < 2 ^ 63 → b.SafeIteration start stop times s) ∧
    iterations.length ≤ (b.limit - b.length) / (stop - start) + 1 ∧
    iterations.length ≤ times.toNat := by
  intro iterations size
  have hle := length_iterations_le b start stop times
  exact ⟨log_unroll_of_repeats, fun hrep => if_neg hrep, fun s hs hlt => safe_of_mem hs hlt,
    hle.trans (min_le_right _ _), hle.trans (min_le_left _ _)⟩

/-- A jump to itself, of which as many copies are asked for as can be: two fit, and the second copy jumps to
itself too. -/
theorem unroll_arithmetic_huge_count :
    let b := (empty 3).append [.goto (some 1)]
    let s := b.append [.goto (some 2)]
    (b.iterations 1 2 (2 ^ 63 - 1)).length ≤ 3 ∧ s ∈ b.iterations 1 2 (2 ^ 63 - 1) ∧
    (b.unroll 1 2 (2 ^ 63 - 1)).state.quad? 3 = some (.goto (some 3)) := by
  intro b s
  obtain ⟨-, -, hsafe, hcount, -⟩ := unroll_arithmetic b 1 2 (2 ^ 63 - 1)
  have hmem : s ∈ b.iterations 1 2 (2 ^ 63 - 1) := by
    rw [iterations_eq (by decide)]
    exact List.mem_map.2 ⟨1, by decide, rfl⟩
  have hwritten := (hsafe s hmem (by decide)).written (by decide) 1 (.goto (some 1)) 1 (by decide)
    (by decide) rfl ⟨Or.inr rfl, rfl, by decide, by decide⟩
  exact ⟨hcount.trans (by decide), hmem, hwritten.1⟩

end ThreeAddress.Builder
