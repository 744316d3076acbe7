import ThreeAddress.Proofs.Unrolling

/-!
# Unrolling more than once

Code that was unrolled can be unrolled again: the same range once more, or the range together with the
copies that stand behind it.

* `appendCopies_add`: the loop that appends copies can be left after any copy and taken up again.
* `unroll_instalments`: **copies can be made in instalments.** The second call finds the range as it was
  and goes on where the first one stopped.
* `relocate_relocate`, `copies_of_copies`: a copy of a copy is a copy, as long as no jump leaves the
  range for one of its copies.
* `nested_unrolling`: **nested unrolling multiplies.** Unrolling a loop together with its copies is
  unrolling the loop more often.
-/

namespace ThreeAddress

variable {start stop outer : ℕ}

/-! ## Relocation of what was relocated -/

theorem relocate_zero (q : Quad) : q.relocate start stop 0 = q := by
  rcases relocate_cases start stop 0 q with h | ⟨t, -, ht, -, -, h⟩
  · exact h
  · rw [h, Nat.add_zero, Quad.retarget, ← ht]

/-- **The offsets add up.** The first relocation moves the jumps of a range along with a copy of it, the
second one moves all jumps up to `outer`. A jump that goes from the range to what lies behind it, before
`outer`, would be moved by the second one only. -/
theorem relocate_relocate {q : Quad} {x y : ℕ} (hout : ∀ t, ¬ q.JumpsInto stop outer t)
    (hx : stop + x ≤ outer) :
    (q.relocate start stop x).relocate start outer y = q.relocate start stop (x + y) := by
  by_cases hin : ∃ t, q.JumpsInto start stop t
  · obtain ⟨t, ht⟩ := hin
    have hmoved : (q.retarget (t + x)).JumpsInto start outer (t + x) := by
      obtain ⟨hop, -, h1, h2⟩ := ht
      exact ⟨hop, rfl, by omega, by omega⟩
    rw [relocate_of_jumpsInto ht, relocate_of_jumpsInto hmoved, relocate_of_jumpsInto ht,
      Nat.add_assoc]
    rfl
  · have hnone : ∀ t, ¬ q.JumpsInto start stop t := fun t ht => hin ⟨t, ht⟩
    have hnone' : ∀ t, ¬ q.JumpsInto start outer t := by
      rintro t ⟨hop, ht, h1, h2⟩
      rcases lt_or_ge t stop with hlt | hge
      · exact hnone t ⟨hop, ht, h1, hlt⟩
      · exact hout t ⟨hop, ht, hge, h2⟩
    rw [relocate_of_not_jumpsInto hnone, relocate_of_not_jumpsInto hnone',
      relocate_of_not_jumpsInto hnone]

namespace Builder

variable {b : Builder}

/-! ## Instalments -/

variable {times : ℤ} {body : List Quad}

/-- **The loop can be interrupted** after any number of copies. -/
theorem appendCopies_add (c : ℕ) : ∀ (a repetition : ℕ) (b : Builder),
    appendCopies start stop times body (a + c) repetition b =
      (appendCopies start stop times body a repetition b).andThen fun _ b' =>
        appendCopies start stop times body c (repetition + a) b' := by
  intro a
  induction a with
  | zero => intro repetition b; rw [Nat.zero_add]; rfl
  | succ a ih =>
    intro repetition b
    rw [Nat.succ_add]
    by_cases hroom : b.hasRoom body.length = true
    · have hcount : repetition + 1 + a = repetition + (a + 1) := by omega
      rw [appendCopies_of_room hroom, appendCopies_of_room hroom, ih, Outcome.after_andThen, hcount]
    · rw [appendCopies_of_full hroom, appendCopies_of_full hroom]; rfl

/-- For a range that lies in the buffer, unrolling is the loop. The numbers that the loop is told beside
the number of copies show in the journal only. -/
theorem unroll_agrees (h1 : 1 ≤ start) (h2 : start < stop) (h3 : stop ≤ b.next) (times : ℤ)
    (k repetition : ℕ) :
    (b.unroll start stop k).Agrees
      (appendCopies start stop times (b.range start stop) k repetition b) := by
  rcases Nat.eq_zero_or_pos k with rfl | hk
  · obtain ⟨hok, hsame⟩ := unroll_of_nothing (b := b) (Or.inl (le_refl (0 : ℤ)))
    exact ⟨hok, hsame⟩
  · have hrep : b.Repeats start stop k := ⟨by omega, h1, h2, h3⟩
    have hm : 0 < (b.range start stop).length := by rw [length_range h1 h3]; omega
    rw [unroll_of_repeats hrep, Int.toNat_natCast]
    constructor
    · rw [(appendCopies_eq _ hm _ _ _).2, (appendCopies_eq _ hm _ _ _).2]
    · rw [(appendCopies_eq _ hm _ _ _).1, (appendCopies_eq _ hm _ _ _).1]

theorem range_append (qs : List Quad) (h1 : start ≤ stop) (h2 : stop ≤ b.next) :
    (b.append qs).range start stop = b.range start stop := by
  unfold next at h2
  rw [range_eq, range_eq, quads_append, List.drop_append_of_le_length (by rw [length_quads]; omega),
    List.take_append_of_le_length (by rw [List.length_drop, length_quads]; omega)]

/-- **A later call goes on** where an earlier one stopped: the range is as it was, and the offset is that
of the next copy. -/
theorem unroll_resumed (h1 : 1 ≤ start) (h2 : start < stop) (h3 : stop ≤ b.next) (a c : ℕ) :
    ((b.unroll start stop a).andThen fun _ b' => b'.unroll start stop c).Agrees
      (b.unroll start stop (a + c : ℕ)) := by
  have honce := unroll_agrees h1 h2 h3 (a + c) (a + c) 1
  rw [appendCopies_add] at honce
  refine ((unroll_agrees h1 h2 h3 (a + c) a 1).andThen ?_).trans honce.symm
  intro _ _
  have hnext : b.next ≤ (b.unroll start stop a).state.next := by
    rw [unroll_state, next_append]; omega
  have hrange : (b.unroll start stop a).state.range start stop = b.range start stop := by
    rw [unroll_state]; exact range_append _ h2.le h3
  have hrest := unroll_agrees h1 h2 (h3.trans hnext) (a + c) c (1 + a)
  rwa [hrange] at hrest

/-- **Copies can be made in instalments.** Asking for `a` copies and then, if that succeeds, for `c` more
comes to the same result and the same builder as asking for `a + c` copies at once. That holds for every
range, also for one that is refused, and wherever the room ends. -/
theorem unroll_instalments (b : Builder) (start stop a c : ℕ) :
    let both := (b.unroll start stop a).andThen fun _ b' => b'.unroll start stop c
    let once := b.unroll start stop (a + c)
    both.result = once.result ∧ both.state = once.state ∧
      both.state.length = b.length + b.copyCount start stop (a + c) * (stop - start) := by
  intro both once
  suffices h : both.Agrees once by
    have hlength : once.state.length = _ := unroll_length b start stop (a + c)
    exact ⟨h.result, h.state, by rw [h.state]; exact hlength⟩
  by_cases hrange : 1 ≤ start ∧ start < stop ∧ stop ≤ b.next
  · have hresumed := unroll_resumed hrange.1 hrange.2.1 hrange.2.2 a c
    rwa [Nat.cast_add] at hresumed
  rcases eq_or_ne start stop with hempty | hne
  · -- none of the three calls does anything
    have hidle : ∀ times, (b.unroll start stop times).result = .ok () ∧
        (b.unroll start stop times).state = b := fun _ => unroll_of_nothing (Or.inr hempty)
    obtain ⟨hr, hs⟩ := Outcome.andThen_of_ok (hidle a).1 fun _ b' => b'.unroll start stop c
    rw [(hidle a).2, (hidle c).1] at hr
    rw [(hidle a).2, (hidle c).2] at hs
    exact ⟨hr.trans (hidle _).1.symm, hs.trans (hidle _).2.symm⟩
  rcases Nat.eq_zero_or_pos a with hzero | hpos
  · -- the first call does nothing, and the second one is the single call
    obtain ⟨hok, hsame⟩ : (b.unroll start stop a).result = .ok () ∧
      (b.unroll start stop a).state = b := unroll_of_nothing (Or.inl (by omega))
    obtain ⟨hr, hs⟩ := Outcome.andThen_of_ok hok fun _ b' => b'.unroll start stop c
    rw [hsame] at hr hs
    have hcall : once = b.unroll start stop c := congrArg (b.unroll start stop) (by omega)
    rw [hcall]
    exact ⟨hr, hs⟩
  · -- the first call is refused, for the reason for which the single call is
    obtain ⟨hbad, hsame⟩ := unroll_of_invalid (b := b) (Int.natCast_pos.2 hpos) hne hrange
    obtain ⟨hbad', hsame'⟩ : once.result = _ ∧ once.state = b :=
      unroll_of_invalid (by omega) hne hrange
    obtain ⟨hr, hs⟩ := Outcome.andThen_of_error hbad fun _ b' => b'.unroll start stop c
    exact ⟨hr.trans hbad'.symm, hs.trans (hsame.trans hsame'.symm)⟩

/-! ## Copies of copies -/

theorem copies_add (k l : ℕ) : ∀ first, copies start stop body (k + l) first =
    copies start stop body k first ++ copies start stop body l (first + k * body.length) := by
  induction k with
  | zero => intro first; simp [copies]
  | succ k ih =>
    intro first
    have hfirst : first + (k + 1) * body.length = first + body.length + k * body.length := by ring
    rw [Nat.succ_add, copies, copies, ih, List.append_assoc, hfirst]

/-- Relocating copies that end before `outer` gives the copies that start so much further on. -/
theorem map_relocate_copies (hout : ∀ q ∈ body, ∀ t, ¬ q.JumpsInto stop outer t)
    (hstop : start + body.length = stop) (offset k : ℕ) :
    ∀ first, start ≤ first → first + k * body.length ≤ outer →
      (copies start stop body k first).map (Quad.relocate start outer offset) =
        copies start stop body k (first + offset) := by
  induction k with
  | zero => intro first _ _; rfl
  | succ k ih =>
    intro first hfirst hfits
    have hsplit : first + (k + 1) * body.length = first + body.length + k * body.length := by ring
    have hcopy : (body.map (Quad.relocate start stop (first - start))).map
        (Quad.relocate start outer offset) =
          body.map (Quad.relocate start stop (first + offset - start)) := by
      have hoffset : first - start + offset = first + offset - start := by omega
      rw [List.map_map]
      refine List.map_congr_left fun q hq => ?_
      rw [Function.comp_apply, relocate_relocate (hout q hq) (by omega), hoffset]
    have hnext : first + body.length + offset = first + offset + body.length := by omega
    rw [copies, copies, List.map_append, hcopy, ih _ (by omega) (by omega), hnext]

/-- **Copies of copies are copies**: `c` copies of a range of `n` copies are `c * n` copies. -/
theorem copies_of_copies {n : ℕ} (hout : ∀ q ∈ body, ∀ t, ¬ q.JumpsInto stop outer t)
    (hstop : start + body.length = stop) (houter : start + n * body.length = outer) (c : ℕ) :
    ∀ first, start ≤ first →
      copies start outer (copies start stop body n start) c first =
        copies start stop body (c * n) first := by
  induction c with
  | zero => intro first _; rw [Nat.zero_mul]; rfl
  | succ c ih =>
    intro first hfirst
    -- a copy of the `n` copies is `n` copies again, and the next copy starts behind them
    have hmap := map_relocate_copies hout hstop (first - start) n start le_rfl houter.le
    rw [Nat.add_sub_cancel' hfirst] at hmap
    have hcount : (c + 1) * n = n + c * n := by ring
    rw [copies, hmap, length_copies, ih _ (by omega), hcount, copies_add]

/-! ## Nested unrolling -/

theorem copyCount_of_fits (h1 : 1 ≤ start) (h2 : start < stop) (h3 : stop ≤ b.next) {k : ℕ}
    (hfits : b.length + k * (stop - start) ≤ b.limit) : b.copyCount start stop k = k := by
  rcases Nat.eq_zero_or_pos k with rfl | hk
  · exact if_neg fun hrep => absurd hrep.1 (lt_irrefl 0)
  · have hrep : b.Repeats start stop k := ⟨by omega, h1, h2, h3⟩
    have hroom : k ≤ (b.limit - b.length) / (stop - start) :=
      (Nat.le_div_iff_mul_le (by omega)).2 (by omega)
    rw [copyCount, if_pos hrep, Int.toNat_natCast, min_eq_left hroom]

/-- The outcome of unrolling if all copies fit. -/
theorem unroll_of_fits (h1 : 1 ≤ start) (h2 : start < stop) (h3 : stop ≤ b.next) {k : ℕ}
    (hfits : b.length + k * (stop - start) ≤ b.limit) :
    (b.unroll start stop k).result = .ok () ∧
      (b.unroll start stop k).state = b.append (copies start stop (b.range start stop) k b.next) := by
  have hcount := copyCount_of_fits h1 h2 h3 hfits
  rw [unroll_state, hcount]
  refine ⟨?_, rfl⟩
  rcases Nat.eq_zero_or_pos k with rfl | hk
  · exact (unroll_of_nothing (Or.inl le_rfl)).1
  · have hrep : b.Repeats start stop k := ⟨by omega, h1, h2, h3⟩
    rw [unroll_result hrep, hcount, Int.toNat_natCast, if_pos rfl]

/-- The end of the code and the copies behind it are, as a range, one copy more. -/
theorem range_append_copies (h1 : 1 ≤ start) (h2 : start < b.next) (k : ℕ) :
    (b.append (copies start b.next (b.range start b.next) k b.next)).range start
        (b.next + k * (b.next - start)) =
      copies start b.next (b.range start b.next) (k + 1) start := by
  have hlen : (b.range start b.next).length = b.next - start := length_range h1 le_rfl
  have hbody : b.range start b.next = b.quads.drop (start - 1) := by
    rw [range_eq, List.take_of_length_le]
    rw [List.length_drop, length_quads]; unfold next; omega
  -- the range is its own copy with offset zero
  have hself : (b.range start b.next).map (Quad.relocate start b.next (start - start)) =
      b.range start b.next := by
    rw [Nat.sub_self, List.map_congr_left fun q _ => relocate_zero q, List.map_id']
  have hfirst : start + (b.range start b.next).length = b.next := by omega
  rw [copies, hself, hfirst, range_eq, quads_append,
    List.drop_append_of_le_length (by rw [length_quads]; unfold next at h2; omega), ← hbody,
    List.take_of_length_le]
  rw [List.length_append, length_copies, hlen]
  omega

theorem exists_index_of_mem_range (h1 : 1 ≤ start) {q : Quad} (h : q ∈ b.range start stop) :
    ∃ p, start ≤ p ∧ p < stop ∧ b.quad? p = some q := by
  obtain ⟨j, hj⟩ := List.mem_iff_getElem?.1 h
  obtain ⟨hlt, -⟩ := List.getElem?_eq_some_iff.1 hj
  have hle : (b.range start stop).length ≤ stop - 1 - (start - 1) := by
    rw [range_eq]; exact List.length_take_le _ _
  have hlast : start + j < stop := by omega
  exact ⟨start + j, by omega, hlast, (getElem?_range h1 hlast).symm.trans hj⟩

/-- No jump of the range from `start` up to `stop` goes to an instruction from `stop` up to `outer`. -/
def KeepsClear (b : Builder) (start stop outer : ℕ) : Prop :=
  ∀ p q t, start ≤ p → p < stop → b.quad? p = some q → ¬ q.JumpsInto stop outer t

/-- A jump of the range into the copies behind it is moved when range and copies are copied together,
and stays when the range alone is copied. -/
theorem keepsClear_of_copy_eq {offset : ℕ} (hoffset : 0 < offset)
    (h : ∀ p, start ≤ p → p < stop → (b.quad? p).map (Quad.relocate start outer offset) =
      (b.quad? p).map (Quad.relocate start stop offset)) : b.KeepsClear start stop outer := by
  rintro p q t hp1 hp2 hq ⟨hop, ht, h1, h2⟩
  have hmoved : q.JumpsInto start outer t := ⟨hop, ht, by omega, h2⟩
  have hstays : ∀ t', ¬ q.JumpsInto start stop t' := by
    rintro t' ⟨-, ht', -, hlt⟩
    obtain rfl : t = t' := Destination.target.inj (ht.symm.trans ht')
    omega
  have heq := h p hp1 hp2
  rw [hq, Option.map_some, Option.map_some, relocate_of_jumpsInto hmoved,
    relocate_of_not_jumpsInto hstays] at heq
  have hdest : Destination.target (t + offset) = .target t :=
    (congrArg Quad.dest (Option.some.inj heq)).trans ht
  have := Destination.target.inj hdest
  omega

/-- The second call of a nested unrolling, if there is room: it copies the range with the `a` copies that
the first call put behind it. -/
theorem unroll_with_copies (h1 : 1 ≤ start) (h2 : start < b.next) {a c : ℕ}
    (hfits : b.length + (a + c * (a + 1)) * (b.next - start) ≤ b.limit)
    (houter : outer = b.next + a * (b.next - start)) :
    let inner := b.append (copies start b.next (b.range start b.next) a b.next)
    inner.next = outer ∧ inner.copyCount start outer c = c ∧
    (inner.unroll start outer c).result = .ok () ∧
    (inner.unroll start outer c).state = inner.append
      (copies start outer (copies start b.next (b.range start b.next) (a + 1) start) c outer) := by
  intro inner
  have hlen : (b.range start b.next).length = b.next - start := length_range h1 le_rfl
  have hlength : inner.length = b.length + a * (b.next - start) := by
    rw [length_append, length_copies, hlen]
  have hnext : inner.next = outer := by unfold next at *; omega
  have hlt : start < outer := by omega
  have hroom : (a + c * (a + 1)) * (b.next - start) =
      a * (b.next - start) + c * (b.next - start + a * (b.next - start)) := by ring
  have hwidth : outer - start = b.next - start + a * (b.next - start) := by omega
  have hfits' : inner.length + c * (outer - start) ≤ inner.limit := by
    rw [hlength, hwidth, limit_append]; omega
  obtain ⟨hok, hstate⟩ := unroll_of_fits h1 hlt hnext.ge hfits'
  refine ⟨hnext, copyCount_of_fits h1 hlt hnext.ge hfits', hok, ?_⟩
  rw [hstate, hnext, houter, range_append_copies h1 h2]

/-- What both calls append, if the range keeps clear of its copies: copies of the range alone. -/
theorem append_copies_twice (h1 : 1 ≤ start) (h2 : start < b.next) {a : ℕ}
    (houter : outer = b.next + a * (b.next - start)) (hclear : b.KeepsClear start b.next outer)
    (c : ℕ) :
    (b.append (copies start b.next (b.range start b.next) a b.next)).append
        (copies start outer (copies start b.next (b.range start b.next) (a + 1) start) c outer) =
      b.append (copies start b.next (b.range start b.next) (a + c * (a + 1)) b.next) := by
  have hlen : (b.range start b.next).length = b.next - start := length_range h1 le_rfl
  have hout : ∀ q ∈ b.range start b.next, ∀ t, ¬ q.JumpsInto b.next outer t := by
    intro q hq t
    obtain ⟨p, hp1, hp2, hp⟩ := exists_index_of_mem_range h1 hq
    exact hclear p q t hp1 hp2 hp
  have hwidth : start + (a + 1) * (b.range start b.next).length = outer := by
    have hexpand : (a + 1) * (b.next - start) = b.next - start + a * (b.next - start) := by ring
    rw [hlen, hexpand]
    omega
  have hfirst : b.next + a * (b.range start b.next).length = outer := by rw [hlen, houter]
  rw [copies_of_copies hout (by omega) hwidth c outer (by omega), append_append, copies_add, hfirst]

/-- **Nested unrolling multiplies.** A loop at the end of the code is unrolled `a` times, and then,
together with its copies, `c` times. If there is room, both calls succeed. If no jump of the loop goes to
where its copies are put, this makes the same builder as `(a + 1) * (c + 1) - 1` copies of the loop. If
there is such a jump, it does not, unless the second call is for no copy. -/
theorem nested_unrolling (b : Builder) (start stop a c : ℕ) (h1 : 1 ≤ start) (h2 : start < stop)
    (hstop : stop = b.next)
    (hfits : b.length + ((a + 1) * (c + 1) - 1) * (stop - start) ≤ b.limit) :
    let outer := stop + a * (stop - start)
    let nested := (b.unroll start stop a).andThen fun _ b' => b'.unroll start outer c
    let once := b.unroll start stop ((a + 1) * (c + 1) - 1 : ℕ)
    nested.result = .ok () ∧ once.result = .ok () ∧
    (b.KeepsClear start stop outer → nested.state = once.state) ∧
    (0 < c → nested.state = once.state → b.KeepsClear start stop outer) := by
  subst hstop
  intro outer nested once
  have htotal : (a + 1) * (c + 1) - 1 = a + c * (a + 1) := by
    have hexpand : (a + 1) * (c + 1) = a + c * (a + 1) + 1 := by ring
    omega
  simp only [once, htotal]
  rw [htotal] at hfits
  have hroom : a * (b.next - start) ≤ (a + c * (a + 1)) * (b.next - start) :=
    Nat.mul_le_mul_right _ (Nat.le_add_right _ _)
  obtain ⟨hok₁, hstate₁⟩ := unroll_of_fits (k := a) h1 h2 le_rfl (by omega)
  obtain ⟨hnext, hcount, hok₂, hstate₂⟩ := unroll_with_copies h1 h2 hfits (rfl : outer = _)
  obtain ⟨hok, hstate⟩ := unroll_of_fits h1 h2 le_rfl hfits
  obtain ⟨hresult, hnested⟩ := Outcome.andThen_of_ok hok₁ fun _ b' => b'.unroll start outer c
  rw [hstate₁] at hresult hnested
  refine ⟨hresult.trans hok₂, hok, ?_, ?_⟩
  · intro hclear
    rw [hstate, ← append_copies_twice h1 h2 rfl hclear c]
    exact hnested.trans hstate₂
  · intro hc heq
    refine keepsClear_of_copy_eq (Nat.sub_pos_of_lt (show start < outer by omega)) ?_
    intro p hp1 hp2
    -- what the second call copies first is what the single call makes its copy `a + 1` of
    have hp : p < outer := by omega
    have htwice := quad?_unroll_copy (r := 0) (hcount.symm ▸ hc) hp1 hp
    rw [Nat.zero_mul, Nat.add_zero, hnext, quad?_append_left _ hp2] at htwice
    have hmore : a < b.copyCount start b.next (a + c * (a + 1) : ℕ) := by
      have hpos : 0 < c * (a + 1) := Nat.mul_pos hc (Nat.succ_pos a)
      rw [copyCount_of_fits h1 h2 le_rfl hfits]
      omega
    have honce : (b.unroll start b.next (a + c * (a + 1) : ℕ)).state.quad? (p + (outer - start)) =
        (b.quad? p).map (Quad.relocate start b.next (outer - start)) := quad?_unroll_copy hmore hp1 hp2
    rw [← htwice, ← honce, ← heq, ← hnested]

/-- A loop whose exit is still open is unrolled once, and then once with its copy: three copies stand
behind it, as after unrolling it three times. If the exit goes to the end of the loop, where the first
copy is put, the exit of the second copy goes to the third, and not to the first. -/
theorem nested_unrolling_once_each :
    let loop (exit : Quad) := (empty 9).append [.assign "i" "0", exit, .goto (some 2)]
    let nested (exit : Quad) := ((loop exit).unroll 2 4 1).andThen fun _ b' => b'.unroll 2 6 1
    (nested (.branch "GEI" "i" "5")).result = .ok () ∧
    (nested (.branch "GEI" "i" "5")).state = ((loop (.branch "GEI" "i" "5")).unroll 2 4 3).state ∧
    (nested (.branch "GEI" "i" "5")).state.quad? 9 = some (.goto (some 8)) ∧
    (nested ((Quad.branch "GEI" "i" "5").retarget 4)).state ≠
      ((loop ((Quad.branch "GEI" "i" "5").retarget 4)).unroll 2 4 3).state := by
  intro loop nested
  have hclear : (loop (.branch "GEI" "i" "5")).KeepsClear 2 4 6 := by
    rintro p q t hp1 hp2 hq ⟨-, ht, h1, -⟩
    obtain rfl | rfl : p = 2 ∨ p = 3 := by omega
    · obtain rfl := Option.some.inj hq
      cases ht
    · obtain rfl := Option.some.inj hq
      obtain rfl : 2 = t := Destination.target.inj ht
      omega
  obtain ⟨hok, -, hsame, -⟩ := nested_unrolling (loop (.branch "GEI" "i" "5")) 2 4 1 1 (by decide)
    (by decide) rfl (by decide)
  obtain ⟨-, -, -, honly⟩ := nested_unrolling (loop ((Quad.branch "GEI" "i" "5").retarget 4)) 2 4 1 1
    (by decide) (by decide) rfl (by decide)
  refine ⟨hok, hsame hclear, by decide, ?_⟩
  intro heq
  exact honly Nat.one_pos heq 2 _ 4 le_rfl (by decide) rfl ⟨Or.inl ⟨_, rfl⟩, rfl, le_rfl, by decide⟩

end Builder

end ThreeAddress
