import ThreeAddress.Proofs.Unrolling

/-!
# Unrolling preserves control flow

The code of a builder is read as a graph. Control goes along a **jump edge** to the target of a
jump, and along a **fall edge** to the next instruction, except from a `GOTO` and from a `HALT`
(`Builder.Flow`). A path (`Builder.Path`) is the sequence of edges that control takes.

* `Lockstep`: a range and the same range further on take the same edges. A jump within the range
  has its counterpart within the copy, and a jump out of the range has the same target in both.
* `Lockstep.path`, `Lockstep.path_back`: hence each path through the range is one through the copy,
  and each path from the copy is one from the range, as long as the range is not left.
* `unroll_lockstep`: **every finished copy is in lockstep with the range.** If the range was the
  end of the code, control that falls off its end goes through the copies one after another.
-/

namespace ThreeAddress

/-- Where a jump goes, if its target is known. -/
def Quad.jump? (q : Quad) : Option ℕ := if q.isJump then q.dest.target? else none

/-- Whether control may go on to the next instruction. -/
def Quad.fallsThrough (q : Quad) : Bool :=
  match q.op with
  | .goto => false
  | .halt => false
  | _ => true

/-- How control leaves an instruction. -/
inductive Edge where
  | jump
  | fall
deriving DecidableEq, Repr

/-- Where the instruction `t` is found after the range from `start` up to `stop` was copied `offset`
further on: in the copy, if it is one of the range. -/
def moved (start stop offset t : ℕ) : ℕ := if start ≤ t ∧ t < stop then t + offset else t

/-- Where an edge to `s` leads in the copy. Falling through always goes along with the copy. -/
def Edge.image (start stop offset : ℕ) : Edge → ℕ → ℕ
  | jump, s => moved start stop offset s
  | fall, s => s + offset

/-- Where a path to `s` leads in the copy: its last edge decides. -/
def arrival (start stop offset : ℕ) (es : List Edge) (s : ℕ) : ℕ :=
  (es.getLast?.getD .fall).image start stop offset s

namespace Builder

/-- The **edges** of the control-flow graph: from an instruction, along an edge, to an index. -/
inductive Flow (b : Builder) : ℕ → Edge → ℕ → Prop
  | jump {p t : ℕ} {q : Quad} : b.quad? p = some q → q.jump? = some t → Flow b p .jump t
  | fall {p : ℕ} {q : Quad} : b.quad? p = some q → q.fallsThrough = true → Flow b p .fall (p + 1)

/-- The **paths** of the control-flow graph all of whose edges start at an instruction from `lo` up
to `hi`. The index in which a path ends may lie anywhere. -/
inductive Path (b : Builder) (lo hi : ℕ) : ℕ → List Edge → ℕ → Prop
  | nil (p : ℕ) : Path b lo hi p [] p
  | step {p s u : ℕ} {e : Edge} {es : List Edge} :
      lo ≤ p → p < hi → b.Flow p e s → Path b lo hi s es u → Path b lo hi p (e :: es) u

/-- A **pass** through a range: a path from its start that falls off its end. -/
def Pass (b : Builder) (start stop : ℕ) (es : List Edge) : Prop :=
  es.getLast? = some .fall ∧ b.Path start stop start es stop

end Builder

/-- The range from `start` up to `stop` and the code `offset` further on are in **lockstep**: the
map `p ↦ p + offset` takes an instruction to one with the same operation and operands, and the edges
out of the second are exactly the images of the edges out of the first. -/
structure Lockstep (b : Builder) (start stop offset : ℕ) : Prop where
  quads : ∀ p, start ≤ p → p < stop → ∃ q q', b.quad? p = some q ∧ b.quad? (p + offset) = some q' ∧
    q'.op = q.op ∧ q'.arg1 = q.arg1 ∧ q'.arg2 = q.arg2 ∧
    (q.dest.target? = none ∨ q'.dest.target? = none → q'.dest = q.dest)
  edges : ∀ p, start ≤ p → p < stop → ∀ e s',
    b.Flow (p + offset) e s' ↔ ∃ s, b.Flow p e s ∧ s' = e.image start stop offset s

variable {b : Builder} {start stop offset : ℕ}

/-! ## Relocation of a single instruction -/

theorem fallsThrough_relocate (q : Quad) :
    (q.relocate start stop offset).fallsThrough = q.fallsThrough := by
  unfold Quad.fallsThrough; rw [(relocate_fields q).1]

/-- **A relocated jump** goes to the image of its target. -/
theorem jump?_relocate (q : Quad) :
    (q.relocate start stop offset).jump? = q.jump?.map (moved start stop offset) := by
  have hj : (q.relocate start stop offset).isJump = q.isJump := by
    unfold Quad.isJump; rw [(relocate_fields q).1]
  unfold Quad.jump?
  rw [hj]
  by_cases hq : q.isJump = true
  · rw [if_pos hq, if_pos hq]
    unfold Quad.relocate moved
    cases hd : q.dest with
    | target t =>
      by_cases ht : start ≤ t ∧ t < stop
      · simp [hq, ht, Quad.retarget, Destination.target?]
      · simp [hq, ht, hd, Destination.target?]
    | empty => simp [hd, Destination.target?]
    | operand text => simp [hd, Destination.target?]
    | unresolved => simp [hd, Destination.target?]
  · rw [if_neg hq, if_neg hq]; rfl

theorem image_of_inside (e : Edge) {s : ℕ} (h1 : start ≤ s) (h2 : s < stop) :
    e.image start stop offset s = s + offset := by
  cases e with
  | jump => simp [Edge.image, moved, h1, h2]
  | fall => rfl

theorem arrival_of_inside (es : List Edge) {s : ℕ} (h1 : start ≤ s) (h2 : s < stop) :
    arrival start stop offset es s = s + offset :=
  image_of_inside _ h1 h2

theorem arrival_cons {es : List Edge} (e : Edge) (hes : es ≠ []) (s : ℕ) :
    arrival start stop offset (e :: es) s = arrival start stop offset es s := by
  unfold arrival
  rw [List.getLast?_cons_of_ne_nil hes]

/-- Code that consists of the relocated instructions of a range is in lockstep with it. -/
theorem Lockstep.of_relocate (h : ∀ p, start ≤ p → p < stop → ∃ q, b.quad? p = some q ∧
    b.quad? (p + offset) = some (q.relocate start stop offset)) : Lockstep b start stop offset := by
  refine ⟨?_, ?_⟩
  · intro p h1 h2
    obtain ⟨q, hq, hq'⟩ := h p h1 h2
    obtain ⟨hop, harg1, harg2⟩ := relocate_fields q
    exact ⟨q, _, hq, hq', hop, harg1, harg2, relocate_dest q⟩
  · intro p h1 h2 e s'
    obtain ⟨q, hq, hq'⟩ := h p h1 h2
    constructor
    · intro hf
      cases hf with
      | jump hr ht =>
        obtain rfl := Option.some.inj (hq'.symm.trans hr)
        rw [jump?_relocate] at ht
        obtain ⟨t, hqt, rfl⟩ := Option.map_eq_some_iff.1 ht
        exact ⟨t, .jump hq hqt, rfl⟩
      | fall hr hf =>
        obtain rfl := Option.some.inj (hq'.symm.trans hr)
        rw [fallsThrough_relocate] at hf
        exact ⟨p + 1, .fall hq hf, by simp only [Edge.image]; omega⟩
    · rintro ⟨s, hf, rfl⟩
      cases hf with
      | jump hr ht =>
        obtain rfl := Option.some.inj (hq.symm.trans hr)
        exact .jump hq' (by rw [jump?_relocate, ht]; rfl)
      | fall hr hf =>
        obtain rfl := Option.some.inj (hq.symm.trans hr)
        have hs : Edge.fall.image start stop offset (p + 1) = p + offset + 1 := by
          simp only [Edge.image]; omega
        rw [hs]
        exact .fall hq' (by rw [fallsThrough_relocate]; exact hf)

/-! ## Paths -/

theorem Builder.Path.mono {lo hi lo' hi' p u : ℕ} {es : List Edge} (h : b.Path lo hi p es u)
    (hlo : lo' ≤ lo) (hhi : hi ≤ hi') : b.Path lo' hi' p es u := by
  induction h with
  | nil p => exact .nil p
  | step h1 h2 hf _ ih => exact .step (by omega) (by omega) hf ih

theorem Builder.Path.append {lo hi p s u : ℕ} {es es' : List Edge} (h : b.Path lo hi p es s)
    (h' : b.Path lo hi s es' u) : b.Path lo hi p (es ++ es') u := by
  induction h with
  | nil p => exact h'
  | step h1 h2 hf _ ih => exact .step h1 h2 hf (ih h')

/-- **A path through the range is a path through the copy**, edge by edge. -/
theorem Lockstep.path (hL : Lockstep b start stop offset) {p u : ℕ} {es : List Edge}
    (h : b.Path start stop p es u) (h1 : start ≤ p) (h2 : p < stop) :
    b.Path (start + offset) (stop + offset) (p + offset) es (arrival start stop offset es u) := by
  induction h with
  | nil p => rw [arrival_of_inside [] h1 h2]; exact .nil _
  | @step p s u e es _ _ hf hp ih =>
    have hf' := (hL.edges p h1 h2 e _).2 ⟨s, hf, rfl⟩
    cases hp with
    | nil => exact .step (by omega) (by omega) hf' (.nil _)
    | step hs1 hs2 hg hp' =>
      -- the path goes on from `s`, so `s` is still in the range
      rw [image_of_inside e hs1 hs2] at hf'
      rw [arrival_cons e (List.cons_ne_nil _ _)]
      exact .step (by omega) (by omega) hf' (ih hs1 hs2)

/-- **A path from the copy is a path from the range**, up to the point where the range is left; from
there on it is a path from the image of that point. -/
theorem Lockstep.path_back (hL : Lockstep b start stop offset) {lo hi u' : ℕ} {es : List Edge} :
    ∀ {p : ℕ}, start ≤ p → p < stop → b.Path lo hi (p + offset) es u' →
      ∃ es₁ es₂ u, es = es₁ ++ es₂ ∧ b.Path start stop p es₁ u ∧
        b.Path lo hi (arrival start stop offset es₁ u) es₂ u' ∧
        (es₂ = [] ∨ ¬ (start ≤ u ∧ u < stop)) := by
  induction es with
  | nil =>
    intro p h1 h2 h
    exact ⟨[], [], p, rfl, .nil p, by rw [arrival_of_inside [] h1 h2]; exact h, Or.inl rfl⟩
  | cons e es ih =>
    intro p h1 h2 h
    cases h with
    | step _ _ hf hp =>
      obtain ⟨s, hs, rfl⟩ := (hL.edges p h1 h2 e _).1 hf
      by_cases hin : start ≤ s ∧ s < stop
      · rw [image_of_inside e hin.1 hin.2] at hp
        obtain ⟨es₁, es₂, u, rfl, hp₁, hp₂, hend⟩ := ih hin.1 hin.2 hp
        refine ⟨e :: es₁, es₂, u, rfl, .step h1 h2 hs hp₁, ?_, hend⟩
        rcases eq_or_ne es₁ [] with rfl | hne
        · cases hp₁
          rw [arrival_of_inside _ hin.1 hin.2] at hp₂ ⊢; exact hp₂
        · rw [arrival_cons e hne]; exact hp₂
      · exact ⟨[e], es, s, rfl, .step h1 h2 hs (.nil s), hp, Or.inr hin⟩

/-! ## Unrolling -/

namespace Builder

variable {times : ℤ}

/-- A finished copy is in lockstep with the range. -/
theorem lockstep_copy {r : ℕ} (hr : r < b.copyCount start stop times) :
    Lockstep (b.unroll start stop times).state start stop
      (b.next + r * (stop - start) - start) := by
  obtain ⟨-, hs, -, hn⟩ := repeats_of_copyCount_pos (Nat.zero_lt_of_lt hr)
  apply Lockstep.of_relocate
  intro p h1 h2
  obtain ⟨q, hq⟩ := exists_quad (show 1 ≤ p by omega) (show p < b.next by omega)
  refine ⟨q, ?_, ?_⟩
  · rw [quad?_unroll_old (by omega), hq]
  · rw [quad?_unroll_copy hr h1 h2, hq]; rfl

/-- If the range was the end of the code, a pass through it leads from the start of the range to the
first copy, and likewise from each copy to the one behind it. -/
theorem path_of_pass (hstop : stop = b.next) {i : ℕ} (hi : i ≤ b.copyCount start stop times)
    {es : List Edge} (hes : (b.unroll start stop times).state.Pass start stop es)
    (hlt : start < stop) :
    (b.unroll start stop times).state.Path start (b.unroll start stop times).state.next
      (start + i * (stop - start)) es (start + (i + 1) * (stop - start)) := by
  have hlen := unroll_length b start stop times
  have hnext : (b.unroll start stop times).state.next =
      b.next + b.copyCount start stop times * (stop - start) := by unfold next; omega
  rcases i with _ | r
  · have hstart : start + (0 + 1) * (stop - start) = stop := by omega
    rw [hstart, Nat.zero_mul, Nat.add_zero]
    exact hes.2.mono le_rfl (by rw [hnext]; omega)
  · have hp := (lockstep_copy hi).path hes.2 le_rfl hlt
    have hsize : (r + 1) * (stop - start) ≤ b.copyCount start stop times * (stop - start) :=
      Nat.mul_le_mul_right _ hi
    have h1 : (r + 1) * (stop - start) = r * (stop - start) + (stop - start) := by ring
    have h2 : (r + 1 + 1) * (stop - start) = r * (stop - start) + 2 * (stop - start) := by ring
    have hfrom : start + (b.next + r * (stop - start) - start) = start + (r + 1) * (stop - start) := by
      omega
    have hto : arrival start stop (b.next + r * (stop - start) - start) es stop =
        start + (r + 1 + 1) * (stop - start) := by
      unfold arrival; rw [hes.1]; simp only [Option.getD_some, Edge.image]; omega
    rw [hto, hfrom] at hp
    exact hp.mono (by omega) (by rw [hnext]; omega)

/-- Passes through the range, one after another, lead through the range and its copies. -/
theorem path_of_passes (hstop : stop = b.next) (hlt : start < stop) :
    ∀ (passes : List (List Edge)) (i : ℕ), i + passes.length ≤ b.copyCount start stop times + 1 →
      (∀ es ∈ passes, (b.unroll start stop times).state.Pass start stop es) →
      (b.unroll start stop times).state.Path start (b.unroll start stop times).state.next
        (start + i * (stop - start)) passes.flatten
        (start + (i + passes.length) * (stop - start)) := by
  intro passes
  induction passes with
  | nil => intro i _ _; exact .nil _
  | cons es passes ih =>
    intro i hi hp
    rw [List.length_cons] at hi ⊢
    have hfirst := path_of_pass hstop (show i ≤ b.copyCount start stop times by omega)
      (hp es List.mem_cons_self) hlt
    have hrest := ih (i + 1) (by omega) (fun es' hes' => hp es' (List.mem_cons_of_mem _ hes'))
    rw [show i + (passes.length + 1) = i + 1 + passes.length by omega, List.flatten_cons]
    exact hfirst.append hrest

/-- **Unrolling preserves control flow.** Let `k` be the number of finished copies. The code that was
there stays, and each copy is in lockstep with the range: its edges are the images of the edges of
the range, and so are its paths. If the range was the end of the code, any `k + 1` passes through it
lead from its start through the range and the copies to the end of the new code. -/
theorem unroll_lockstep (b : Builder) (start stop : ℕ) (times : ℤ) :
    let after := (b.unroll start stop times).state
    let k := b.copyCount start stop times
    let m := stop - start
    after.length = b.length + k * m ∧
    (1 ≤ k → (b.unroll start stop times).result = .ok () ∧ (k : ℤ) = times ∨
      (b.unroll start stop times).result = .error (.capacityExceeded b.limit) ∧ (k : ℤ) < times) ∧
    (∀ p < b.next, after.quad? p = b.quad? p) ∧
    (∀ r < k, Lockstep after start stop (b.next + r * m - start) ∧
      (∀ p es u, start ≤ p → p < stop → after.Path start stop p es u →
        after.Path (b.next + r * m) (b.next + r * m + m) (p + (b.next + r * m - start)) es
          (arrival start stop (b.next + r * m - start) es u)) ∧
      (∀ p lo hi es u', start ≤ p → p < stop →
        after.Path lo hi (p + (b.next + r * m - start)) es u' →
        ∃ es₁ es₂ u, es = es₁ ++ es₂ ∧ after.Path start stop p es₁ u ∧
          after.Path lo hi (arrival start stop (b.next + r * m - start) es₁ u) es₂ u' ∧
          (es₂ = [] ∨ ¬ (start ≤ u ∧ u < stop)))) ∧
    (stop = b.next → 1 ≤ k → ∀ passes : List (List Edge), passes.length ≤ k + 1 →
      (∀ es ∈ passes, after.Pass start stop es) →
      after.Path start after.next start passes.flatten (start + passes.length * m)) := by
  intro after k m
  refine ⟨unroll_length b start stop times, ?_, fun p hp => quad?_unroll_old hp, ?_, ?_⟩
  · intro hk
    have hrep := repeats_of_copyCount_pos hk
    have hle : k ≤ times.toNat := by
      simp only [k]; rw [copyCount, if_pos hrep]; exact min_le_left _ _
    have hpos := hrep.1
    rw [unroll_result hrep]
    by_cases h : b.copyCount start stop times = times.toNat
    · left; rw [if_pos h]; exact ⟨rfl, by omega⟩
    · right; rw [if_neg h]; exact ⟨rfl, by omega⟩
  · intro r hr
    have hL := lockstep_copy hr
    obtain ⟨-, -, hlt, hn⟩ := repeats_of_copyCount_pos (Nat.zero_lt_of_lt hr)
    refine ⟨hL, ?_, fun p lo hi es u' h1 h2 h => hL.path_back h1 h2 h⟩
    intro p es u h1 h2 h
    have hp := hL.path h h1 h2
    rw [show start + (b.next + r * (stop - start) - start) = b.next + r * (stop - start) by omega,
      show stop + (b.next + r * (stop - start) - start) =
        b.next + r * (stop - start) + (stop - start) by omega] at hp
    exact hp
  · intro hstop hk passes hlen hpass
    have hlt := (repeats_of_copyCount_pos hk).2.2.1
    have h := path_of_passes hstop hlt passes 0 (by omega) hpass
    rwa [Nat.zero_mul, Nat.add_zero, Nat.zero_add] at h

/-- A loop body with a jump within, a jump to its end and room for two copies of the five asked for. -/
theorem unroll_lockstep_loop :
    let loop : Builder := ⟨9, #[.ofText "IF LTI" (some "i") (some "n") (some "3"),
      .goto (some 4), .ofText "ADDI" (some "i") (some "1") (some "i")], 0, 0⟩
    let after := (loop.unroll 1 4 5).state
    loop.copyCount 1 4 5 = 2 ∧ Lockstep after 1 4 6 ∧ after.Path 7 10 7 [.jump, .fall] 10 ∧
      after.Path 1 10 1 [.jump, .fall, .jump, .fall, .jump, .fall] 10 := by
  intro loop after
  have hbranch : after.quad? 1 = some (.ofText "IF LTI" (some "i") (some "n") (some "3")) := by decide
  have hadd : after.quad? 3 = some (.ofText "ADDI" (some "i") (some "1") (some "i")) := by decide
  have hpass : after.Pass 1 4 [.jump, .fall] :=
    ⟨by decide, .step (by decide) (by decide) (.jump hbranch (by decide))
      (.step (by decide) (by decide) (.fall hadd (by decide)) (.nil 4))⟩
  have hk : loop.copyCount 1 4 5 = 2 := by decide
  have hfirst : loop.next + 1 * (4 - 1) = 7 := by decide
  have hend : after.next = 10 := by decide
  obtain ⟨-, -, -, hcopies, hpasses⟩ := unroll_lockstep loop 1 4 5
  have hcopy := hcopies 1 (by rw [hk]; decide)
  rw [hfirst] at hcopy
  have hthrough := hpasses rfl (by rw [hk]; decide)
    [[.jump, .fall], [.jump, .fall], [.jump, .fall]] (by rw [hk]; decide)
    (by intro es hes; simp at hes; subst hes; exact hpass)
  rw [show (loop.unroll 1 4 5).state.next = 10 from hend] at hthrough
  exact ⟨hk, hcopy.1, hcopy.2.1 1 _ _ (by decide) (by decide) hpass.2, hthrough⟩

end Builder

end ThreeAddress
