import ThreeAddress.Proofs.Actions

/-!
# Accounting for unresolved jumps

A jump that is made without a destination is unresolved until it is patched, and a copy of it is one
more unresolved jump. The list of the unresolved jumps follows from what was done to the builder.

* `Quad.Recipe`: the ways to make an instruction. `Recipe.LeavesOpen`: those that make an unresolved
  jump.
* `Quad.Suited`: a jump has a destination, and only a jump waits for one. Recipes make suited
  instructions (`suited_recipe`), and all actions keep them so.
* `unresolved_append`, `unresolved_backpatch`, `unresolved_unroll`: **what each operation does to the
  list.**
* `unresolved_accounting`: all this in every state of every session.
-/

namespace ThreeAddress

variable {start stop : ℕ}

/-! ## How instructions are made -/

namespace Quad

/-- A way to make an instruction. -/
inductive Recipe where
  /-- From the texts of its fields. -/
  | text (mnemonic : String) (arg1 arg2 dest : Option String)
  | goto (target : Option ℕ)
  | branch (relation arg1 arg2 : String)
  | assign (dest value : String)
deriving DecidableEq, Repr

namespace Recipe

/-- The instruction that is made. -/
def quad : Recipe → Quad
  | text mnemonic arg1 arg2 dest => .ofText mnemonic arg1 arg2 dest
  | goto target => .goto target
  | branch relation arg1 arg2 => .branch relation arg1 arg2
  | assign dest value => .assign dest value

/-- The instruction is a **jump without a destination**. -/
def LeavesOpen : Recipe → Prop
  | text mnemonic _ _ dest => (Operation.ofMnemonic mnemonic).isJump = true ∧ dest = none
  | goto target => target = none
  | branch _ _ _ => True
  | assign _ _ => False

end Recipe

/-- **An unresolved jump is one that is made without a destination.** -/
theorem isUnresolved_recipe (recipe : Recipe) :
    recipe.quad.isUnresolved = true ↔ recipe.LeavesOpen := by
  cases recipe with
  | text mnemonic arg1 arg2 dest => exact isUnresolved_ofText
  | goto target =>
    cases target with
    | none => exact iff_of_true rfl rfl
    | some t => exact iff_of_false Bool.false_ne_true (Option.some_ne_none t)
  | branch relation arg1 arg2 => exact iff_of_true rfl trivial
  | assign dest value =>
    have hiff := @isUnresolved_ofText ":=" (some value) none (some dest)
    exact hiff.trans (iff_of_false (by simp) id)

/-- The destination **suits** the operation: a jump has one, and only a jump waits for one. -/
structure Suited (q : Quad) : Prop where
  jump : q.isJump = true → q.dest ≠ .empty
  other : q.isJump = false → q.dest ≠ .unresolved

theorem suited_retarget (q : Quad) (t : ℕ) : (q.retarget t).Suited :=
  ⟨fun _ => Destination.noConfusion, fun _ => Destination.noConfusion⟩

theorem suited_ofText (mnemonic : String) (arg1 arg2 dest : Option String) :
    (ofText mnemonic arg1 arg2 dest).Suited := by
  have hjump : (ofText mnemonic arg1 arg2 dest).isJump = (Operation.ofMnemonic mnemonic).isJump := rfl
  have hdest : (ofText mnemonic arg1 arg2 dest).dest =
      Destination.ofText (Operation.ofMnemonic mnemonic) dest := rfl
  refine ⟨?_, ?_⟩
  · rw [hjump, hdest]
    intro hj
    rcases Destination.ofText_cases (Operation.ofMnemonic mnemonic) dest with
      ⟨-, -, he⟩ | ⟨-, _, _, -, -, he⟩ | ⟨-, _, -, -, he⟩ | ⟨hn, -⟩ | ⟨hn, -⟩
    · simp [he]
    · simp [he]
    · simp [he]
    · simp [hn] at hj
    · simp [hn] at hj
  · rw [hjump, hdest]
    intro hj
    rcases Destination.ofText_cases (Operation.ofMnemonic mnemonic) dest with
      ⟨hn, -⟩ | ⟨hn, -⟩ | ⟨hn, -⟩ | ⟨-, -, he⟩ | ⟨-, _, -, he⟩
    · simp [hn] at hj
    · simp [hn] at hj
    · simp [hn] at hj
    · simp [he]
    · simp [he]

theorem suited_recipe (recipe : Recipe) : recipe.quad.Suited := by
  cases recipe with
  | text mnemonic arg1 arg2 dest => exact suited_ofText mnemonic arg1 arg2 dest
  | goto target =>
    cases target with
    | none => exact ⟨fun _ => Destination.noConfusion, fun hj => Bool.noConfusion hj⟩
    | some t => exact suited_retarget (.goto none) t
  | branch relation arg1 arg2 =>
    exact ⟨fun _ => Destination.noConfusion, fun hj => Bool.noConfusion hj⟩
  | assign dest value => exact suited_ofText ":=" (some value) none (some dest)

end Quad

namespace Builder

variable {b : Builder} {times : ℤ}

/-! ## The list of unresolved jumps -/

theorem findIdxs_zipIdx {α : Type} (p : α → Bool) (l : List α) :
    ∀ s, ((((l.zipIdx s).map fun x => (x.2, x.1)).filter fun x => p x.2).map Prod.fst) =
      l.findIdxs p s := by
  induction l with
  | nil => intro s; rfl
  | cons a l ih =>
    intro s
    rw [List.findIdxs_cons, List.zipIdx_cons, List.map_cons, List.filter_cons]
    cases hp : p a with
    | true => simp [ih]
    | false => simp [ih]

/-- The unresolved jumps are found in the code in one pass, from its start. -/
theorem unresolved_eq (b : Builder) : b.unresolved = b.quads.findIdxs Quad.isUnresolved 1 :=
  findIdxs_zipIdx Quad.isUnresolved b.quads 1

theorem pairwise_unresolved (b : Builder) : b.unresolved.Pairwise (· < ·) := by
  rw [unresolved_eq]; exact List.pairwise_findIdxs

/-- The unresolved jumps of suited code can be told by their destinations alone. -/
theorem mem_unresolved_of_suited (h : ∀ i q, b.quad? i = some q → q.Suited) {i : ℕ} :
    i ∈ b.unresolved ↔ ∃ q, b.quad? i = some q ∧ q.dest = .unresolved := by
  rw [mem_unresolved]
  constructor
  · rintro ⟨q, hq, hu⟩
    exact ⟨q, hq, (Quad.isUnresolved_iff.1 hu).2⟩
  · rintro ⟨q, hq, hd⟩
    refine ⟨q, hq, Quad.isUnresolved_iff.2 ⟨?_, hd⟩⟩
    by_contra hjump
    exact (h i q hq).other (Bool.eq_false_of_not_eq_true hjump) hd

theorem unresolved_append (b : Builder) (qs : List Quad) :
    (b.append qs).unresolved = b.unresolved ++ qs.findIdxs Quad.isUnresolved b.next := by
  have hnext : 1 + b.quads.length = b.next := by rw [length_quads, next, Nat.add_comm]
  rw [unresolved_eq, quads_append, List.findIdxs_append, ← unresolved_eq, hnext]

/-- **Backpatching** takes the listed instructions off the list, and nothing else. -/
theorem unresolved_backpatch (b : Builder) (list : PendingList) (target : ℕ) :
    (b.backpatch list target).value.unresolved = b.unresolved.filter (· ∉ list.indices) := by
  -- both lists are strictly increasing, so their members decide
  refine (pairwise_unresolved _).eq_of_mem_iff ((pairwise_unresolved b).filter _) ?_
  intro i
  rw [List.mem_filter, mem_unresolved, mem_unresolved, quad?_backpatch]
  by_cases hi : i ∈ list.indices
  · simp [hi, Quad.isUnresolved, Quad.retarget]
  · simp [hi]

/-- The unresolved jumps of a single copy, when it starts at `first`. -/
theorem findIdxs_copy {first : ℕ} (hfirst : start ≤ first) (body : List Quad) :
    (body.map (Quad.relocate start stop (first - start))).findIdxs Quad.isUnresolved first =
      (body.findIdxs Quad.isUnresolved start).map (· + (first - start)) := by
  have hsame : Quad.isUnresolved ∘ Quad.relocate start stop (first - start) = Quad.isUnresolved :=
    funext relocate_isUnresolved
  have hsum : ∀ i, i + start + (first - start) = i + first := by omega
  rw [List.findIdxs_map, hsame, List.findIdxs_start, List.findIdxs_start (s := start), List.map_map]
  simp only [Function.comp_def, hsum]

theorem findIdxs_copies (body : List Quad) (k : ℕ) : ∀ first, start ≤ first →
    (copies start stop body k first).findIdxs Quad.isUnresolved first =
      (List.range k).flatMap fun r =>
        (body.findIdxs Quad.isUnresolved start).map (· + (first + r * body.length - start)) := by
  induction k with
  | zero => intro first _; rfl
  | succ k ih =>
    intro first hfirst
    -- the copies behind the first one are counted from where it ends
    have hnext : ∀ r, first + (r + 1) * body.length = first + body.length + r * body.length := by
      intro r; ring
    rw [copies, List.findIdxs_append, List.length_map, findIdxs_copy hfirst,
      ih (first + body.length) (by omega), List.range_succ_eq_map, List.flatMap_cons, List.flatMap_map]
    simp only [hnext, Nat.zero_mul, Nat.add_zero]

theorem findIdxs_range (h1 : 1 ≤ start) (h2 : stop ≤ b.next) :
    (b.range start stop).findIdxs Quad.isUnresolved start =
      b.unresolved.filter fun i => start ≤ i ∧ i < stop := by
  refine List.pairwise_findIdxs.eq_of_mem_iff ((pairwise_unresolved b).filter _) ?_
  intro i
  have hlength := length_range h1 h2
  -- the instruction `i` of the code is the instruction `i - start` of the range
  have hget : start ≤ i → i < stop → (b.range start stop)[i - start]? = b.quad? i := by
    intro hi hlt
    have hplace : start + (i - start) = i := by omega
    have h : (b.range start stop)[i - start]? = b.quad? (start + (i - start)) :=
      getElem?_range h1 (by omega)
    rwa [hplace] at h
  rw [List.mem_findIdxs_iff_getElem_sub_pos, List.mem_filter, mem_unresolved, decide_eq_true_eq]
  constructor
  · rintro ⟨hi, hbound, hq⟩
    have hlt : i < stop := by omega
    have hquad := hget hi hlt
    rw [List.getElem?_eq_getElem hbound] at hquad
    exact ⟨⟨_, hquad.symm, hq⟩, hi, hlt⟩
  · rintro ⟨⟨q, hquad, hq⟩, hi, hlt⟩
    obtain ⟨hbound, heq⟩ := List.getElem?_eq_some_iff.1 ((hget hi hlt).trans hquad)
    exact ⟨hi, hbound, by rw [heq]; exact hq⟩

/-- **Unrolling** appends, copy by copy, what the range has on the list, moved along with the copy. -/
theorem unresolved_unroll (b : Builder) (start stop : ℕ) (times : ℤ) :
    (b.unroll start stop times).state.unresolved =
      b.unresolved ++ (List.range (b.copyCount start stop times)).flatMap fun r =>
        (b.unresolved.filter fun i => start ≤ i ∧ i < stop).map
          (· + (b.next + r * (stop - start) - start)) := by
  rw [unroll_state, unresolved_append]
  rcases Nat.eq_zero_or_pos (b.copyCount start stop times) with hk | hk
  · rw [hk]; rfl
  · obtain ⟨-, h1, hlt, h2⟩ := repeats_of_copyCount_pos hk
    rw [findIdxs_copies _ _ _ (by omega), findIdxs_range h1 h2, length_range h1 h2]

/-- **An emission** that succeeds puts its instruction on the list exactly if it leaves a jump open. -/
theorem unresolved_emission {a : Action} {recipe : Quad.Recipe} {n : ℕ}
    (ha : a.emitted? = some recipe.quad) (hres : (b.perform a).result = .ok (.index n)) :
    n = b.next ∧
      (recipe.LeavesOpen → (b.perform a).state.unresolved = b.unresolved ++ [n]) ∧
      (¬ recipe.LeavesOpen → (b.perform a).state.unresolved = b.unresolved) := by
  by_cases hroom : b.length < b.limit
  · have hperform := perform_emission_of_room ha hroom
    rw [hperform] at hres ⊢
    obtain rfl : b.next = n := Answer.index.inj (Except.ok.inj hres)
    have hafter := unresolved_append b [recipe.quad]
    rw [List.findIdxs_singleton] at hafter
    rw [Outcome.state_ok, hafter]
    refine ⟨rfl, ?_, ?_⟩
    · intro hopen
      rw [if_pos ((Quad.isUnresolved_recipe recipe).2 hopen)]
    · intro hclosed
      rw [if_neg (mt (Quad.isUnresolved_recipe recipe).1 hclosed), List.append_nil]
  · rw [perform_emission_of_full ha hroom] at hres
    cases hres

/-! ## In every state -/

theorem suited_performAll (limit : ℕ) {actions : List Action}
    (h : ∀ q, .emitQuad q ∈ actions → ∃ recipe : Quad.Recipe, q = recipe.quad) :
    ∀ i q, ((new limit).value.performAll actions).quad? i = some q → q.Suited := by
  refine forall_performAll (fun q t _ => q.suited_retarget t) ?_ ?_
  · intro a ha q hq
    cases a with
    | emit mnemonic arg1 arg2 dest =>
      obtain rfl := Option.some.inj hq
      exact Quad.suited_ofText mnemonic arg1 arg2 dest
    | emitQuad q' =>
      obtain rfl := Option.some.inj hq
      obtain ⟨recipe, rfl⟩ := h q' ha
      exact Quad.suited_recipe recipe
    | _ => cases hq
  · intro i q hq
    exact absurd hq (quad?_ne_some rfl)

/-- **Accounting for unresolved jumps.** Let a new builder of any limit go through any actions, of which
those that emit an instruction emit one that was made in one of the four ways. Then no jump is without a
destination, and nothing but a jump waits for one. The unresolved jumps are listed in strictly increasing
order, and they are the instructions whose destination is unresolved. What happens next does this to the
list. An emission that succeeds appends its index if it makes a jump without a destination, and nothing
otherwise. Backpatching removes the listed indices. Unrolling appends for each finished copy the
unresolved jumps of the range in order, moved to the copy; the copy `r`, counted from zero, starts at
`b.next + r * (stop - start)`. A reset empties the list. -/
theorem unresolved_accounting (limit : ℕ) (actions : List Action)
    (h : ∀ q, .emitQuad q ∈ actions → ∃ recipe : Quad.Recipe, q = recipe.quad) :
    let b := (new limit).value.performAll actions
    (∀ i q, b.quad? i = some q →
      (q.isJump = true → q.dest ≠ .empty) ∧ (q.isJump = false → q.dest ≠ .unresolved)) ∧
    b.unresolved.Pairwise (· < ·) ∧
    (∀ i, i ∈ b.unresolved ↔ ∃ q, b.quad? i = some q ∧ q.dest = .unresolved) ∧
    (∀ (a : Action) (recipe : Quad.Recipe) (n : ℕ), a.emitted? = some recipe.quad →
      (b.perform a).result = .ok (.index n) →
        n = b.next ∧
        (recipe.LeavesOpen → (b.perform a).state.unresolved = b.unresolved ++ [n]) ∧
        (¬ recipe.LeavesOpen → (b.perform a).state.unresolved = b.unresolved)) ∧
    (∀ list target,
      (b.perform (.backpatch list target)).state.unresolved =
        b.unresolved.filter (· ∉ list.indices)) ∧
    (∀ start stop times,
      let after := (b.perform (.unroll start stop times)).state
      let k := b.copyCount start stop times
      after.length = b.length + k * (stop - start) ∧
      after.unresolved = b.unresolved ++ (List.range k).flatMap fun r =>
        (b.unresolved.filter fun i => start ≤ i ∧ i < stop).map
          fun i => i + (b.next + r * (stop - start) - start)) ∧
    (b.perform .reset).state.unresolved = [] := by
  intro b
  have hsuited : ∀ i q, b.quad? i = some q → q.Suited := suited_performAll limit h
  refine ⟨fun i q hq => ⟨(hsuited i q hq).jump, (hsuited i q hq).other⟩, pairwise_unresolved b,
    fun i => mem_unresolved_of_suited hsuited, fun a recipe n => unresolved_emission,
    unresolved_backpatch b, ?_, rfl⟩
  intro start stop times after k
  exact ⟨unroll_length b start stop times, unresolved_unroll b start stop times⟩

/-- A loop with two open jumps, copied once, of which one original jump and the assignment behind it are
patched: the list then, after a patch with stale and repeated entries, and after unrolling the copy. -/
theorem unresolved_accounting_copied_jumps :
    let actions : List Action := [.emitQuad (.goto none), .emit "IF LTI" (some "x") (some "5") none,
      .emitQuad (.assign "y" "1"), .unroll 1 4 1, .backpatch ⟨[2, 3, 2]⟩ 7]
    let b := (new 12).value.performAll actions
    (∀ q, .emitQuad q ∈ actions → ∃ recipe : Quad.Recipe, q = recipe.quad) ∧
    b.unresolved = [1, 4, 5] ∧
    (b.perform (.emit "IF" none none (some ""))).state.unresolved = [1, 4, 5] ∧
    (b.perform (.emitQuad (.goto none))).state.unresolved = [1, 4, 5, 7] ∧
    (b.perform (.backpatch ⟨[5, 0, 5, 9]⟩ 2)).state.unresolved = [1, 4] ∧
    (b.perform (.unroll 4 7 5)).state.unresolved = [1, 4, 5, 7, 8, 10, 11] := by
  intro actions b
  have h : ∀ q, .emitQuad q ∈ actions → ∃ recipe : Quad.Recipe, q = recipe.quad := by
    intro q hq
    simp only [actions, List.mem_cons, List.not_mem_nil, or_false, Action.emitQuad.injEq, reduceCtorEq,
      false_or] at hq
    rcases hq with rfl | rfl
    · exact ⟨.goto none, rfl⟩
    · exact ⟨.assign "y" "1", rfl⟩
  have hb : b.unresolved = [1, 4, 5] := by decide +kernel
  obtain ⟨-, -, -, hemit, hpatch, hunroll, -⟩ := unresolved_accounting 12 actions h
  have hoperand := hemit (.emit "IF" none none (some "")) (.text "IF" none none (some "")) 7 rfl
    (by decide +kernel)
  have hopen := hemit (.emitQuad (.goto none)) (.goto none) 7 rfl (by decide +kernel)
  refine ⟨h, hb, ?_, ?_, ?_, ?_⟩
  · rw [hoperand.2.2 (by simp [Quad.Recipe.LeavesOpen])]; exact hb
  · rw [hopen.2.1 rfl, hb]; rfl
  · rw [hpatch, hb]; decide
  · rw [(hunroll 4 7 5).2, hb]; decide +kernel

end Builder

end ThreeAddress
