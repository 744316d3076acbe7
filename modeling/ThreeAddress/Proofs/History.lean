import ThreeAddress.Proofs.Actions

/-!
# The history of a buffer

Until the builder is reset, an instruction stays at the index at which it was emitted, and all that
happens to it is that it is given targets.

* `lastTarget?`: the target that actions gave to an instruction last.
* `quad?_perform`, `quad?_performAll`: an instruction after actions is the one before them with that
  target.
* `buffer_history`: **indices stay meaningful.** Hence the code that is there and every instruction
  that is emitted later can be found under its index, whatever succeeds or fails in between.
-/

namespace ThreeAddress

/-- The quad with a new target, if there is one. -/
def Quad.aimed (q : Quad) (target : Option ℕ) : Quad := { q with dest := target.elim q.dest .target }

theorem Quad.aimed_aimed (q : Quad) (x y : Option ℕ) : (q.aimed x).aimed y = q.aimed (y.or x) := by
  cases y <;> rfl

namespace Builder

/-- The target that the instruction `i` was given by the last of the actions that gave it one. -/
def lastTarget? (i : ℕ) (actions : List Action) : Option ℕ :=
  actions.reverse.findSome? (Action.target? i)

theorem lastTarget?_append (i : ℕ) (xs ys : List Action) :
    lastTarget? i (xs ++ ys) = (lastTarget? i ys).or (lastTarget? i xs) := by
  unfold lastTarget?
  rw [List.reverse_append, List.findSome?_append]

theorem lastTarget?_cons (i : ℕ) (a : Action) (actions : List Action) :
    lastTarget? i (a :: actions) = (lastTarget? i actions).or (a.target? i) := by
  have hsingle : lastTarget? i [a] = a.target? i := by simp [lastTarget?]
  rw [← List.singleton_append, lastTarget?_append, hsingle]

variable {b : Builder} {a : Action} {actions : List Action}

theorem target?_eq_some_iff {i t : ℕ} :
    a.target? i = some t ↔ ∃ list, a = .backpatch list t ∧ i ∈ list.indices := by
  cases a with
  | backpatch list target =>
    simp only [Action.target?, Option.ite_none_right_eq_some, Option.some.injEq,
      Action.backpatch.injEq]
    constructor
    · rintro ⟨hi, rfl⟩; exact ⟨list, ⟨rfl, rfl⟩, hi⟩
    · rintro ⟨_, ⟨rfl, rfl⟩, hi⟩; exact ⟨hi, rfl⟩
  | _ => simp [Action.target?]

theorem lastTarget?_eq_none_iff {i : ℕ} : lastTarget? i actions = none ↔
    ∀ list t, .backpatch list t ∈ actions → i ∉ list.indices := by
  unfold lastTarget?
  rw [List.findSome?_eq_none_iff]
  constructor
  · intro h list t hmem hi
    have hnone := h _ (List.mem_reverse.2 hmem)
    rw [target?_eq_some_iff.2 ⟨list, rfl, hi⟩] at hnone
    cases hnone
  · intro h a ha
    cases ht : a.target? i with
    | none => rfl
    | some t =>
      obtain ⟨list, rfl, hi⟩ := target?_eq_some_iff.1 ht
      exact absurd hi (h list t (List.mem_reverse.1 ha))

theorem exists_backpatch_of_lastTarget? {i t : ℕ} (h : lastTarget? i actions = some t) :
    ∃ list, .backpatch list t ∈ actions ∧ i ∈ list.indices := by
  obtain ⟨a, ha, ht⟩ := List.exists_of_findSome?_eq_some h
  obtain ⟨list, rfl, hi⟩ := target?_eq_some_iff.1 ht
  exact ⟨list, List.mem_reverse.1 ha, hi⟩

/-- An action other than a reset leaves every instruction at its index. -/
theorem quad?_perform (ha : a ≠ .reset) {i : ℕ} (hi : i < b.next) :
    (b.perform a).state.quad? i = (b.quad? i).map (·.aimed (a.target? i)) := by
  have hsame : (b.quad? i).map (·.aimed none) = b.quad? i := Option.map_id'
  rcases perform_cases b a with ⟨qs, happ, hs⟩ | ⟨rfl, hs⟩ | ⟨rfl, hs⟩ | ⟨list, target, rfl, hs⟩ |
    ⟨rfl, -⟩
  · rw [hs, quad?_append_left qs hi, happ.silent i, hsame]
  · rw [hs]; exact hsame.symm
  · rw [hs]; exact hsame.symm
  · rw [hs, quad?_backpatch]
    by_cases hmem : i ∈ list.indices
    · have htarget : (Action.backpatch list target).target? i = some target := if_pos hmem
      rw [if_pos hmem, htarget]; rfl
    · have htarget : (Action.backpatch list target).target? i = none := if_neg hmem
      rw [if_neg hmem, htarget, hsame]
  · exact absurd rfl ha

theorem length_le_perform (ha : a ≠ .reset) : b.length ≤ (b.perform a).state.length := by
  rcases perform_cases b a with ⟨qs, -, hs⟩ | ⟨-, hs⟩ | ⟨-, hs⟩ | ⟨list, target, -, hs⟩ |
    ⟨rfl, -⟩
  · rw [hs, length_append]; omega
  · rw [hs]; exact le_rfl
  · rw [hs]; exact le_rfl
  · rw [hs, length_backpatch]
  · exact absurd rfl ha

theorem length_le_performAll (h : .reset ∉ actions) :
    ∀ b : Builder, b.length ≤ (b.performAll actions).length := by
  induction actions with
  | nil => intro b; exact le_rfl
  | cons a actions ih =>
    intro b
    obtain ⟨ha, hrest⟩ := not_or.1 (mt List.mem_cons.2 h)
    have hstep := length_le_perform (b := b) (Ne.symm ha)
    exact hstep.trans (ih hrest _)

/-- **An instruction after actions** is the one before them with the last target that it was given. -/
theorem quad?_performAll (h : .reset ∉ actions) {i : ℕ} :
    ∀ b : Builder, i < b.next →
      (b.performAll actions).quad? i = (b.quad? i).map (·.aimed (lastTarget? i actions)) := by
  induction actions with
  | nil => intro b _; exact (Option.map_id').symm
  | cons a actions ih =>
    intro b hi
    obtain ⟨ha, hrest⟩ := not_or.1 (mt List.mem_cons.2 h)
    have hi' : i < (b.perform a).state.next :=
      lt_of_lt_of_le hi (Nat.succ_le_succ (length_le_perform (Ne.symm ha)))
    -- what the later actions do comes on top of what the first one does
    rw [performAll_cons, ih hrest _ hi', quad?_perform (Ne.symm ha) hi, lastTarget?_cons,
      Option.map_map]
    congr 1
    funext q
    exact q.aimed_aimed _ _

/-- An emission that succeeds answers with the next free index, and its instruction is there after
any further actions. -/
theorem quad?_of_emission {q : Quad} (ha : a.emitted? = some q) (hroom : b.length < b.limit)
    (h : .reset ∉ actions) :
    (b.performAll (a :: actions)).quad? b.next = some (q.aimed (lastTarget? b.next actions)) := by
  have hstate : (b.perform a).state = b.append [q] := by rw [perform_emission_of_room ha hroom]; rfl
  have hnew : (b.append [q]).quad? b.next = some q := quad?_append_right [q] 0
  have hlt : b.next < (b.append [q]).next := by
    rw [next_append, List.length_singleton]; exact Nat.lt_succ_self _
  rw [performAll_cons, hstate, quad?_performAll h _ hlt, hnew]; rfl

/-- **Indices stay meaningful.** Let actions without a reset be performed one after another, whether
they succeed or fail. Then the buffer does not get shorter. Every instruction that was there is still
at its index, and its destination is the target that it was given last, or what it was if it was
given none. Every emission that succeeded answered with the index that was the next free one, and
its instruction is there, with the target that it was given last since. -/
theorem buffer_history (b : Builder) (actions : List Action) (h : .reset ∉ actions) :
    let after := b.performAll actions
    b.length ≤ after.length ∧
    (∀ i, 1 ≤ i → i ≤ b.length → ∃ q, b.quad? i = some q ∧
      after.quad? i = some { q with dest := (lastTarget? i actions).elim q.dest .target }) ∧
    ∀ m a q answer, actions[m]? = some a → a.emitted? = some q →
      let before := b.performAll (actions.take m)
      (before.perform a).result = .ok answer →
        answer = .index before.next ∧
        after.quad? before.next = some { q with
          dest := (lastTarget? before.next (actions.drop (m + 1))).elim q.dest .target } := by
  intro after
  refine ⟨length_le_performAll h b, ?_, ?_⟩
  · intro i h1 h2
    have hi : i < b.next := Nat.lt_succ_of_le h2
    obtain ⟨q, hq⟩ := exists_quad h1 hi
    refine ⟨q, hq, ?_⟩
    have hlater := quad?_performAll h b hi
    rw [hq] at hlater
    exact hlater
  · intro m a q answer hm hemitted before hres
    by_cases hroom : before.length < before.limit
    · rw [perform_emission_of_room hemitted hroom, Outcome.result_ok] at hres
      obtain rfl := Except.ok.inj hres
      refine ⟨rfl, ?_⟩
      have hsplit : actions = actions.take m ++ a :: actions.drop (m + 1) := by
        obtain ⟨hlt, rfl⟩ := List.getElem?_eq_some_iff.1 hm
        rw [← List.drop_eq_getElem_cons hlt, List.take_append_drop]
      have hlater : .reset ∉ actions.drop (m + 1) := fun hmem => h (List.mem_of_mem_drop hmem)
      have hafter : after = before.performAll (a :: actions.drop (m + 1)) := by
        rw [← performAll_append, ← hsplit]
      rw [hafter]
      exact quad?_of_emission hemitted hroom hlater
    · rw [perform_emission_of_full hemitted hroom, Outcome.result_fail] at hres
      cases hres

/-- A list that names an index before there is an instruction, an unrolling that fails half way and
an emission that is refused: entry 4 of the first list has no effect, that of the second has. -/
theorem buffer_history_full :
    let b := (empty 5).append [.goto none, .branch "LTI" "x" "5"]
    let actions : List Action := [.backpatch ⟨[1, 1, 4]⟩ 2, .emitQuad (.goto none), .unroll 2 4 5,
      .backpatch ⟨[4, 1]⟩ 7, .emit "HALT" none none none]
    .reset ∉ actions ∧
    (b.performAll actions).quad? 1 = some (.goto (some 7)) ∧
    (b.performAll actions).quad? 3 = some (.goto none) ∧
    (b.performAll actions).quad? 4 = some ((Quad.branch "LTI" "x" "5").retarget 7) := by
  intro b actions
  have h : .reset ∉ actions := by decide
  obtain ⟨-, hold, hnew⟩ := buffer_history b actions h
  obtain ⟨q, hq, h1⟩ := hold 1 (by decide) (by decide)
  obtain rfl : Quad.goto none = q := Option.some.inj hq
  obtain ⟨-, h3⟩ := hnew 1 (.emitQuad (.goto none)) (.goto none) (.index 3) rfl rfl rfl
  exact ⟨h, h1, h3, by decide⟩

end Builder

end ThreeAddress
