import Mathlib.Tactic
import ThreeAddress.Builder.Basic

/-!
# Instructions by index

The instruction at an index (`Builder.quad?`) is how the theory looks at the code of a builder: which
indices have one, what appending and emitting do to it, and which of them are unresolved jumps. What an
instruction made from texts has as its destination is said once (`Destination.ofText_cases`).
-/

namespace ThreeAddress

/-- **Everything that a text can stand for** as the destination of an operation. -/
theorem Destination.ofText_cases (op : Operation) (text : Option String) :
    (op.isJump = true ∧ text = none ∧ ofText op text = .unresolved) ∨
    (op.isJump = true ∧ ∃ t n, text = some t ∧ Text.index? t.toList = some n ∧
      ofText op text = .target n) ∨
    (op.isJump = true ∧ ∃ t, text = some t ∧ Text.index? t.toList = none ∧
      ofText op text = .operand t) ∨
    (op.isJump = false ∧ text = none ∧ ofText op text = .empty) ∨
    (op.isJump = false ∧ ∃ t, text = some t ∧ ofText op text = .operand t) := by
  unfold ofText
  cases hjump : op.isJump with
  | true =>
    cases text with
    | none => exact Or.inl ⟨rfl, rfl, rfl⟩
    | some t =>
      cases hindex : Text.index? t.toList with
      | some n => exact Or.inr (Or.inl ⟨rfl, t, n, rfl, hindex, by simp only [hindex]⟩)
      | none => exact Or.inr (Or.inr (Or.inl ⟨rfl, t, rfl, hindex, by simp only [hindex]⟩))
  | false =>
    cases text with
    | none => exact Or.inr (Or.inr (Or.inr (Or.inl ⟨rfl, rfl, rfl⟩)))
    | some t => exact Or.inr (Or.inr (Or.inr (Or.inr ⟨rfl, t, rfl, rfl⟩)))

namespace Quad

theorem isUnresolved_iff {q : Quad} : q.isUnresolved = true ↔ q.isJump = true ∧ q.dest = .unresolved := by
  unfold isUnresolved
  rw [Bool.and_eq_true, beq_iff_eq]

/-- A quad made from texts is an unresolved jump exactly if it is a jump and was given no destination. -/
theorem isUnresolved_ofText {mnemonic : String} {arg1 arg2 dest : Option String} :
    (ofText mnemonic arg1 arg2 dest).isUnresolved = true ↔
      (ofText mnemonic arg1 arg2 dest).isJump = true ∧ dest = none := by
  have hdest : (ofText mnemonic arg1 arg2 dest).dest =
      Destination.ofText (Operation.ofMnemonic mnemonic) dest := rfl
  rw [isUnresolved_iff, hdest]
  refine and_congr_right fun hjump => ?_
  have hop : (Operation.ofMnemonic mnemonic).isJump = true := hjump
  rcases Destination.ofText_cases (Operation.ofMnemonic mnemonic) dest with
    ⟨-, ht, he⟩ | ⟨-, t, n, ht, -, he⟩ | ⟨-, t, ht, -, he⟩ | ⟨hn, -⟩ | ⟨hn, -⟩
  · rw [he]; simp [ht]
  · rw [he]; simp [ht]
  · rw [he]; simp [ht]
  · simp [hop] at hn
  · simp [hop] at hn

end Quad

namespace Builder

variable {b : Builder}

theorem quad?_eq {p : ℕ} (hp : 1 ≤ p) : b.quad? p = b.quads[p - 1]? := by
  unfold quad?
  rw [if_neg (by omega), quads, Array.getElem?_toList]

theorem quad?_zero : b.quad? 0 = none := rfl

/-- There is an instruction at each index below the next free one, and at no other. -/
theorem quad?_isSome {p : ℕ} : (b.quad? p).isSome ↔ 1 ≤ p ∧ p < b.next := by
  rcases Nat.eq_zero_or_pos p with h | h
  · subst h; simp [quad?_zero]
  · rw [quad?_eq h, isSome_getElem?, length_quads]
    unfold next; omega

theorem exists_quad {p : ℕ} (h1 : 1 ≤ p) (h2 : p < b.next) : ∃ q, b.quad? p = some q :=
  Option.isSome_iff_exists.1 (quad?_isSome.2 ⟨h1, h2⟩)

theorem bounds_of_quad? {p : ℕ} {q : Quad} (h : b.quad? p = some q) : 1 ≤ p ∧ p < b.next :=
  quad?_isSome.1 (Option.isSome_of_mem h)

theorem quad?_append_left (qs : List Quad) {p : ℕ} (hp : p < b.next) :
    (b.append qs).quad? p = b.quad? p := by
  rcases Nat.eq_zero_or_pos p with h | h
  · subst h; rfl
  · unfold next at hp
    rw [quad?_eq h, quad?_eq h, quads_append, List.getElem?_append_left (by rw [length_quads]; omega)]

theorem quad?_append_right (qs : List Quad) (j : ℕ) :
    (b.append qs).quad? (b.next + j) = qs[j]? := by
  have hj : b.next + j - 1 = b.quads.length + j := by rw [length_quads]; unfold next; omega
  rw [quad?_eq (by unfold next; omega), quads_append, hj, List.getElem?_append_right (by omega),
    Nat.add_sub_cancel_left]

theorem append_append (xs ys : List Quad) : (b.append xs).append ys = b.append (xs ++ ys) := by
  simp [append, ← Array.toList_inj]

theorem append_nil : b.append [] = b := by simp [append]

theorem next_append (qs : List Quad) : (b.append qs).next = b.next + qs.length := by
  unfold next; rw [length_append]; omega

theorem emit_of_room (h : b.length < b.limit) (q : Quad) :
    b.emit q = .ok b.next (b.append [q]) [.emitted b.next q] := by
  have hroom : b.hasRoom 1 = true := decide_eq_true h
  unfold emit
  rw [if_pos hroom]

theorem emit_of_full (h : ¬ b.length < b.limit) (q : Quad) :
    b.emit q = .fail (.capacityExceeded b.limit) b [.noRoom b.length 1 b.limit] := by
  have hroom : ¬ b.hasRoom 1 = true := by unfold hasRoom; simpa using h
  unfold emit
  rw [if_neg hroom]; rfl

theorem exists_quad_of_mem {q : Quad} (h : q ∈ b.quads) : ∃ i, b.quad? i = some q := by
  obtain ⟨j, hj⟩ := List.mem_iff_getElem?.1 h
  refine ⟨j + 1, ?_⟩
  rw [quad?_eq (by omega), Nat.add_sub_cancel]
  exact hj

theorem quad?_ne_some (h : b.length = 0) {i : ℕ} {q : Quad} : b.quad? i ≠ some q := by
  intro hq
  obtain ⟨h1, h2⟩ := bounds_of_quad? hq
  unfold next at h2
  omega

theorem quad?_eq_none {p : ℕ} (hp : b.next ≤ p) : b.quad? p = none := by
  rw [← Option.not_isSome_iff_eq_none, quad?_isSome]; omega

/-- A builder is its limit, its counters and its instructions by index. -/
theorem ext_quad? {b' : Builder} (hlimit : b.limit = b'.limit) (htemp : b.temporaries = b'.temporaries)
    (hlabel : b.labels = b'.labels) (h : ∀ i, b.quad? i = b'.quad? i) : b = b' := by
  obtain ⟨limit, code, temporaries, labels⟩ := b
  obtain ⟨limit', code', temporaries', labels'⟩ := b'
  have hcode : code = code' := Array.ext_getElem? fun k => h (k + 1)
  simp only at hlimit htemp hlabel
  rw [hlimit, htemp, hlabel, hcode]

/-- The unresolved jumps are the indices of unresolved instructions. -/
theorem mem_unresolved {i : ℕ} :
    i ∈ b.unresolved ↔ ∃ q, b.quad? i = some q ∧ q.isUnresolved = true := by
  unfold unresolved numbered
  simp only [List.mem_map, List.mem_filter, Prod.exists, exists_and_right, exists_eq_right]
  constructor
  · rintro ⟨q, ⟨q', j, hj, heq⟩, hq⟩
    simp only [Prod.mk.injEq] at heq
    obtain ⟨rfl, rfl⟩ := heq
    obtain ⟨h1, h2⟩ := List.mk_mem_zipIdx_iff_le_and_getElem?_sub.1 hj
    exact ⟨q', by rw [quad?_eq h1]; exact h2, hq⟩
  · rintro ⟨q, hq, hu⟩
    have h1 := (quad?_isSome.1 (Option.isSome_of_mem hq)).1
    rw [quad?_eq h1] at hq
    exact ⟨q, ⟨q, i, List.mk_mem_zipIdx_iff_le_and_getElem?_sub.2 ⟨h1, hq⟩, rfl⟩, hu⟩

end Builder

end ThreeAddress
