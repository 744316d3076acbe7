import ThreeAddress.Proofs.Accounting
import ThreeAddress.Proofs.Capacity
import ThreeAddress.Proofs.Reading

/-!
# Code emitted once more

The code of a builder can be emitted once more, each instruction from its own texts: the mnemonic, the
operands, and the text of the destination if there is one to write (`Builder.restate`). For code that
came from texts this rebuilds what was there.

* `Operation.ofMnemonic_mnemonic`: **a mnemonic reads as the operation that it was written for.**
* `Quad.Legible`: what every instruction keeps that was emitted from texts, whatever targets it is given.
* `Builder.Bounded`: targets stay within 64 bits. Unrolling moves a target only to an instruction that is
  there (`target_unroll`).
* `Quad.respelled`: an instruction as it comes back. The listing and the unresolved jumps do not show a
  difference.
* `restating_rebuilds`: **emitting code once more** gives the same code, up to the spelling of targets
  at instructions that are no jumps.
-/

namespace ThreeAddress

/-! ## Mnemonics -/

namespace Operation

theorem ofMnemonic_if {mnemonic : String} {relation : List Char}
    (h : mnemonic.toList = 'I' :: 'F' :: relation) :
    ofMnemonic mnemonic = branch (String.ofList (Text.trimStart relation)) := by
  unfold ofMnemonic
  simp only [h]

/-- A mnemonic that does not start with `IF` is written as it was read. -/
theorem mnemonic_ofMnemonic {mnemonic : String} (h : ∀ relation, mnemonic.toList ≠ 'I' :: 'F' :: relation) :
    (ofMnemonic mnemonic).mnemonic = mnemonic := by
  unfold ofMnemonic
  split
  · rename_i relation heq
    exact absurd heq (h relation)
  · split_ifs <;> subst_vars <;> rfl

/-- **Reading a mnemonic is stable**: the operation that it names is written with a mnemonic that names
the same operation. -/
theorem ofMnemonic_mnemonic (mnemonic : String) :
    ofMnemonic (ofMnemonic mnemonic).mnemonic = ofMnemonic mnemonic := by
  by_cases hif : ∃ relation, mnemonic.toList = 'I' :: 'F' :: relation
  · obtain ⟨relation, hlist⟩ := hif
    -- one blank is put in front of the relation, and all leading blanks are dropped again
    have hwritten : ("IF " ++ String.ofList (Text.trimStart relation)).toList =
        'I' :: 'F' :: ' ' :: Text.trimStart relation := by simp
    have hread : Text.trimStart (' ' :: Text.trimStart relation) = Text.trimStart relation :=
      Text.trimStart_eq_self (Text.head?_trimStart relation)
    rw [ofMnemonic_if hlist, Operation.mnemonic, ofMnemonic_if hwritten, hread]
  · rw [mnemonic_ofMnemonic fun relation hlist => hif ⟨relation, hlist⟩]

end Operation

/-! ## Instructions that can be written and read -/

/-- The text to give for a destination, if there is one to write. -/
def Destination.text? : Destination → Option String
  | empty => none
  | unresolved => none
  | dest => some dest.text

namespace Quad

variable {q : Quad}

/-- The instruction that the texts of an instruction stand for. -/
def restated (q : Quad) : Quad := .ofText q.op.mnemonic q.arg1 q.arg2 q.dest.text?

/-- An instruction whose **texts say what it is**: its mnemonic names its operation, its destination suits
it, and an operand of a jump does not read as an index. -/
structure Legible (q : Quad) : Prop where
  op : Operation.ofMnemonic q.op.mnemonic = q.op
  suited : q.Suited
  operand : ∀ text, q.isJump = true → q.dest = .operand text → Text.index? text.toList = none

theorem Legible.retarget (h : q.Legible) (t : ℕ) : (q.retarget t).Legible :=
  ⟨h.op, q.suited_retarget t, fun _ _ hd => Destination.noConfusion hd⟩

theorem legible_ofText (mnemonic : String) (arg1 arg2 dest : Option String) :
    (ofText mnemonic arg1 arg2 dest).Legible := by
  refine ⟨Operation.ofMnemonic_mnemonic mnemonic, suited_ofText mnemonic arg1 arg2 dest, ?_⟩
  intro text hjump hdest
  have hop : (Operation.ofMnemonic mnemonic).isJump = true := hjump
  have hof : Destination.ofText (Operation.ofMnemonic mnemonic) dest = .operand text := hdest
  rcases Destination.ofText_cases (Operation.ofMnemonic mnemonic) dest with
    ⟨-, -, he⟩ | ⟨-, _, _, -, -, he⟩ | ⟨-, t, -, hindex, he⟩ | ⟨hn, -⟩ | ⟨hn, -⟩
  · cases he.symm.trans hof
  · cases he.symm.trans hof
  · obtain rfl : t = text := Destination.operand.inj (he.symm.trans hof)
    exact hindex
  · cases hn.symm.trans hop
  · cases hn.symm.trans hop

/-- The instruction as it comes back: a target is an operand if the instruction is no jump. -/
def respelled (q : Quad) : Quad :=
  match q.dest with
  | .target n => if q.isJump then q else { q with dest := .operand (toString n) }
  | _ => q

theorem respelled_of_target {n : ℕ} (hjump : q.isJump = false) (hdest : q.dest = .target n) :
    q.respelled = { q with dest := .operand (toString n) } := by
  unfold respelled
  rw [hdest, hjump]
  rfl

theorem respelled_of_jump (hjump : q.isJump = true) : q.respelled = q := by
  unfold respelled
  split
  · rw [if_pos hjump]
  · rfl

theorem respelled_of_ne (hdest : ∀ n, q.dest ≠ .target n) : q.respelled = q := by
  unfold respelled
  split
  · rename_i n heq
    exact absurd heq (hdest n)
  · rfl

theorem ofText_numeral {op : Operation} (hjump : op.isJump = true) {n : ℕ} (hn : n ≤ Text.maxIndex) :
    Destination.ofText op (some (toString n)) = .target n := by
  have hindex : Text.index? (toString n).toList = some n := by
    rw [Nat.toString_eq_ofList_toDigits, String.toList_ofList]
    exact Text.index?_toDigits hn
  unfold Destination.ofText
  rw [hjump]
  simp only [hindex]

/-- **An instruction that is read from its texts** is the one that was written, up to the spelling of a
target that does not belong to a jump. -/
theorem Legible.restated (h : q.Legible) (hbound : ∀ n, q.dest = .target n → n ≤ Text.maxIndex) :
    q.restated = q.respelled := by
  obtain ⟨op, arg1, arg2, dest⟩ := q
  obtain ⟨hop, ⟨hjump, hother⟩, hoperand⟩ := h
  simp only [isJump] at hop hjump hother hoperand hbound
  have hread : Quad.restated ⟨op, arg1, arg2, dest⟩ = ⟨op, arg1, arg2, Destination.ofText op dest.text?⟩ := by
    unfold Quad.restated ofText
    simp only [hop]
  rw [hread]
  cases hj : op.isJump with
  | true =>
    rw [respelled_of_jump (q := ⟨op, arg1, arg2, dest⟩) hj]
    cases dest with
    | empty => exact absurd rfl (hjump hj)
    | operand text =>
      have hindex := hoperand text hj rfl
      simp only [Destination.text?, Destination.text, Destination.ofText, hj, hindex]
    | target n =>
      have hnumeral : (Destination.target n).text? = some (toString n) := rfl
      rw [hnumeral, ofText_numeral hj (hbound n rfl)]
    | unresolved => simp only [Destination.text?, Destination.ofText, hj]
  | false =>
    cases dest with
    | empty => simp only [Destination.text?, Destination.ofText, hj]; rfl
    | operand text => simp only [Destination.text?, Destination.text, Destination.ofText, hj]; rfl
    | target n =>
      rw [respelled_of_target (q := ⟨op, arg1, arg2, .target n⟩) hj rfl]
      simp only [Destination.text?, Destination.text, Destination.ofText, hj]
    | unresolved => exact absurd rfl (hother hj)

/-- The two spellings of a target are laid out alike. -/
theorem text_respelled (q : Quad) : q.respelled.text = q.text := by
  obtain ⟨op, arg1, arg2, dest⟩ := q
  unfold respelled
  cases dest with
  | target n =>
    simp only
    split
    · rfl
    · unfold Quad.text
      simp only [Destination.text, fieldwise, Destination.isPresent]
  | _ => rfl

theorem isUnresolved_respelled (q : Quad) : q.respelled.isUnresolved = q.isUnresolved := by
  obtain ⟨op, arg1, arg2, dest⟩ := q
  unfold respelled
  cases dest with
  | target n =>
    simp only
    split
    · rfl
    · rfl
  | _ => rfl

end Quad

namespace Builder

variable {b : Builder} {a : Action} {bound : ℕ} {start stop : ℕ} {times : ℤ}

/-! ## Targets within bounds -/

/-- No target is greater than the bound. -/
def Bounded (bound : ℕ) (b : Builder) : Prop :=
  ∀ i q t, b.quad? i = some q → q.dest = .target t → t ≤ bound

/-- **The targets after unrolling** were there before, or lie within the limit. -/
theorem target_unroll {i t : ℕ} {q : Quad} (hq : (b.unroll start stop times).state.quad? i = some q)
    (ht : q.dest = .target t) :
    (∃ p q₀, b.quad? p = some q₀ ∧ q₀.dest = .target t) ∨ t ≤ b.limit := by
  rcases lt_or_ge i b.next with hi | hi
  · rw [quad?_unroll_old hi] at hq
    exact Or.inl ⟨i, q, hq, ht⟩
  · have hend : i < b.next + b.copyCount start stop times * (stop - start) := by
      have hlength := unroll_length b start stop times
      have hbound := (bounds_of_quad? hq).2
      unfold next at hbound ⊢
      omega
    obtain ⟨p, r, h1, h2, hr1, hr2, rfl⟩ := exists_place_in_copy hi hend
    rw [quad?_place_in_copy h1 h2 hr1 hr2] at hq
    obtain ⟨q₀, hq₀, rfl⟩ := Option.map_eq_some_iff.1 hq
    rcases relocate_cases start stop (b.copyOffset start stop r) q₀ with he | ⟨t₀, -, -, -, hlt, he⟩
    · rw [he] at ht
      exact Or.inl ⟨p, q₀, hq₀, ht⟩
    · -- the target moves along with the copy, and the copy fits
      rw [he] at ht
      obtain rfl : t₀ + b.copyOffset start stop r = t := Destination.target.inj ht
      have hpos : 0 < b.copyCount start stop times := lt_of_lt_of_le hr1 hr2
      obtain ⟨-, -, -, hstop⟩ := repeats_of_copyCount_pos hpos
      have hfits := copyCount_fits hpos
      have hcopies := Nat.mul_le_mul_right (stop - start) hr2
      have hcopy : (r - 1) * (stop - start) + (stop - start) = r * (stop - start) := by
        obtain ⟨r, rfl⟩ := Nat.exists_eq_add_of_le' hr1
        rw [Nat.add_sub_cancel, Nat.succ_mul]
      right
      unfold copyOffset
      unfold next at hstop
      omega

theorem Bounded.unroll (h : b.Bounded bound) (hlimit : b.limit ≤ bound) (start stop : ℕ) (times : ℤ) :
    (b.unroll start stop times).state.Bounded bound := by
  intro i q t hq ht
  rcases target_unroll hq ht with ⟨p, q₀, hq₀, ht₀⟩ | hle
  · exact h p q₀ t hq₀ ht₀
  · exact hle.trans hlimit

theorem Bounded.emission (h : b.Bounded bound) {q : Quad} (ha : a.emitted? = some q)
    (hq : ∀ t, q.dest = .target t → t ≤ bound) : (b.perform a).state.Bounded bound := by
  by_cases hroom : b.length < b.limit
  · rw [perform_emission_of_room ha hroom, Outcome.state_ok]
    intro i q' t hq' ht
    rcases lt_or_ge i b.next with hi | hi
    · rw [quad?_append_left _ hi] at hq'
      exact h i q' t hq' ht
    · obtain ⟨j, rfl⟩ := Nat.exists_eq_add_of_le hi
      rw [quad?_append_right] at hq'
      rw [List.mem_singleton.1 (List.mem_of_getElem? hq')] at ht
      exact hq t ht
  · rw [perform_emission_of_full ha hroom]
    exact h

/-- **Every action keeps targets within bounds**, if what it emits and the target that it gives are. -/
theorem Bounded.perform (h : b.Bounded bound) (hlimit : b.limit ≤ bound)
    (hemit : ∀ q t, a.emitted? = some q → q.dest = .target t → t ≤ bound)
    (hgive : ∀ list t, a = .backpatch list t → t ≤ bound) : (b.perform a).state.Bounded bound := by
  cases a with
  | emit mnemonic arg1 arg2 dest => exact h.emission rfl fun t => hemit _ t rfl
  | emitQuad q => exact h.emission rfl fun t => hemit q t rfl
  | backpatch list target =>
    intro i q t hq ht
    have hquad := quad?_backpatch list target i b
    have hafter := hquad.symm.trans hq
    split at hafter
    · obtain ⟨q₀, -, rfl⟩ := Option.map_eq_some_iff.1 hafter
      obtain rfl : target = t := Destination.target.inj ht
      exact hgive list target rfl
    · exact h i q t hafter ht
  | unroll start stop times => exact h.unroll hlimit start stop times
  | followHint hint bodyEnd =>
    show (hint.apply b bodyEnd).state.Bounded bound
    unfold LoopHint.apply
    split
    · exact h.unroll hlimit _ _ _
    · exact h
  | reset =>
    intro i q t hq
    exact absurd hq (quad?_ne_some rfl)
  | _ => exact h

theorem Bounded.performAll {limit : ℕ} (hlimit : limit ≤ bound) (actions : List Action)
    (hemit : ∀ a ∈ actions, ∀ q t, a.emitted? = some q → q.dest = .target t → t ≤ bound)
    (hgive : ∀ list t, .backpatch list t ∈ actions → t ≤ bound) :
    ∀ {b : Builder}, b.Within limit → b.Bounded bound → (b.performAll actions).Bounded bound := by
  induction actions with
  | nil => intro b _ h; exact h
  | cons a actions ih =>
    intro b hwithin h
    have hroom : b.limit ≤ bound := hwithin.limit_eq.trans_le hlimit
    have hfirst := h.perform hroom (hemit a List.mem_cons_self)
      fun list t ha => hgive list t (ha ▸ List.mem_cons_self)
    exact ih (fun a' ha' => hemit a' (List.mem_cons_of_mem _ ha'))
      (fun list t ht => hgive list t (List.mem_cons_of_mem _ ht)) (hwithin.perform a) hfirst

/-! ## Emitting code once more -/

/-- Emits instructions, each from its texts, in order and up to the first that is refused. -/
def restate (b : Builder) : List Quad → Outcome Builder Unit
  | [] => .ok () b []
  | q :: qs =>
    (b.emit (.ofText q.op.mnemonic q.arg1 q.arg2 q.dest.text?)).andThen fun _ b => b.restate qs

/-- **Where there is room, all instructions are emitted.** -/
theorem restate_of_room (qs : List Quad) : ∀ {b : Builder}, b.length + qs.length ≤ b.limit →
    (b.restate qs).result = .ok () ∧ (b.restate qs).state = b.append (qs.map Quad.restated) := by
  induction qs with
  | nil => intro b _; exact ⟨rfl, append_nil.symm⟩
  | cons q qs ih =>
    intro b h
    rw [List.length_cons] at h
    have hrest : (b.append [q.restated]).length + qs.length ≤ (b.append [q.restated]).limit := by
      rw [length_append, limit_append, List.length_singleton]; omega
    obtain ⟨hres, hstate⟩ := ih hrest
    rw [append_append] at hstate
    rw [restate, emit_of_room (by omega), Outcome.ok_andThen, Outcome.result_after, Outcome.state_after]
    exact ⟨hres, hstate⟩

/-- Code in which every instruction is laid out as before has the same listing. -/
theorem listing_of_map {b' : Builder} {f : Quad → Quad} (h : b'.quads = b.quads.map f)
    (htext : ∀ q, (f q).text = q.text) : b'.listing = b.listing := by
  unfold listing numbered
  rw [h, List.zipIdx_map, List.map_map, List.map_map, List.map_map]
  simp only [Function.comp_def, line, Prod.map, htext, id]

theorem unresolved_of_map {b' : Builder} {f : Quad → Quad} (h : b'.quads = b.quads.map f)
    (hpending : ∀ q, (f q).isUnresolved = q.isUnresolved) : b'.unresolved = b.unresolved := by
  have hsame : Quad.isUnresolved ∘ f = Quad.isUnresolved := funext hpending
  rw [unresolved_eq, unresolved_eq, h, List.findIdxs_map, hsame]

/-! ## In every state -/

theorem legible_performAll (limit : ℕ) {actions : List Action} (h : ∀ q, .emitQuad q ∉ actions) :
    ∀ i q, ((new limit).value.performAll actions).quad? i = some q → q.Legible := by
  refine forall_performAll (fun q t hq => hq.retarget t) ?_ ?_
  · intro a ha q hq
    cases a with
    | emit mnemonic arg1 arg2 dest =>
      obtain rfl := Option.some.inj hq
      exact Quad.legible_ofText mnemonic arg1 arg2 dest
    | emitQuad q' => exact absurd ha (h q')
    | _ => cases hq
  · intro i q hq
    exact absurd hq (quad?_ne_some rfl)

theorem bounded_performAll {limit : ℕ} (hlimit : limit ≤ Text.maxIndex) {actions : List Action}
    (h : ∀ q, .emitQuad q ∉ actions) (hgive : ∀ list t, .backpatch list t ∈ actions → t ≤ Text.maxIndex) :
    ((new limit).value.performAll actions).Bounded Text.maxIndex := by
  refine Bounded.performAll hlimit actions ?_ hgive (Within.empty limit) ?_
  · intro a ha q t hq ht
    cases a with
    | emit mnemonic arg1 arg2 dest =>
      obtain rfl := Option.some.inj hq
      have hof : Destination.ofText (Operation.ofMnemonic mnemonic) dest = .target t := ht
      rcases Destination.ofText_cases (Operation.ofMnemonic mnemonic) dest with
        ⟨-, -, he⟩ | ⟨-, text, n, -, hindex, he⟩ | ⟨-, _, -, -, he⟩ | ⟨-, -, he⟩ | ⟨-, _, -, he⟩
      · cases he.symm.trans hof
      · obtain rfl : n = t := Destination.target.inj (he.symm.trans hof)
        exact Text.le_of_index? hindex
      · cases he.symm.trans hof
      · cases he.symm.trans hof
      · cases he.symm.trans hof
    | emitQuad q' => exact absurd ha (h q')
    | _ => cases hq
  · intro i q t hq
    exact absurd hq (quad?_ne_some rfl)

/-- **Code emitted once more.** Let a new builder go through any actions that emit from texts only; its
limit and the targets that are given have 64 bits. Emit its code once more into a new builder with the same
limit: for each instruction, in order, its mnemonic, its operands, and as destination nothing for an empty
or unresolved one and its text otherwise. This succeeds, and each instruction comes back at its index as it
was, except that a target of an instruction that is no jump comes back as an operand, the numeral of the
target. The listing and the unresolved jumps are the same. In particular a mnemonic always reads as the
operation that it was written for. -/
theorem restating_rebuilds (limit : ℕ) (actions : List Action) (hlimit : limit < 2 ^ 64)
    (htexts : ∀ q, .emitQuad q ∉ actions)
    (htargets : ∀ list t, .backpatch list t ∈ actions → t < 2 ^ 64) :
    let b := (new limit).value.performAll actions
    let again := (new b.limit).value.restate b.quads
    again.result = .ok () ∧
    again.state.length = b.length ∧ again.state.limit = b.limit ∧
    (∀ i q, b.quad? i = some q → ∃ q', again.state.quad? i = some q' ∧
      (∀ n, q.isJump = false → q.dest = .target n → q' = { q with dest := .operand (toString n) }) ∧
      (q.isJump = true → q' = q) ∧ ((∀ n, q.dest ≠ .target n) → q' = q)) ∧
    again.state.render.value = b.render.value ∧
    again.state.unresolved = b.unresolved ∧
    ∀ mnemonic : String,
      Operation.ofMnemonic (Operation.ofMnemonic mnemonic).mnemonic = Operation.ofMnemonic mnemonic := by
  intro b again
  have hmax : (2 : ℕ) ^ 64 = Text.maxIndex + 1 := by decide
  have hwithin : b.Within limit := Within.performAll actions (Within.empty limit)
  have hgiven : ∀ list t, .backpatch list t ∈ actions → t ≤ Text.maxIndex := by
    intro list t ht
    have hlt := htargets list t ht
    omega
  have hbounded : b.Bounded Text.maxIndex := bounded_performAll (by omega) htexts hgiven
  have hroom : (new b.limit).value.length + b.quads.length ≤ (new b.limit).value.limit := by
    have hlength := hwithin.length_le
    rw [← hwithin.limit_eq] at hlength
    show 0 + b.length ≤ b.limit
    omega
  -- what the instructions come back as
  have hmap : b.quads.map Quad.restated = b.quads.map Quad.respelled := by
    apply List.map_congr_left
    intro q hq
    obtain ⟨i, hi⟩ := exists_quad_of_mem hq
    exact (legible_performAll limit htexts i q hi).restated fun n => hbounded i q n hi
  obtain ⟨hres, hstate⟩ := restate_of_room b.quads hroom
  rw [hmap] at hstate
  have hquads : again.state.quads = b.quads.map Quad.respelled := by
    rw [hstate, quads_append]; rfl
  have hquad : ∀ i q, b.quad? i = some q → again.state.quad? i = some q.respelled := by
    intro i q hq
    have h1 := (bounds_of_quad? hq).1
    rw [quad?_eq h1] at hq ⊢
    rw [hquads, List.getElem?_map, hq]; rfl
  refine ⟨hres, ?_, ?_, ?_, listing_of_map hquads Quad.text_respelled,
    unresolved_of_map hquads Quad.isUnresolved_respelled, Operation.ofMnemonic_mnemonic⟩
  · rw [← length_quads, hquads, List.length_map, length_quads]
  · rw [hstate]; rfl
  · intro i q hq
    exact ⟨q.respelled, hquad i q hq, fun n => Quad.respelled_of_target, Quad.respelled_of_jump,
      Quad.respelled_of_ne⟩

/-- Mnemonics and destinations that are spelled oddly, an unrolling that runs out of room, and a patched
assignment: it alone comes back with another destination, and the listing is the same. -/
theorem restating_rebuilds_odd_texts :
    let actions : List Action := [.emit "IF\u2003 LTI" (some "") (some "5") (some "+007"),
      .emit "IFF" none (some "x") (some "18446744073709551616"), .emit ":=" (some "1") none (some "y"),
      .emit "IF" none none none, .unroll 1 3 2, .backpatch ⟨[3, 3, 9]⟩ 18446744073709551615]
    let b := (new 6).value.performAll actions
    let again := (new 6).value.restate b.quads
    (∀ q, .emitQuad q ∉ actions) ∧
    (∀ list t, .backpatch list t ∈ actions → t < 2 ^ 64) ∧
    b.quad? 1 = some ⟨.branch "LTI", some "", some "5", .target 7⟩ ∧
    b.quad? 3 = some ⟨.assign, some "1", none, .target 18446744073709551615⟩ ∧
    again.result = .ok () ∧ again.state.quad? 1 = b.quad? 1 ∧
    again.state.quad? 3 = some ⟨.assign, some "1", none, .operand "18446744073709551615"⟩ ∧
    again.state.render.value = b.render.value ∧ again.state.unresolved = b.unresolved := by
  intro actions b again
  have htexts : ∀ q, .emitQuad q ∉ actions := by simp [actions]
  have htargets : ∀ list t, .backpatch list t ∈ actions → t < 2 ^ 64 := by simp [actions]
  have h1 : b.quad? 1 = some ⟨.branch "LTI", some "", some "5", .target 7⟩ := by decide +kernel
  have h3 : b.quad? 3 = some ⟨.assign, some "1", none, .target 18446744073709551615⟩ := by decide +kernel
  obtain ⟨hres, -, -, hquad, hrender, hunresolved, -⟩ :=
    restating_rebuilds 6 actions (by decide) htexts htargets
  obtain ⟨q, hq, -, hsame, -⟩ := hquad 1 _ h1
  obtain ⟨q', hq', hother, -, -⟩ := hquad 3 _ h3
  refine ⟨htexts, htargets, h1, h3, hres, ?_, ?_, hrender, hunresolved⟩
  · rw [h1, ← hsame rfl]; exact hq
  · rw [hother _ rfl rfl] at hq'; exact hq'

end Builder

end ThreeAddress
