import ThreeAddress.Attribute
import ThreeAddress.Builder.Listing
import ThreeAddress.Proofs.Backpatching
import ThreeAddress.Proofs.Execution
import ThreeAddress.Proofs.Unrolling

/-!
# Actions on a builder

A parser works on a builder in an order that the grammar dictates: it emits, patches, unrolls, asks
for names and for listings (`Action`, `perform`). An action that fails leaves a builder behind as
well, and the next action goes on from there (`performAll`).

* `perform_cases`: **everything that an action can do to a builder.** It appends instructions that
  fit, or counts a name, or patches, or resets.
* `forall_perform`, `forall_performAll`: what holds of all instructions is kept by actions.
* `builder_step`: a line of a script does to the builder what at most one action does.
-/

namespace ThreeAddress

/-- The outcome with its result put into another form. -/
def Outcome.map {σ α β : Type} (f : α → β) (o : Outcome σ α) : Outcome σ β :=
  ⟨o.result.map f, o.state, o.log⟩

namespace Builder

/-- A question about a builder. -/
inductive Query where
  | length
  | isEmpty
  | next
  | limit
  | quad (index : ℕ)
  | numbered
  | unresolved
deriving DecidableEq, Repr

/-- Something that is done with a builder. -/
inductive Action where
  /-- Emit the instruction that is written with these texts. -/
  | emit (mnemonic : String) (arg1 arg2 dest : Option String)
  | emitQuad (q : Quad)
  | backpatch (list : PendingList) (target : ℕ)
  | unroll (start stop : ℕ) (times : ℤ)
  /-- Follow a hint for a loop that ends before `bodyEnd`. -/
  | followHint (hint : LoopHint) (bodyEnd : ℕ)
  | temporary
  | label
  | render
  /-- Write the listing to a sink that takes `room` bytes. -/
  | write (room : ℕ)
  | ask (query : Query)
  | reset
deriving DecidableEq, Repr

/-- What comes back from an action that succeeds. -/
inductive Answer where
  | done
  /-- The index of the instruction that was emitted. -/
  | index (n : ℕ)
  | name (text : String)
  | listing (text : String)
  | number (n : ℕ)
  | truth (holds : Bool)
  | quad (q : Option Quad)
  | quads (quads : List (ℕ × Quad))
  | indices (indices : List ℕ)
deriving DecidableEq, Repr

/-- The answer to a question. -/
def answer (b : Builder) : Query → Answer
  | .length => .number b.length
  | .isEmpty => .truth b.isEmpty
  | .next => .number b.next
  | .limit => .number b.limit
  | .quad index => .quad (b.quad? index)
  | .numbered => .quads b.numbered
  | .unresolved => .indices b.unresolved

/-- **Performing an action.** -/
def perform (b : Builder) : Action → Outcome Builder Answer
  | .emit mnemonic arg1 arg2 dest => (b.emit (.ofText mnemonic arg1 arg2 dest)).map .index
  | .emitQuad q => (b.emit q).map .index
  | .backpatch list target =>
    let patched := b.backpatch list target
    .ok .done patched.value patched.log
  | .unroll start stop times => (b.unroll start stop times).map fun _ => .done
  | .followHint hint bodyEnd => (hint.apply b bodyEnd).map fun _ => .done
  | .temporary =>
    let fresh := b.freshTemporary
    .ok (.name fresh.value.1) fresh.value.2 fresh.log
  | .label =>
    let fresh := b.freshLabel
    .ok (.name fresh.value.1) fresh.value.2 fresh.log
  | .render => .ok (.listing b.render.value) b b.render.log
  | .write room => ((b.writeTo (.ofRoom room)).map fun _ => .done).within fun _ => b
  | .ask query => .ok (b.answer query) b []
  | .reset => .ok .done b.reset.value b.reset.log

/-- The builder after actions, whether they fail or not. -/
def performAll (b : Builder) (actions : List Action) : Builder :=
  actions.foldl (fun b action => (b.perform action).state) b

namespace Action

/-- The instruction that an action is to emit. -/
def emitted? : Action → Option Quad
  | emit mnemonic arg1 arg2 dest => some (.ofText mnemonic arg1 arg2 dest)
  | emitQuad q => some q
  | _ => none

/-- The target that an action gives to the instruction `i`. -/
def target? (i : ℕ) : Action → Option ℕ
  | backpatch list target => if i ∈ list.indices then some target else none
  | _ => none

end Action

variable {b : Builder} {a : Action} {q : Quad}

theorem performAll_cons (b : Builder) (a : Action) (actions : List Action) :
    b.performAll (a :: actions) = (b.perform a).state.performAll actions := rfl

theorem performAll_append (b : Builder) (xs ys : List Action) :
    b.performAll (xs ++ ys) = (b.performAll xs).performAll ys := List.foldl_append

/-! ## What an action does -/

theorem perform_emission (h : a.emitted? = some q) : b.perform a = (b.emit q).map .index := by
  cases a with
  | emit mnemonic arg1 arg2 dest => obtain rfl := Option.some.inj h; rfl
  | emitQuad q' => obtain rfl := Option.some.inj h; rfl
  | _ => cases h

theorem perform_emission_of_room (h : a.emitted? = some q) (hroom : b.length < b.limit) :
    b.perform a = .ok (.index b.next) (b.append [q]) [.emitted b.next q] := by
  rw [perform_emission h, emit_of_room hroom]; rfl

theorem perform_emission_of_full (h : a.emitted? = some q) (hfull : ¬ b.length < b.limit) :
    b.perform a = .fail (.capacityExceeded b.limit) b [.noRoom b.length 1 b.limit] := by
  rw [perform_emission h, emit_of_full hfull]; rfl

/-- What an action may append: instructions that fit, each the one to emit or a relocated copy of
one that is there. An action that appends gives no instruction a target. -/
structure Appended (b : Builder) (a : Action) (qs : List Quad) : Prop where
  fits : qs = [] ∨ b.length + qs.length ≤ b.limit
  origin : ∀ q ∈ qs, a.emitted? = some q ∨
    ∃ i q₀ start stop offset, b.quad? i = some q₀ ∧ q = q₀.relocate start stop offset
  silent : ∀ i, a.target? i = none

theorem Appended.nil (h : ∀ i, a.target? i = none) : b.Appended a [] :=
  ⟨Or.inl rfl, fun _ hq => absurd hq List.not_mem_nil, h⟩

theorem target?_of_emission (h : a.emitted? = some q) (i : ℕ) : a.target? i = none := by
  cases a with
  | backpatch list target => cases h
  | _ => rfl

theorem Appended.emission (h : a.emitted? = some q) (hroom : b.length < b.limit) :
    b.Appended a [q] := by
  refine ⟨Or.inr hroom, ?_, target?_of_emission h⟩
  intro q' hq'
  rw [List.mem_singleton.1 hq']; exact Or.inl h

theorem Appended.copies (h : ∀ i, a.target? i = none) (start stop : ℕ) (times : ℤ) :
    b.Appended a
      (copies start stop (b.range start stop) (b.copyCount start stop times) b.next) := by
  refine ⟨?_, ?_, h⟩
  · rcases Nat.eq_zero_or_pos (b.copyCount start stop times) with h0 | hpos
    · rw [h0]; exact Or.inl rfl
    · have hrep := repeats_of_copyCount_pos hpos
      rw [length_copies, length_range hrep.2.1 hrep.2.2.2]
      exact Or.inr (copyCount_fits hpos)
  · intro q hq
    obtain ⟨q₀, hq₀, offset, rfl⟩ := mem_copies _ _ hq
    obtain ⟨i, hi⟩ := exists_quad_of_mem_range hq₀
    exact Or.inr ⟨i, q₀, start, stop, offset, hi, rfl⟩

/-- **Everything that an action can do to a builder**, also when it fails. -/
theorem perform_cases (b : Builder) (a : Action) :
    (∃ qs, b.Appended a qs ∧ (b.perform a).state = b.append qs) ∨
    (a = .temporary ∧ (b.perform a).state = { b with temporaries := b.temporaries + 1 }) ∨
    (a = .label ∧ (b.perform a).state = { b with labels := b.labels + 1 }) ∨
    (∃ list target, a = .backpatch list target ∧
      (b.perform a).state = (b.backpatch list target).value) ∨
    (a = .reset ∧ (b.perform a).state = .empty b.limit) := by
  have hread : (∀ i, a.target? i = none) → (b.perform a).state = b →
      ∃ qs, b.Appended a qs ∧ (b.perform a).state = b.append qs :=
    fun h hs => ⟨[], .nil h, hs.trans append_nil.symm⟩
  have hemission : ∀ q, a.emitted? = some q →
      ∃ qs, b.Appended a qs ∧ (b.perform a).state = b.append qs := by
    intro q hq
    by_cases hroom : b.length < b.limit
    · exact ⟨[q], .emission hq hroom, by rw [perform_emission_of_room hq hroom]; rfl⟩
    · exact hread (target?_of_emission hq) (by rw [perform_emission_of_full hq hroom]; rfl)
  cases a with
  | emit mnemonic arg1 arg2 dest => exact Or.inl (hemission _ rfl)
  | emitQuad q => exact Or.inl (hemission q rfl)
  | backpatch list target => exact Or.inr (Or.inr (Or.inr (Or.inl ⟨list, target, rfl, rfl⟩)))
  | unroll start stop times =>
    exact Or.inl ⟨_, .copies (fun _ => rfl) start stop times, unroll_state b start stop times⟩
  | followHint hint bodyEnd =>
    cases he : hint.eligible with
    | true =>
      refine Or.inl ⟨_, .copies (fun _ => rfl) hint.bodyStart bodyEnd hint.times, ?_⟩
      simp only [perform, Outcome.map, LoopHint.apply, he, if_true]
      exact unroll_state b hint.bodyStart bodyEnd hint.times
    | false =>
      refine Or.inl (hread (fun _ => rfl) ?_)
      simp only [perform, Outcome.map, LoopHint.apply, he]
      rfl
  | temporary => exact Or.inr (Or.inl ⟨rfl, rfl⟩)
  | label => exact Or.inr (Or.inr (Or.inl ⟨rfl, rfl⟩))
  | render => exact Or.inl (hread (fun _ => rfl) rfl)
  | write room => exact Or.inl (hread (fun _ => rfl) rfl)
  | ask query => exact Or.inl (hread (fun _ => rfl) rfl)
  | reset => exact Or.inr (Or.inr (Or.inr (Or.inr ⟨rfl, rfl⟩)))

/-- **What holds of all instructions**, whatever their targets are, holds of them after an action, if it
holds of the one that the action is to emit. -/
theorem forall_perform {P : Quad → Prop} (hretarget : ∀ q t, P q → P (q.retarget t))
    (h : ∀ i q, b.quad? i = some q → P q) (ha : ∀ q, a.emitted? = some q → P q) :
    ∀ i q, (b.perform a).state.quad? i = some q → P q := by
  intro i q hq
  rcases perform_cases b a with ⟨qs, happ, hs⟩ | ⟨rfl, hs⟩ | ⟨rfl, hs⟩ | ⟨list, target, rfl, hs⟩ |
    ⟨rfl, hs⟩
  · rw [hs] at hq
    rcases lt_or_ge i b.next with hi | hi
    · rw [quad?_append_left qs hi] at hq
      exact h i q hq
    · -- the appended instructions are emitted, or copies of old ones
      obtain ⟨j, rfl⟩ := Nat.exists_eq_add_of_le hi
      rw [quad?_append_right] at hq
      rcases happ.origin q (List.mem_of_getElem? hq) with he | ⟨i₀, q₀, start, stop, offset, hq₀, rfl⟩
      · exact ha q he
      · have hold := h i₀ q₀ hq₀
        rcases relocate_cases start stop offset q₀ with he | ⟨t, -, -, -, -, he⟩
        · rw [he]; exact hold
        · rw [he]; exact hretarget q₀ _ hold
  · rw [hs] at hq; exact h i q hq
  · rw [hs] at hq; exact h i q hq
  · rw [hs, quad?_backpatch] at hq
    split at hq
    · obtain ⟨q₀, hq₀, rfl⟩ := Option.map_eq_some_iff.1 hq
      exact hretarget q₀ target (h i q₀ hq₀)
    · exact h i q hq
  · rw [hs] at hq
    exact absurd hq (quad?_ne_some rfl)

/-- The same after any number of actions. -/
theorem forall_performAll {P : Quad → Prop} (hretarget : ∀ q t, P q → P (q.retarget t))
    {actions : List Action} (ha : ∀ a ∈ actions, ∀ q, a.emitted? = some q → P q) :
    ∀ {b : Builder}, (∀ i q, b.quad? i = some q → P q) →
      ∀ i q, (b.performAll actions).quad? i = some q → P q := by
  induction actions with
  | nil => intro b h; exact h
  | cons a actions ih =>
    intro b h
    have hfirst := forall_perform hretarget h (ha a List.mem_cons_self)
    exact ih (fun a' ha' => ha a' (List.mem_cons_of_mem _ ha')) hfirst

end Builder

/-! ## Scripts as actions -/

namespace Script.Replay

open Builder (Action)

variable {r : Replay}

/-- The action on the builder that a command comes to. Merging acts on the lists alone, and so does
patching a list that is not there. -/
def action? (r : Replay) : Command → Option Action
  | .emit mnemonic arg1 arg2 dest _ => some (.emit mnemonic arg1 arg2 dest)
  | .temporary => some .temporary
  | .label => some .label
  | .merge _ _ => none
  | .patch name target => (r.lists.get? name).map fun list => .backpatch list (r.resolve target)
  | .unroll start stop times => some (.unroll start (r.resolve stop) times)
  | .reset => some .reset

/-- The action on the builder that a line comes to. -/
def lineAction? (r : Replay) (text : List Char) : Option Action :=
  (Command.ofLine? text).bind r.action?

theorem action?_advance (c : Command) : r.advance.action? c = r.action? c := by
  cases c with
  | patch name target => cases target <;> rfl
  | unroll start stop times => cases stop <;> rfl
  | _ => rfl

/-- A command emits the instruction that is written with its texts, if it emits any. -/
theorem emission_of_action? {c : Command} {a : Action} (ha : r.action? c = some a) {q : Quad}
    (hq : a.emitted? = some q) : ∃ mnemonic arg1 arg2 dest list,
      c = .emit mnemonic arg1 arg2 dest list ∧ q = .ofText mnemonic arg1 arg2 dest := by
  cases c with
  | emit mnemonic arg1 arg2 dest list =>
    obtain rfl := Option.some.inj ha
    obtain rfl := Option.some.inj hq
    exact ⟨mnemonic, arg1, arg2, dest, list, rfl, rfl⟩
  | patch name target =>
    obtain ⟨list, -, rfl⟩ := Option.map_eq_some_iff.1 ha
    cases hq
  | merge into source => cases ha
  | _ => obtain rfl := Option.some.inj ha; cases hq

theorem builder_perform (r : Replay) (c : Command) :
    (r.perform c).state.builder = r.builder.performAll (r.action? c).toList := by
  cases c with
  | emit mnemonic arg1 arg2 dest list =>
    have hemitted : (Action.emit mnemonic arg1 arg2 dest).emitted? =
        some (.ofText mnemonic arg1 arg2 dest) := rfl
    show _ = (r.builder.perform (.emit mnemonic arg1 arg2 dest)).state
    by_cases hroom : r.builder.length < r.builder.limit
    · rw [perform_emit_of_room hroom, Builder.perform_emission_of_room hemitted hroom]
      cases list <;> rfl
    · rw [perform_emit_of_full hroom, Builder.perform_emission_of_full hemitted hroom]
      rfl
  | temporary => rfl
  | label => rfl
  | merge into source => rfl
  | patch name target =>
    cases hget : r.lists.get? name with
    | none =>
      rw [perform_patch_of_none hget]
      simp only [action?, hget]; rfl
    | some list =>
      rw [perform_patch_of_some hget]
      simp only [action?, hget]; rfl
  | unroll start stop times => rfl
  | reset => rfl

/-- **A line does to the builder what at most one action does.** -/
theorem builder_step (r : Replay) (text : List Char) :
    (r.step text).state.builder = r.builder.performAll (r.lineAction? text).toList := by
  unfold lineAction?
  rcases step_cases r text with ⟨hc, hs⟩ | ⟨_, _, _, hc, hs⟩ | ⟨_, _, c, hc, hs⟩
  · rw [hc, hs]; rfl
  · rw [hc, hs]; rfl
  · have hp := builder_perform r.advance c
    rw [action?_advance] at hp
    rw [hc, hs, Outcome.state_after]; exact hp

end Script.Replay

end ThreeAddress
