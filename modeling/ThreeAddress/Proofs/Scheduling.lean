import ThreeAddress.Proofs.History

/-!
# Patching at any time

A jump may be patched as soon as it is emitted, or much later. The result is the same as long as no
two lists share an entry.

* `Schedules`: the actions emit the given instructions in order and carry out each of the given
  patches once, when all entries of its list are emitted.
* `settled`: the instructions with the targets that the patches give them.
* `performAll_of_schedules`: **every schedule leads to these instructions.**
* `schedule_independence`: hence all schedules end in the same builder, and there is one.
-/

namespace ThreeAddress

/-- A pending list and the target that it is to be given. -/
structure Patch where
  list : PendingList
  target : ℕ
deriving DecidableEq, Repr

namespace Builder

variable {b : Builder} {a : Action} {actions : List Action} {quads : List Quad} {patches : List Patch}

/-- The patch that an action carries out. -/
def Action.patch? : Action → Option Patch
  | .backpatch list target => some ⟨list, target⟩
  | _ => none

/-- The instructions that actions are to emit, in order. -/
def emissions (actions : List Action) : List Quad := actions.filterMap Action.emitted?

/-- The actions are a **schedule** of the instructions and the patches. -/
structure Schedules (actions : List Action) (quads : List Quad) (patches : List Patch) : Prop where
  only : ∀ a ∈ actions, a.emitted?.isSome ∨ a.patch?.isSome
  emits : emissions actions = quads
  patches_once : (actions.filterMap Action.patch?).Perm patches
  ready : ∀ m list target, actions[m]? = some (.backpatch list target) →
    ∀ i ∈ list.indices, i ≤ (emissions (actions.take m)).length

/-- The target that the instruction `i` gets from the first patch that lists it. -/
def scheduled? (i : ℕ) (patches : List Patch) : Option ℕ :=
  patches.findSome? fun p => if i ∈ p.list.indices then some p.target else none

/-- The instructions, numbered from one, with the targets that the patches give them. -/
def settled (quads : List Quad) (patches : List Patch) : List Quad :=
  quads.mapIdx fun k q => q.aimed (scheduled? (k + 1) patches)

theorem emissions_append (xs ys : List Action) :
    emissions (xs ++ ys) = emissions xs ++ emissions ys := List.filterMap_append

/-! ## The targets of a family of patches -/

/-- No two of the patches share an entry. -/
def Apart (patches : List Patch) : Prop :=
  patches.Pairwise fun p p' => p.list.indices.Disjoint p'.list.indices

theorem Apart.eq (h : Apart patches) {p p' : Patch} (hp : p ∈ patches) (hp' : p' ∈ patches) {i : ℕ}
    (hi : i ∈ p.list.indices) (hi' : i ∈ p'.list.indices) : p = p' := by
  by_contra hne
  have hsymm : Std.Symm fun p p' : Patch => p.list.indices.Disjoint p'.list.indices :=
    ⟨fun _ _ hd => hd.symm⟩
  exact List.Pairwise.forall h hp hp' hne hi hi'

theorem scheduled?_eq_none {i : ℕ} (h : ∀ p ∈ patches, i ∉ p.list.indices) :
    scheduled? i patches = none := by
  unfold scheduled?
  rw [List.findSome?_eq_none_iff]
  intro p hp
  exact if_neg (h p hp)

theorem mem_of_scheduled? {i t : ℕ} (h : scheduled? i patches = some t) :
    ∃ p ∈ patches, i ∈ p.list.indices ∧ p.target = t := by
  obtain ⟨p, hp, ht⟩ := List.exists_of_findSome?_eq_some h
  rw [Option.ite_none_right_eq_some, Option.some.injEq] at ht
  exact ⟨p, hp, ht⟩

theorem scheduled?_of_mem (h : Apart patches) {p : Patch} (hp : p ∈ patches) {i : ℕ}
    (hi : i ∈ p.list.indices) : scheduled? i patches = some p.target := by
  cases hs : scheduled? i patches with
  | none =>
    have hnone := List.findSome?_eq_none_iff.1 hs p hp
    rw [if_pos hi] at hnone
    cases hnone
  | some t =>
    obtain ⟨p', hp', hi', rfl⟩ := mem_of_scheduled? hs
    rw [h.eq hp hp' hi hi']

/-! ## What a schedule does -/

theorem mem_patches (h : Schedules actions quads patches) {list : PendingList} {target : ℕ} :
    .backpatch list target ∈ actions ↔ ⟨list, target⟩ ∈ patches := by
  rw [← h.patches_once.mem_iff, List.mem_filterMap]
  constructor
  · intro hmem; exact ⟨_, hmem, rfl⟩
  · rintro ⟨a, ha, hpatch⟩
    cases a with
    | backpatch list' target' =>
      obtain ⟨rfl, rfl⟩ := Patch.mk.inj (Option.some.inj hpatch)
      exact ha
    | _ => cases hpatch

theorem Schedules.reset_not_mem (h : Schedules actions quads patches) : .reset ∉ actions := by
  intro hmem
  rcases h.only _ hmem with he | hp
  · cases he
  · cases hp

/-- **The order of the patches does not matter**: the last target of an instruction is the one that
the family of patches has for it. -/
theorem lastTarget?_of_schedules (h : Schedules actions quads patches) (hapart : Apart patches)
    (i : ℕ) : lastTarget? i actions = scheduled? i patches := by
  cases hs : lastTarget? i actions with
  | none =>
    refine (scheduled?_eq_none ?_).symm
    intro p hp
    exact lastTarget?_eq_none_iff.1 hs p.list p.target ((mem_patches h).2 hp)
  | some t =>
    obtain ⟨list, hmem, hi⟩ := exists_backpatch_of_lastTarget? hs
    exact (scheduled?_of_mem hapart ((mem_patches h).1 hmem) hi).symm

/-- Emissions for which there is room and patches leave the limit and the counters alone, and the
buffer grows by one instruction for each emission. -/
theorem performAll_frame (honly : ∀ a ∈ actions, a.emitted?.isSome ∨ a.patch?.isSome) :
    ∀ b : Builder, b.length + (emissions actions).length ≤ b.limit →
      (b.performAll actions).length = b.length + (emissions actions).length ∧
      (b.performAll actions).limit = b.limit ∧
      (b.performAll actions).temporaries = b.temporaries ∧
      (b.performAll actions).labels = b.labels := by
  induction actions with
  | nil => intro b _; exact ⟨rfl, rfl, rfl, rfl⟩
  | cons a actions ih =>
    intro b hfit
    have hrest := ih fun a' ha' => honly a' (List.mem_cons_of_mem _ ha')
    rw [performAll_cons]
    cases hq : a.emitted? with
    | some q =>
      have hem : emissions (a :: actions) = q :: emissions actions := List.filterMap_cons_some hq
      rw [hem, List.length_cons] at hfit ⊢
      have hstate : (b.perform a).state = b.append [q] := by
        rw [perform_emission_of_room hq (by omega)]; rfl
      have hlen : (b.append [q]).length = b.length + 1 := length_append b [q]
      have hlimit : (b.append [q]).limit = b.limit := rfl
      obtain ⟨h1, h2, h3, h4⟩ := hrest (b.append [q]) (by omega)
      rw [hstate]
      exact ⟨by omega, h2, h3, h4⟩
    | none =>
      have hem : emissions (a :: actions) = emissions actions := List.filterMap_cons_none hq
      have hpatch := (honly a List.mem_cons_self).resolve_left (by rw [hq]; exact Bool.false_ne_true)
      rw [hem] at hfit ⊢
      cases a with
      | backpatch list target =>
        obtain ⟨f1, f2, f3⟩ := backpatch_frame list target b
        have hlen := length_backpatch list target b
        have hstate : (b.perform (.backpatch list target)).state =
            (b.backpatch list target).value := rfl
        obtain ⟨h1, h2, h3, h4⟩ := hrest (b.backpatch list target).value (by omega)
        rw [hstate]
        exact ⟨by omega, h2.trans f1, h3.trans f2, h4.trans f3⟩
      | _ => cases hpatch

/-- The actions up to an emission, the emission, and the actions after it. -/
theorem exists_emission {k : ℕ} {q : Quad} (hq : (emissions actions)[k]? = some q) :
    ∃ before a after, actions = before ++ a :: after ∧ a.emitted? = some q ∧
      (emissions before).length = k := by
  obtain ⟨hlt, rfl⟩ := List.getElem?_eq_some_iff.1 hq
  have hsplit : emissions actions =
      (emissions actions).take k ++ (emissions actions)[k] :: (emissions actions).drop (k + 1) := by
    rw [← List.drop_eq_getElem_cons hlt, List.take_append_drop]
  obtain ⟨xs, ys, rfl, hxs, hys⟩ := List.filterMap_eq_append_iff.1 hsplit
  obtain ⟨zs, a, after, rfl, hzs, ha, -⟩ := List.filterMap_eq_cons_iff.1 hys
  refine ⟨xs ++ zs, a, after, (List.append_assoc ..).symm, ha, ?_⟩
  have hnone : emissions zs = [] := List.filterMap_eq_nil_iff.2 hzs
  have hlen := congrArg List.length hxs
  rw [List.length_take, min_eq_left hlt.le] at hlen
  rw [emissions_append, hnone, List.append_nil]
  exact hlen

/-- An instruction gets no target before it is emitted. -/
theorem lastTarget?_before {before after : List Action} (h : Schedules actions quads patches)
    (hsplit : actions = before ++ after) {i : ℕ} (hi : (emissions before).length < i) :
    lastTarget? i before = none := by
  rw [lastTarget?_eq_none_iff]
  intro list target hmem hlist
  obtain ⟨m, hm⟩ := List.mem_iff_getElem?.1 hmem
  obtain ⟨hlt, -⟩ := List.getElem?_eq_some_iff.1 hm
  have hget : actions[m]? = some (.backpatch list target) := by
    rw [hsplit, List.getElem?_append_left hlt]; exact hm
  have hready := h.ready m list target hget i hlist
  rw [hsplit, List.take_append_of_le_length hlt.le] at hready
  have hle : (emissions (before.take m)).length ≤ (emissions before).length :=
    ((List.take_sublist m before).filterMap _).length_le
  omega

theorem quad?_of_schedules (h : Schedules actions quads patches) (hapart : Apart patches)
    (hb : b.length = 0) (hfit : quads.length ≤ b.limit) {k : ℕ} {q : Quad} (hq : quads[k]? = some q) :
    (b.performAll actions).quad? (k + 1) = some (q.aimed (scheduled? (k + 1) patches)) := by
  have hreset := h.reset_not_mem
  have hk := (List.getElem?_eq_some_iff.1 hq).1
  rw [← h.emits] at hq
  obtain ⟨before, a, after, hsplit, ha, hlen⟩ := exists_emission hq
  have honly : ∀ a' ∈ before, a'.emitted?.isSome ∨ a'.patch?.isSome := by
    intro a' ha'
    exact h.only a' (by rw [hsplit]; exact List.mem_append_left _ ha')
  obtain ⟨hlength, hlimit, -, -⟩ := performAll_frame honly b (by omega)
  have hnext : (b.performAll before).next = k + 1 := by unfold next; omega
  have hafter : .reset ∉ after := by
    intro hmem
    rw [hsplit] at hreset
    exact hreset (List.mem_append_right _ (List.mem_cons_of_mem _ hmem))
  -- all patches that list the instruction come after its emission
  have htarget : lastTarget? (k + 1) after = scheduled? (k + 1) patches := by
    have hearly := lastTarget?_before h hsplit (i := k + 1) (by omega)
    rw [← lastTarget?_of_schedules h hapart, hsplit, lastTarget?_append, lastTarget?_cons, hearly,
      target?_of_emission ha, Option.or_none, Option.or_none]
  have hquad := quad?_of_emission ha (b := b.performAll before) (by omega) hafter
  rw [hnext, htarget] at hquad
  rw [hsplit, performAll_append]
  exact hquad

/-- **Every schedule leads to the settled instructions.** -/
theorem performAll_of_schedules (h : Schedules actions quads patches) (hapart : Apart patches)
    (hb : b.length = 0) (hfit : quads.length ≤ b.limit) :
    b.performAll actions = b.append (settled quads patches) := by
  have hnext : b.next = 1 := by unfold next; omega
  have hem := congrArg List.length h.emits
  obtain ⟨hlength, hlimit, htemp, hlabel⟩ := performAll_frame h.only b (by omega)
  refine ext_quad? hlimit htemp hlabel ?_
  intro i
  rcases i with _ | k
  · rfl
  have hsettled := quad?_append_right (b := b) (settled quads patches) k
  rw [hnext, Nat.add_comm 1 k] at hsettled
  rw [hsettled, settled, List.getElem?_mapIdx]
  cases hq : quads[k]? with
  | some q => exact quad?_of_schedules h hapart hb hfit hq
  | none =>
    have hk := List.getElem?_eq_none_iff.1 hq
    exact quad?_eq_none (by unfold next; omega)

theorem emissions_emitQuad (quads : List Quad) : emissions (quads.map .emitQuad) = quads := by
  unfold emissions
  rw [List.filterMap_map]; exact List.filterMap_some

/-- There is a schedule: all emissions first, then the patches. -/
theorem exists_schedule (hrange : ∀ p ∈ patches, ∀ i ∈ p.list.indices, 1 ≤ i ∧ i ≤ quads.length) :
    Schedules (quads.map .emitQuad ++ patches.map fun p => .backpatch p.list p.target) quads
      patches := by
  refine ⟨?_, ?_, ?_, ?_⟩
  · intro a ha
    rcases List.mem_append.1 ha with ha | ha
    · obtain ⟨q, -, rfl⟩ := List.mem_map.1 ha
      exact Or.inl rfl
    · obtain ⟨p, -, rfl⟩ := List.mem_map.1 ha
      exact Or.inr rfl
  · have hnone : emissions (patches.map fun p => .backpatch p.list p.target) = [] := by
      unfold emissions
      rw [List.filterMap_map]; exact List.filterMap_none _
    rw [emissions_append, emissions_emitQuad, hnone, List.append_nil]
  · have hfirst : (quads.map Action.emitQuad).filterMap Action.patch? = [] := by
      rw [List.filterMap_map]; exact List.filterMap_none _
    have hsecond : (patches.map fun p => Action.backpatch p.list p.target).filterMap Action.patch? =
        patches := by
      rw [List.filterMap_map]; exact List.filterMap_some
    rw [List.filterMap_append, hfirst, hsecond, List.nil_append]
  · intro m list target hm i hi
    rcases lt_or_ge m quads.length with hlt | hge
    · -- the first actions are emissions
      rw [List.getElem?_append_left (by rwa [List.length_map]), List.getElem?_map] at hm
      obtain ⟨q, -, hq⟩ := Option.map_eq_some_iff.1 hm
      cases hq
    · -- the others are patches, and everything is emitted before them
      rw [List.getElem?_append_right (by rwa [List.length_map]), List.getElem?_map] at hm
      obtain ⟨p, hp, heq⟩ := Option.map_eq_some_iff.1 hm
      obtain ⟨rfl, rfl⟩ := Action.backpatch.inj heq
      have hbound := (hrange p (List.mem_of_getElem? hp) i hi).2
      rw [List.take_append, List.take_of_length_le (by rwa [List.length_map]), emissions_append,
        emissions_emitQuad, List.length_append]
      omega

/-- **Patching at any time.** Let instructions fit into an empty builder, and let there be patches
whose lists name these instructions and share no entry. Then all schedules of them end in the same
builder. It holds the instructions in order; one that a patch lists has the target of that patch, and
the others are as they were emitted. -/
theorem schedule_independence (b : Builder) (hb : b.length = 0) (quads : List Quad)
    (hfit : quads.length ≤ b.limit) (patches : List Patch)
    (hapart : patches.Pairwise fun p p' => p.list.indices.Disjoint p'.list.indices)
    (hrange : ∀ p ∈ patches, ∀ i ∈ p.list.indices, 1 ≤ i ∧ i ≤ quads.length) :
    ∃ after : Builder,
      (∃ actions, Schedules actions quads patches) ∧
      (∀ actions, Schedules actions quads patches → b.performAll actions = after) ∧
      after.limit = b.limit ∧ after.temporaries = b.temporaries ∧ after.labels = b.labels ∧
      after.length = quads.length ∧
      ∀ i q, 1 ≤ i → quads[i - 1]? = some q →
        (∀ p ∈ patches, i ∈ p.list.indices →
          after.quad? i = some { q with dest := .target p.target }) ∧
        ((∀ p ∈ patches, i ∉ p.list.indices) → after.quad? i = some q) := by
  have hsome := exists_schedule hrange
  refine ⟨b.append (settled quads patches), ⟨_, hsome⟩, ?_, rfl, rfl, rfl, ?_, ?_⟩
  · intro actions h
    exact performAll_of_schedules h hapart hb hfit
  · rw [length_append, settled, List.length_mapIdx]; omega
  · intro i q h1 hq
    have hquad := quad?_of_schedules hsome hapart hb hfit hq
    rw [performAll_of_schedules hsome hapart hb hfit, Nat.sub_add_cancel h1] at hquad
    refine ⟨?_, ?_⟩
    · intro p hp hi
      rw [scheduled?_of_mem hapart hp hi] at hquad
      exact hquad
    · intro hno
      rw [scheduled?_eq_none hno] at hquad
      exact hquad

/-- Three jumps. The first two are patched before the third is emitted, by a list that names one of
them twice. -/
theorem schedule_independence_early :
    let quads : List Quad := [.goto none, .branch "LTI" "x" "5", .goto (some 9)]
    let patches : List Patch := [⟨⟨[3]⟩, 1⟩, ⟨⟨[]⟩, 7⟩, ⟨⟨[2, 1, 2]⟩, 3⟩]
    let early : List Action := [.emitQuad (.goto none), .emit "IF LTI" (some "x") (some "5") none,
      .backpatch ⟨[2, 1, 2]⟩ 3, .emit "GOTO" none none (some "9"), .backpatch ⟨[3]⟩ 1,
      .backpatch ⟨[]⟩ 7]
    Schedules early quads patches ∧
    ∀ actions, Schedules actions quads patches →
      (empty 3).performAll actions = (empty 3).performAll early ∧
      ((empty 3).performAll actions).quad? 2 = some ((Quad.branch "LTI" "x" "5").retarget 3) := by
  intro quads patches early
  have hearly : Schedules early quads patches := by
    refine ⟨by decide, by decide, by decide, ?_⟩
    have hready : ∀ m < 6, ∀ p ∈ early[m]?.bind Action.patch?,
        ∀ i ∈ p.list.indices, i ≤ (emissions (early.take m)).length := by decide
    intro m list target hm
    have hlt := (List.getElem?_eq_some_iff.1 hm).1
    exact hready m hlt ⟨list, target⟩ (by rw [hm]; rfl)
  have hapart : patches.Pairwise fun p p' => p.list.indices.Disjoint p'.list.indices := by
    simp [patches]
  obtain ⟨after, -, hall, -, -, -, -, hquad⟩ := schedule_independence (empty 3) rfl quads (by decide)
    patches hapart (by decide)
  obtain ⟨htwo, -⟩ := hquad 2 (.branch "LTI" "x" "5") (by decide) rfl
  refine ⟨hearly, ?_⟩
  intro actions h
  rw [hall actions h, hall early hearly]
  exact ⟨rfl, htwo ⟨⟨[2, 1, 2]⟩, 3⟩ (by decide) (by decide)⟩

end Builder

end ThreeAddress
