import ThreeAddress.Proofs.Actions

/-!
# Names for temporaries and labels

A builder numbers the names that it hands out, temporaries and labels each for themselves. Nothing but
asking for a name moves a counter on, and only a reset sets it back.

* `Text.ofDigitChars_padded`: **a padded numeral keeps its value**, however wide it is.
* `NameKind`: the two kinds of names, with the action that asks for one and the counter behind it.
* `issued_perform`: what an action does to the counters; `answersTo_eq`: what a run answers.
* `names_perm`: the names of a run are the numbered names, each once.
* `names_never_collide`: **the names of a compilation unit** in order, and that no two are equal.
-/

namespace ThreeAddress

namespace Text

theorem ofDigitChars_zeros (k : ℕ) : Nat.ofDigitChars 10 (List.replicate k '0') 0 = 0 := by
  induction k with
  | zero => rfl
  | succ k ih => rw [List.replicate_succ, Nat.ofDigitChars_cons]; exact ih

/-- **A padded numeral keeps its value.** -/
theorem ofDigitChars_padded (width n : ℕ) : Nat.ofDigitChars 10 (padded '0' width n).toList 0 = n := by
  unfold padded List.leftpad
  rw [String.toList_ofList, Nat.ofDigitChars_append, ofDigitChars_zeros, Nat.ofDigitChars_ten_toDigits]

/-- At least two digits: a numeral of one digit gets a zero in front. -/
theorem padded_two (n : ℕ) : padded '0' 2 n = (if n < 10 then "0" else "") ++ toString n := by
  have hpos := List.length_pos_of_ne_nil (Nat.toDigits_ne_nil (b := 10) (n := n))
  have hone : (Nat.toDigits 10 n).length ≤ 1 ↔ n < 10 :=
    Nat.length_toDigits_le_iff (by decide) (by decide)
  unfold padded List.leftpad
  rw [Nat.toString_eq_ofList_toDigits]
  by_cases h : n < 10
  · have hlength : (Nat.toDigits 10 n).length = 1 := le_antisymm (hone.2 h) hpos
    rw [if_pos h, hlength, String.ofList_append]; rfl
  · have hzero : 2 - (Nat.toDigits 10 n).length = 0 := by omega
    rw [if_neg h, hzero, String.ofList_append]; rfl

end Text

namespace Builder

/-! ## The two kinds of names -/

theorem numberedName_inj {stem : String} {n m : ℕ} (h : numberedName stem n = numberedName stem m) :
    n = m := by
  have hnumeral : Text.padded '0' 2 n = Text.padded '0' 2 m := (String.append_right_inj stem).1 h
  rw [← Text.ofDigitChars_padded 2 n, hnumeral, Text.ofDigitChars_padded]

/-- What a name can be for. -/
inductive NameKind where
  | temporary
  | label
deriving DecidableEq, Repr

namespace NameKind

/-- What all names of the kind start with. -/
def stem : NameKind → String
  | temporary => "$t"
  | label => "L"

/-- The action that asks for a name of the kind. -/
def action : NameKind → Action
  | temporary => .temporary
  | label => .label

/-- How many names of the kind a builder has handed out since it was reset. -/
def issued (b : Builder) : NameKind → ℕ
  | temporary => b.temporaries
  | label => b.labels

/-- The name of the kind with a number. -/
def name (kind : NameKind) (n : ℕ) : String := numberedName kind.stem n

theorem name_inj {kind kind' : NameKind} {n m : ℕ} (h : kind.name n = kind'.name m) :
    kind = kind' ∧ n = m := by
  have hkind : kind = kind' := by
    -- the first characters differ
    have hhead := congrArg (fun s : String => s.toList.head?) h
    cases kind <;> cases kind' <;> simp [name, numberedName, stem] at hhead ⊢
  subst hkind
  exact ⟨rfl, numberedName_inj h⟩

end NameKind

variable {b : Builder} {a : Action} {unit : List Action}

theorem perform_name (b : Builder) (kind : NameKind) :
    (b.perform kind.action).result = .ok (.name (kind.name (kind.issued b + 1))) := by
  cases kind <;> rfl

/-- **An action moves a counter on** exactly if it asks for a name of that kind. -/
theorem issued_perform (kind : NameKind) (ha : a ≠ .reset) :
    kind.issued (b.perform a).state = kind.issued b + if a = kind.action then 1 else 0 := by
  by_cases hask : a = kind.action
  · subst hask
    rw [if_pos rfl]
    cases kind <;> rfl
  · rw [if_neg hask, Nat.add_zero]
    rcases perform_cases b a with ⟨qs, -, hs⟩ | ⟨rfl, hs⟩ | ⟨rfl, hs⟩ | ⟨list, target, rfl, hs⟩ |
      ⟨rfl, -⟩
    · rw [hs]; cases kind <;> rfl
    · cases kind with
      | temporary => exact absurd rfl hask
      | label => rw [hs]; rfl
    · cases kind with
      | temporary => rw [hs]; rfl
      | label => exact absurd rfl hask
    · obtain ⟨-, htemp, hlabel⟩ := backpatch_frame list target b
      rw [hs]
      cases kind with
      | temporary => exact htemp
      | label => exact hlabel
    · exact absurd rfl ha

/-! ## Runs and their answers -/

/-- The actions of a run, each with its result. -/
def transcript (b : Builder) : List Action → List (Action × Except Error Answer)
  | [] => []
  | a :: actions => (a, (b.perform a).result) :: (b.perform a).state.transcript actions

/-- The results that one kind of action had in a run, in order. -/
def answersTo (b : Builder) (a : Action) (actions : List Action) : List (Except Error Answer) :=
  ((b.transcript actions).filter fun p => p.1 = a).map Prod.snd

/-- The name that a result hands out. -/
def named? : Except Error Answer → Option String
  | .ok (.name text) => some text
  | _ => none

/-- All names that a run hands out, in order. -/
def names (b : Builder) (actions : List Action) : List String :=
  (b.transcript actions).filterMap fun p => named? p.2

theorem answersTo_cons (b : Builder) (a a' : Action) (actions : List Action) :
    b.answersTo a (a' :: actions) = (if a' = a then [(b.perform a').result] else []) ++
      (b.perform a').state.answersTo a actions := by
  unfold answersTo
  rw [transcript, List.filter_cons]
  by_cases h : a' = a
  · simp [h]
  · simp [h]

theorem names_cons (b : Builder) (a : Action) (actions : List Action) :
    b.names (a :: actions) =
      (named? (b.perform a).result).toList ++ (b.perform a).state.names actions := by
  unfold names
  rw [transcript, List.filterMap_cons]
  cases named? (b.perform a).result <;> rfl

theorem named?_map {σ α : Type} (o : Outcome σ α) {f : α → Answer}
    (hf : ∀ x, named? (.ok (f x)) = none) : named? (o.map f).result = none := by
  obtain ⟨result, state, log⟩ := o
  cases result with
  | error e => rfl
  | ok x => exact hf x

/-- Only who asks for a name is handed one. -/
theorem named?_perform (h : ∀ kind : NameKind, a ≠ kind.action) :
    named? (b.perform a).result = none := by
  cases a with
  | emit mnemonic arg1 arg2 dest => exact named?_map _ fun _ => rfl
  | emitQuad q => exact named?_map _ fun _ => rfl
  | unroll start stop times => exact named?_map _ fun _ => rfl
  | followHint hint bodyEnd => exact named?_map _ fun _ => rfl
  | write room => exact named?_map (b.writeTo (.ofRoom room)) fun _ => rfl
  | ask query => cases query <;> rfl
  | temporary => exact absurd rfl (h .temporary)
  | label => exact absurd rfl (h .label)
  | backpatch list target => rfl
  | render => rfl
  | reset => rfl

/-- The consecutive names of one kind that a run asks for. -/
def namesOf (b : Builder) (unit : List Action) (kind : NameKind) : List String :=
  (List.range' (kind.issued b + 1) (unit.count kind.action)).map kind.name

theorem namesOf_cons (kind : NameKind) (ha : a ≠ .reset) :
    b.namesOf (a :: unit) kind = (if a = kind.action then [kind.name (kind.issued b + 1)] else []) ++
      (b.perform a).state.namesOf unit kind := by
  have hissued := issued_perform (b := b) kind ha
  unfold namesOf
  rw [hissued, List.count_cons]
  by_cases hask : a = kind.action
  · rw [if_pos hask, if_pos hask, if_pos (by simpa using hask), List.range'_succ, List.map_cons]
    rfl
  · rw [if_neg hask, if_neg hask, if_neg (by simpa using hask)]
    rfl

/-- **The answers of a run** to one kind of request are consecutive names. -/
theorem answersTo_eq (kind : NameKind) (h : .reset ∉ unit) : ∀ b : Builder,
    b.answersTo kind.action unit = (b.namesOf unit kind).map fun text => .ok (.name text) := by
  induction unit with
  | nil => intro b; rfl
  | cons a unit ih =>
    intro b
    obtain ⟨ha, hrest⟩ := not_or.1 (mt List.mem_cons.2 h)
    rw [answersTo_cons, ih hrest, namesOf_cons kind (Ne.symm ha), List.map_append]
    by_cases hask : a = kind.action
    · subst hask
      rw [if_pos rfl, if_pos rfl, perform_name]
      rfl
    · rw [if_neg hask, if_neg hask]
      rfl

/-- **The names of a run** are those of both kinds, in the order in which they were asked for. -/
theorem names_perm (h : .reset ∉ unit) : ∀ b : Builder,
    (b.names unit).Perm (b.namesOf unit .temporary ++ b.namesOf unit .label) := by
  induction unit with
  | nil => intro b; exact .nil
  | cons a unit ih =>
    intro b
    obtain ⟨ha, hrest⟩ := not_or.1 (mt List.mem_cons.2 h)
    have htail := ih hrest (b.perform a).state
    rw [names_cons, namesOf_cons .temporary (Ne.symm ha), namesOf_cons .label (Ne.symm ha)]
    by_cases ht : a = NameKind.temporary.action
    · subst ht
      exact htail.cons _
    by_cases hl : a = NameKind.label.action
    · subst hl
      -- the new label goes past the temporaries to the head of the labels
      exact (htail.cons _).trans List.perm_middle.symm
    · have hnone : named? (b.perform a).result = none := by
        apply named?_perform
        intro kind
        cases kind with
        | temporary => exact ht
        | label => exact hl
      rw [hnone, if_neg ht, if_neg hl]
      exact htail

theorem nodup_namesOf (kind : NameKind) : (b.namesOf unit kind).Nodup := by
  refine List.Nodup.map ?_ List.nodup_range'
  intro n m h
  exact (NameKind.name_inj h).2

/-- No two names of a run are equal. -/
theorem nodup_names (h : .reset ∉ unit) : (b.names unit).Nodup := by
  rw [(names_perm h b).nodup_iff]
  refine (nodup_namesOf .temporary).append (nodup_namesOf .label) ?_
  intro text ht hl
  obtain ⟨n, -, rfl⟩ := List.mem_map.1 ht
  obtain ⟨m, -, heq⟩ := List.mem_map.1 hl
  exact absurd (NameKind.name_inj heq).1 (by decide)

theorem issued_performAll (kind : NameKind) (h : .reset ∉ unit) : ∀ b : Builder,
    kind.issued (b.performAll unit) = kind.issued b + unit.count kind.action := by
  induction unit with
  | nil => intro b; rfl
  | cons a unit ih =>
    intro b
    obtain ⟨ha, hrest⟩ := not_or.1 (mt List.mem_cons.2 h)
    have hissued := issued_perform (b := b) kind (Ne.symm ha)
    rw [performAll_cons, ih hrest, hissued, List.count_cons]
    by_cases hask : a = kind.action
    · rw [if_pos hask, if_pos (by simpa using hask)]; omega
    · rw [if_neg hask, if_neg (by simpa using hask)]; omega

/-- At the start, and right after a reset, no name has been handed out. -/
theorem issued_of_reset (limit : ℕ) {before : List Action}
    (h : before = [] ∨ before.getLast? = some .reset) (kind : NameKind) :
    kind.issued ((new limit).value.performAll before) = 0 := by
  rcases h with rfl | h
  · cases kind <;> rfl
  · obtain ⟨init, rfl⟩ := List.getLast?_eq_some_iff.1 h
    rw [performAll_append]
    cases kind <;> rfl

/-- **Names never collide.** Let a builder be new or just reset, and let actions without a reset follow,
in any order and whether they succeed or fail, with fewer than `2 ^ 32 - 1` requests for temporaries and
for labels each. Then the requests for temporaries are answered `$t01`, `$t02` and so on, those for
labels `L01`, `L02` and so on, with as many digits as the number needs and two at least. No name is
handed out twice, and the number of the next name fits in 32 bits. -/
theorem names_never_collide (limit : ℕ) (before unit : List Action)
    (hbefore : before = [] ∨ before.getLast? = some .reset) (hunit : .reset ∉ unit)
    (ht : unit.count .temporary < 2 ^ 32 - 1) (hl : unit.count .label < 2 ^ 32 - 1) :
    let b := (new limit).value.performAll before
    let after := b.performAll unit
    b.answersTo .temporary unit = (List.range' 1 (unit.count .temporary)).map (fun n =>
      .ok (.name ("$t" ++ ((if n < 10 then "0" else "") ++ toString n)))) ∧
    b.answersTo .label unit = (List.range' 1 (unit.count .label)).map (fun n =>
      .ok (.name ("L" ++ ((if n < 10 then "0" else "") ++ toString n)))) ∧
    (b.names unit).Nodup ∧
    after.temporaries + 1 < 2 ^ 32 ∧ after.labels + 1 < 2 ^ 32 := by
  intro b after
  have hfresh : ∀ kind : NameKind, kind.issued b = 0 := issued_of_reset limit hbefore
  have hname : ∀ (kind : NameKind) n,
      kind.name n = kind.stem ++ ((if n < 10 then "0" else "") ++ toString n) := by
    intro kind n
    rw [← Text.padded_two]; rfl
  have hanswers : ∀ kind : NameKind, b.answersTo kind.action unit =
      (List.range' 1 (unit.count kind.action)).map fun n =>
        .ok (.name (kind.stem ++ ((if n < 10 then "0" else "") ++ toString n))) := by
    intro kind
    rw [answersTo_eq kind hunit, namesOf, hfresh kind, List.map_map]
    simp only [Function.comp_def, hname]
  have htemp : after.temporaries = b.temporaries + unit.count .temporary :=
    issued_performAll .temporary hunit b
  have hlabel : after.labels = b.labels + unit.count .label := issued_performAll .label hunit b
  have htemp0 : b.temporaries = 0 := hfresh .temporary
  have hlabel0 : b.labels = 0 := hfresh .label
  exact ⟨hanswers .temporary, hanswers .label, nodup_names hunit, by omega, by omega⟩

/-- After a reset the numbers start again. An emission and an unrolling that fail, a patch that runs
past the buffer and a listing in between do not disturb them, and the tenth name has no zero in front. -/
theorem names_never_collide_after_reset :
    let before : List Action := [.temporary, .label, .label, .reset]
    let unit : List Action := [.emitQuad (.goto none), .temporary, .emit "HALT" none none none, .label,
      .backpatch ⟨[1, 7]⟩ 1, .unroll 1 2 3, .render] ++ List.replicate 9 .temporary
    let b := (new 1).value.performAll before
    before.getLast? = some .reset ∧ .reset ∉ unit ∧ unit.count .temporary = 10 ∧
    (b.answersTo .temporary unit)[9]? = some (.ok (.name "$t10")) ∧
    b.answersTo .label unit = [.ok (.name "L01")] ∧ (b.names unit).Nodup := by
  intro before unit b
  have hbefore : before.getLast? = some .reset := by decide
  have hunit : .reset ∉ unit := by decide
  have ht : unit.count .temporary = 10 := by decide
  have hl : unit.count .label = 1 := by decide
  obtain ⟨htemp, hlabel, hnodup, -⟩ :=
    names_never_collide 1 before unit (Or.inr hbefore) hunit (by rw [ht]; decide) (by rw [hl]; decide)
  rw [ht] at htemp
  rw [hl] at hlabel
  refine ⟨hbefore, hunit, ht, ?_, hlabel, hnodup⟩
  rw [htemp]
  rfl

end Builder

end ThreeAddress
