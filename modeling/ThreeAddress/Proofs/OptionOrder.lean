import ThreeAddress.CommandLine.Directory
import ThreeAddress.Proofs.Arguments

/-!
# The order of options

The scan sees the groups of the arguments only option by option: which groups there are for it, and which of
them is the last. So groups for different options can change places.

* `groups_flatMap_words`, `flatMap_words_groups`: arguments **split into groups in one way**.
* `Accepted`: what lets a scan reach the end of the groups, said without their order across options.
* `accepted_append`, `exists_foldlM_take_iff`: a scan reaches the end **exactly if** its groups are accepted.
* `Accepted.reorder`, `Options.ofGroups_reorder`: neither this nor the options depend on that order.
* `ofArguments_any_order`: what follows for the program.
-/

namespace ThreeAddress.CommandLine

namespace Group

/-- The arguments of a group. -/
def words (g : Group) : List String := g.word :: g.value.toList

/-- A group is complete if it has a value exactly in case its flag takes one. -/
def Complete (g : Group) : Prop := g.value.isSome = g.flag.takesValue

instance (g : Group) : Decidable g.Complete :=
  inferInstanceAs (Decidable (g.value.isSome = g.flag.takesValue))

/-- The arguments that are neither options nor their values. -/
def positionals (gs : List Group) : List String := gs.filterMap (contentFor .input)

theorem filterMap_contentFor (flag : Flag) (gs : List Group) :
    gs.filterMap (contentFor flag) = (gs.filter fun g => g.flag = flag).map content := by
  induction gs with
  | nil => rfl
  | cons g gs ih => by_cases h : g.flag = flag <;> simp [contentFor, h, ih]

end Group

/-! ## Splitting arguments -/

/-- Nothing is lost. -/
theorem flatMap_words_groups (arguments : List String) :
    (groups arguments).flatMap Group.words = arguments := by
  fun_induction groups arguments with
  | case1 => rfl
  | case2 word h => rfl
  | case3 word h value rest ih => simp [Group.words, ih]
  | case4 word rest h ih => simp [Group.words, ih]

/-- **Complete groups are found again**, whatever their values look like. -/
theorem groups_flatMap_words (gs : List Group) (h : ∀ g ∈ gs, g.Complete) :
    groups (gs.flatMap Group.words) = gs := by
  induction gs with
  | nil => rfl
  | cons g gs ih =>
    have hrest := ih fun g' hg' => h g' (List.mem_cons_of_mem _ hg')
    have hg : g.value.isSome = (Flag.ofArgument g.word).takesValue := h g List.mem_cons_self
    obtain ⟨word, value⟩ := g
    cases value with
    | none =>
      have hsplit := groups_single hg.symm (gs.flatMap Group.words)
      rw [hrest] at hsplit; exact hsplit
    | some value =>
      have hsplit := groups_value hg.symm value (gs.flatMap Group.words)
      rw [hrest] at hsplit; exact hsplit

/-- Only an option at the very end can be incomplete: it lacks its value. -/
theorem complete_of_mem_groups {arguments : List String} {g : Group} (hg : g ∈ groups arguments)
    (hvalue : g.flag.takesValue = true → g.value.isSome = true) : g.Complete := by
  fun_induction groups arguments with
  | case1 => cases hg
  | case2 word h =>
    obtain rfl := List.mem_singleton.1 hg
    exact (hvalue h).trans h.symm
  | case3 word h value rest ih =>
    rcases List.mem_cons.1 hg with rfl | hrest
    · exact h.symm
    · exact ih hrest
  | case4 word rest h ih =>
    rcases List.mem_cons.1 hg with rfl | hrest
    · exact (Bool.eq_false_of_not_eq_true h).symm
    · exact ih hrest

/-! ## Groups that are accepted -/

/-- What a group needs to be taken, apart from the groups around it. -/
structure Group.Acceptable (g : Group) : Prop where
  value : g.flag.takesValue = true → g.value.isSome = true
  no_help : g.flag ≠ .help
  known : g.flag ≠ .unknown
  numeral : g.flag = .limit → (Text.index? g.content.toList).isSome = true

/-- What groups need to be taken one by one: each of them is acceptable, and of the arguments that are no
options **only the last** may be other than empty. -/
structure Accepted (gs : List Group) : Prop where
  each : ∀ g ∈ gs, g.Acceptable
  inputs : ∀ earlier ∈ (Group.positionals gs).dropLast, earlier = ""

/-- An empty last input means that all are empty. -/
theorem Accepted.inputs_empty {gs : List Group} (h : Accepted gs)
    (hlast : (Group.last .input gs).getD "" = "") : ∀ text ∈ Group.positionals gs, text = "" := by
  intro text htext
  cases hl : (Group.positionals gs).getLast? with
  | none =>
    rw [List.getLast?_eq_none_iff.1 hl] at htext; cases htext
  | some final =>
    have hfinal : final = "" := by
      have hsame : Group.last .input gs = some final := hl
      rw [hsame] at hlast; exact hlast
    rw [← List.dropLast_append_getLast? final hl] at htext
    rcases List.mem_append.1 htext with hearlier | hend
    · exact h.inputs text hearlier
    · rw [List.mem_singleton.1 hend, hfinal]

/-- **One group more.** An argument that is no option needs the last one before it to be empty. -/
theorem accepted_append {gs : List Group} {g : Group} :
    Accepted (gs ++ [g]) ↔
      Accepted gs ∧ g.Acceptable ∧ (g.flag = .input → (Group.last .input gs).getD "" = "") := by
  have hpositionals : Group.positionals (gs ++ [g]) =
      Group.positionals gs ++ (if g.flag = .input then [g.content] else []) := by
    unfold Group.positionals
    rw [List.filterMap_append]
    by_cases hf : g.flag = .input <;> simp [Group.contentFor, hf]
  constructor
  · intro h
    have hg : g.Acceptable := h.each g (by simp)
    have heach : ∀ g' ∈ gs, g'.Acceptable := fun g' hg' => h.each g' (List.mem_append_left _ hg')
    have hinputs := h.inputs
    rw [hpositionals] at hinputs
    by_cases hf : g.flag = .input
    · rw [if_pos hf, List.dropLast_concat] at hinputs
      refine ⟨⟨heach, fun text ht => hinputs text (List.mem_of_mem_dropLast ht)⟩, hg, fun _ => ?_⟩
      cases hl : Group.last .input gs with
      | none => rfl
      | some final => exact hinputs final (List.mem_of_getLast? hl)
    · rw [if_neg hf, List.append_nil] at hinputs
      exact ⟨⟨heach, hinputs⟩, hg, fun hi => absurd hi hf⟩
  · rintro ⟨h, hg, hlast⟩
    refine ⟨?_, ?_⟩
    · intro g' hg'
      rcases List.mem_append.1 hg' with hold | hnew
      · exact h.each g' hold
      · rw [List.mem_singleton.1 hnew]; exact hg
    · rw [hpositionals]
      by_cases hf : g.flag = .input
      · rw [if_pos hf, List.dropLast_concat]
        exact h.inputs_empty (hlast hf)
      · rw [if_neg hf, List.append_nil]; exact h.inputs

namespace Options

variable {o : Options} {g : Group} {gs : List Group}

/-- A group is taken exactly if it is acceptable and does not name a second input. -/
theorem exists_take_iff :
    (∃ o', o.take g = .ok o') ↔ g.Acceptable ∧ (g.flag = .input → o.input = "") := by
  constructor
  · rintro ⟨o', ht⟩
    refine ⟨⟨?_, ?_, ?_, ?_⟩, ?_⟩
    · intro hv
      by_contra hnone
      have hnone : g.value = none := by simpa using hnone
      unfold take at ht
      cases hf : g.flag <;> simp [hf, hnone, Flag.takesValue] at ht hv
    · intro hf; simp [take, hf] at ht
    · intro hf; simp [take, hf] at ht
    · intro hf
      rcases take_cases ht with ⟨h, -⟩ | ⟨h, -⟩ | ⟨-, n, hn, -⟩ | ⟨h, -⟩ | ⟨h, -⟩
      · simp [hf] at h
      · simp [hf] at h
      · rw [hn]; rfl
      · simp [hf] at h
      · simp [hf] at h
    · intro hf
      by_contra hi
      simp [take, hf, hi] at ht
  · rintro ⟨hg, hi⟩
    have hvalue := hg.value
    have hnumeral := hg.numeral
    unfold take
    cases hf : g.flag with
    | output =>
      obtain ⟨file, hv⟩ := Option.isSome_iff_exists.1 (hvalue (by rw [hf]; rfl))
      rw [hv]; exact ⟨_, rfl⟩
    | settings =>
      obtain ⟨file, hv⟩ := Option.isSome_iff_exists.1 (hvalue (by rw [hf]; rfl))
      rw [hv]; exact ⟨_, rfl⟩
    | limit =>
      obtain ⟨number, hv⟩ := Option.isSome_iff_exists.1 (hvalue (by rw [hf]; rfl))
      obtain ⟨n, hn⟩ := Option.isSome_iff_exists.1 (hnumeral hf)
      rw [Group.content, hv, Option.getD_some] at hn
      rw [hv]; simp [hn]
    | verbose => exact ⟨_, rfl⟩
    | help => exact absurd hf hg.no_help
    | unknown => exact absurd hf hg.known
    | input => exact ⟨_, if_pos (hi hf)⟩

/-! ## The options of groups -/

/-- The options that groups stand for, **each read off the groups for it alone**. -/
def ofGroups (gs : List Group) : Options where
  input := (Group.last .input gs).getD ""
  output := Group.last .output gs
  settings := Group.last .settings gs
  limit := (Group.last .limit gs).bind fun text => Text.index? text.toList
  verbose := gs.any fun g => g.flag == .verbose

theorem Reflects.eq_ofGroups (h : o.Reflects gs) : o = ofGroups gs := by
  have hlimit : o.limit = (Group.last .limit gs).bind fun text => Text.index? text.toList := by
    have hmap := h.limit
    cases hl : Group.last .limit gs with
    | none => rw [hl] at hmap; simpa using hmap
    | some text =>
      rw [hl] at hmap
      cases ho : o.limit with
      | none => rw [ho] at hmap; cases hmap
      | some n => rw [ho] at hmap; exact Option.some.inj hmap
  obtain ⟨input, output, settings, limit, verbose⟩ := o
  have hinput := h.input
  have houtput := h.output
  have hsettings := h.settings
  have hverbose := h.verbose
  simp only at hinput houtput hsettings hverbose hlimit
  rw [ofGroups, hinput, houtput, hsettings, hverbose, hlimit]

end Options

/-- The value of an option for the limit that is accepted is a numeral. -/
theorem Accepted.index?_last {gs : List Group} {text : String} (h : Accepted gs)
    (hl : Group.last .limit gs = some text) : ∃ n, Text.index? text.toList = some n := by
  obtain ⟨g, hg, hcontent⟩ := List.mem_filterMap.1 (List.mem_of_getLast? hl)
  obtain ⟨hf, rfl⟩ : g.flag = .limit ∧ g.content = text := by simpa [Group.contentFor] using hcontent
  exact Option.isSome_iff_exists.1 ((h.each g hg).numeral hf)

namespace Options

/-- **A scan reaches the end exactly if the groups are accepted.** -/
theorem exists_foldlM_take_iff (gs : List Group) :
    (∃ o : Options, gs.foldlM take {} = .ok o) ↔ Accepted gs := by
  -- on the groups from the last one back, as the scan goes from left to right
  induction gs using List.reverseRecOn with
  | nil =>
    refine ⟨fun _ => ?_, fun _ => ⟨{}, rfl⟩⟩
    exact ⟨fun _ hg => absurd hg List.not_mem_nil, fun _ ht => absurd ht List.not_mem_nil⟩
  | append_singleton gs g ih =>
    have hstep : (gs ++ [g]).foldlM take {} = (gs.foldlM take {}).bind fun o₁ => o₁.take g := by
      rw [List.foldlM_append]
      cases gs.foldlM take ({} : Options) with
      | error stop => rfl
      | ok o₁ =>
        change ((o₁.take g).bind fun o₂ => Except.ok o₂) = o₁.take g
        cases o₁.take g <;> rfl
    rw [hstep, accepted_append]
    constructor
    · rintro ⟨o, h⟩
      cases hgs : gs.foldlM take ({} : Options) with
      | error stop => rw [hgs] at h; cases h
      | ok o₁ =>
        rw [hgs] at h
        have hrefl : o₁.Reflects gs := Reflects.foldlM gs .nil hgs
        obtain ⟨hg, hi⟩ := exists_take_iff.1 ⟨o, h⟩
        rw [hrefl.input] at hi
        exact ⟨ih.1 ⟨o₁, hgs⟩, hg, hi⟩
    · rintro ⟨hacc, hg, hi⟩
      obtain ⟨o₁, hgs⟩ := ih.2 hacc
      have hrefl : o₁.Reflects gs := Reflects.foldlM gs .nil hgs
      rw [← hrefl.input] at hi
      rw [hgs]
      exact exists_take_iff.2 ⟨hg, hi⟩

/-- The options of arguments that are accepted. -/
theorem ofArguments_of_accepted {arguments : List String} (hne : arguments ≠ [])
    (h : Accepted (groups arguments)) :
    ofArguments arguments = (ofGroups (groups arguments)).finish := by
  obtain ⟨o, ho⟩ := (exists_foldlM_take_iff _).2 h
  have hrefl : o.Reflects (groups arguments) := Reflects.foldlM _ .nil ho
  rw [ofArguments_eq hne, takeAll_eq, ho, ← hrefl.eq_ofGroups]; rfl

/-- **Arguments are accepted unless a group is refused.** -/
theorem accepted_of_ofArguments {arguments : List String}
    (h : ∀ stop, ofArguments arguments = .error stop → stop = .noInput) :
    arguments ≠ [] ∧ Accepted (groups arguments) := by
  have hne : arguments ≠ [] := by
    rintro rfl
    cases h .noArguments rfl
  refine ⟨hne, ?_⟩
  rw [ofArguments_eq hne, takeAll_eq] at h
  cases hfold : (groups arguments).foldlM take ({} : Options) with
  | error stop =>
    rw [hfold] at h
    obtain ⟨g, -, o₁, hrefused⟩ := exists_refused _ hfold
    exact absurd (h stop rfl) (take_refused hrefused).1
  | ok o => exact (exists_foldlM_take_iff _).1 ⟨o, hfold⟩

end Options

/-! ## Changing places -/

section Reorder

variable {gs gs' : List Group} (hperm : gs'.Perm gs)
  (hkeep : ∀ flag, (gs'.filter fun g => g.flag = flag) = gs.filter fun g => g.flag = flag)

include hkeep

theorem filterMap_contentFor_reorder (flag : Flag) :
    gs'.filterMap (Group.contentFor flag) = gs.filterMap (Group.contentFor flag) := by
  rw [Group.filterMap_contentFor, Group.filterMap_contentFor, hkeep]

include hperm

theorem Accepted.reorder (h : Accepted gs) : Accepted gs' where
  each g hg := h.each g (hperm.mem_iff.1 hg)
  inputs := by
    unfold Group.positionals
    rw [filterMap_contentFor_reorder hkeep]; exact h.inputs

theorem Options.ofGroups_reorder : Options.ofGroups gs' = Options.ofGroups gs := by
  have hlast : ∀ flag, Group.last flag gs' = Group.last flag gs := by
    intro flag
    unfold Group.last
    rw [filterMap_contentFor_reorder hkeep]
  unfold Options.ofGroups
  simp only [hlast, hperm.any_eq]

end Reorder

/-- **The order of options does not matter.** Let the scan of the arguments not be stopped before their end.
Then they split into complete groups in one way. The input is the last argument that is no option, and all
such arguments before it are empty; each other option holds what its last group says. If groups for different
options change places, the options stay the same, and so do all that the program asks for, whichever library it
reads settings with, the report and the files of every run. -/
theorem ofArguments_any_order (arguments : List String)
    (h : ∀ stop, Options.ofArguments arguments = .error stop → stop = .noInput) :
    let gs := groups arguments
    (∀ split : List Group,
      (split.flatMap Group.words = arguments ∧ ∀ g ∈ split, g.Complete) ↔ split = gs) ∧
    (∀ g ∈ gs, g.flag ≠ .help ∧ g.flag ≠ .unknown) ∧
    (∀ earlier ∈ (Group.positionals gs).dropLast, earlier = "") ∧
    (∀ text, Group.last .limit gs = some text → ∃ n, Text.index? text.toList = some n) ∧
    Options.ofArguments arguments =
      (if (Options.ofGroups gs).input = "" then .error .noInput else .ok (Options.ofGroups gs)) ∧
    ∀ gs' : List Group, gs'.Perm gs →
      (∀ flag, (gs'.filter fun g => g.flag = flag) = gs.filter fun g => g.flag = flag) →
      Options.ofArguments (gs'.flatMap Group.words) = Options.ofArguments arguments ∧
      ∀ library name,
        programWith library name (gs'.flatMap Group.words) = programWith library name arguments ∧
        ∀ {σ : Type} (answers : Answers σ) (s : σ),
          (programWith library name (gs'.flatMap Group.words)).run answers s =
            (programWith library name arguments).run answers s := by
  intro gs
  obtain ⟨hne, hacc⟩ := Options.accepted_of_ofArguments h
  have hcomplete : ∀ g ∈ gs, g.Complete := fun g hg =>
    complete_of_mem_groups hg (hacc.each g hg).value
  have hoptions := Options.ofArguments_of_accepted hne hacc
  refine ⟨?_, fun g hg => ⟨(hacc.each g hg).no_help, (hacc.each g hg).known⟩, hacc.inputs,
    fun text hl => hacc.index?_last hl, hoptions, ?_⟩
  · intro split
    constructor
    · rintro ⟨hwords, hsplit⟩
      rw [← groups_flatMap_words split hsplit, hwords]
    · rintro rfl
      exact ⟨flatMap_words_groups arguments, hcomplete⟩
  · intro gs' hperm hkeep
    -- the scan finds the groups again in their new places
    have hgroups : groups (gs'.flatMap Group.words) = gs' :=
      groups_flatMap_words gs' fun g hg => hcomplete g (hperm.mem_iff.1 hg)
    have hne' : gs'.flatMap Group.words ≠ [] := by
      intro hnil
      rw [hnil] at hgroups
      obtain rfl : gs' = [] := hgroups.symm
      have hnone : groups arguments = [] := hperm.nil_eq.symm
      have hwords := flatMap_words_groups arguments
      rw [hnone] at hwords
      exact hne hwords.symm
    have hacc' : Accepted (groups (gs'.flatMap Group.words)) := by
      rw [hgroups]; exact hacc.reorder hperm hkeep
    have hsame : Options.ofArguments (gs'.flatMap Group.words) = Options.ofArguments arguments := by
      rw [Options.ofArguments_of_accepted hne' hacc', hgroups, Options.ofGroups_reorder hperm hkeep,
        hoptions]
    have hprogram : ∀ library name,
        programWith library name (gs'.flatMap Group.words) = programWith library name arguments := by
      intro library name
      unfold programWith
      rw [hsame]
    exact ⟨hsame, fun library name => ⟨hprogram library name, fun answers s => by rw [hprogram library name]⟩⟩

/-- An option as the value of an option, an empty argument and two files for the output. -/
theorem ofArguments_any_order_lookalike :
    let arguments := ["-o", "a.q", "-v", "", "-o", "-v", "loop.tac", "--max-quads", "+7"]
    let moved : List Group := [⟨"", none⟩, ⟨"--max-quads", some "+7"⟩, ⟨"-o", some "a.q"⟩,
      ⟨"loop.tac", none⟩, ⟨"-o", some "-v"⟩, ⟨"-v", none⟩]
    Options.ofArguments arguments = .ok ⟨"loop.tac", some "-v", none, some 7, true⟩ ∧
    ∀ library name d, (programWith library name (moved.flatMap Group.words)).run Directory.answers d =
      (programWith library name arguments).run Directory.answers d := by
  intro arguments moved
  have hoptions : Options.ofArguments arguments = .ok ⟨"loop.tac", some "-v", none, some 7, true⟩ := by
    decide +kernel
  have hscan : ∀ stop, Options.ofArguments arguments = .error stop → stop = .noInput := by
    intro stop hstop
    rw [hoptions] at hstop; cases hstop
  obtain ⟨-, -, -, -, -, hmove⟩ := ofArguments_any_order arguments hscan
  have hperm : moved.Perm (groups arguments) := by decide +kernel
  have hkeep : ∀ flag, (moved.filter fun g => g.flag = flag) =
      (groups arguments).filter fun g => g.flag = flag := by
    intro flag
    cases flag <;> decide +kernel
  exact ⟨hoptions, fun library name => ((hmove moved hperm hkeep).2 library name).2 Directory.answers⟩

end ThreeAddress.CommandLine
