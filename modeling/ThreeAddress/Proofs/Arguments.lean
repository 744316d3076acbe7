import Mathlib.Tactic
import ThreeAddress.CommandLine.Options

/-!
# Groups of arguments

An option and the value behind it belong together, whatever the value looks like, and any other argument
stands alone. The arguments fall into such groups from left to right (`groups`), and of several groups
for one option the last one counts (`lastOf`).

* `scan_eq`: **scanning arguments is taking their groups** one by one.
* `take_cases`, `Taken`: all that one group can do to the options.
* `Options.Reflects`: the options hold what the last group for each of them says.
* `Reflects.take`, `Reflects.foldlM`: every group keeps that, so all of them do.
* `exists_refused`: what stops a scan before its end is one group.
* `reflects_ofArguments`, `helpRequested_of_help`: what this means for the arguments of a call.
-/

namespace ThreeAddress.CommandLine

/-- Whether the argument behind the flag is its value. -/
def Flag.takesValue : Flag → Bool
  | output => true
  | settings => true
  | limit => true
  | _ => false

/-- Arguments that belong together: an option with its value, or a single argument. An option at the very
end lacks its value. -/
structure Group where
  word : String
  value : Option String
deriving DecidableEq, Repr

namespace Group

/-- The flag of the group. -/
def flag (g : Group) : Flag := .ofArgument g.word

/-- What the group is about: the value of an option, or the argument itself. -/
def content (g : Group) : String := g.value.getD g.word

/-- The content of a group with the given flag. -/
def contentFor (flag : Flag) (g : Group) : Option String :=
  if g.flag = flag then some g.content else none

/-- The content of the last group with the given flag. -/
def last (flag : Flag) (gs : List Group) : Option String := (gs.filterMap (contentFor flag)).getLast?

theorem last_append (flag : Flag) (gs : List Group) (g : Group) :
    last flag (gs ++ [g]) = if g.flag = flag then some g.content else last flag gs := by
  unfold last
  rw [List.filterMap_append, List.getLast?_append]
  by_cases h : g.flag = flag
  · have hsome : g.contentFor flag = some g.content := if_pos h
    rw [if_pos h, List.filterMap_cons_some hsome, List.filterMap_nil, List.getLast?_singleton,
      Option.some_or]
  · have hnone : g.contentFor flag = none := if_neg h
    rw [if_neg h, List.filterMap_cons_none hnone, List.filterMap_nil, List.getLast?_nil, Option.none_or]

end Group

/-- The groups into which arguments fall, from left to right. -/
def groups : List String → List Group
  | [] => []
  | word :: rest =>
    if (Flag.ofArgument word).takesValue then
      match rest with
      | [] => [⟨word, none⟩]
      | value :: rest => ⟨word, some value⟩ :: groups rest
    else ⟨word, none⟩ :: groups rest

@[simp]
theorem groups_last (word : String) : groups [word] = [⟨word, none⟩] := by simp [groups]

@[simp]
theorem groups_value {word : String} (h : (Flag.ofArgument word).takesValue = true) (value : String)
    (rest : List String) : groups (word :: value :: rest) = ⟨word, some value⟩ :: groups rest := by
  rw [groups, if_pos h]

@[simp]
theorem groups_single {word : String} (h : (Flag.ofArgument word).takesValue = false)
    (rest : List String) : groups (word :: rest) = ⟨word, none⟩ :: groups rest := by
  have hn : ¬ (Flag.ofArgument word).takesValue = true := by rw [h]; exact Bool.false_ne_true
  cases rest with
  | nil => exact groups_last word
  | cons value rest => rw [groups, if_neg hn]

/-- The **last content given for a flag**: the value of the last option of its kind, or the last argument
that is no option. -/
def lastOf (flag : Flag) (arguments : List String) : Option String := Group.last flag (groups arguments)

/-- Whether help is asked for, by an argument that is not the value of an option. -/
def HelpRequested (arguments : List String) : Prop := ∃ g ∈ groups arguments, g.flag = .help

instance (arguments : List String) : Decidable (HelpRequested arguments) :=
  inferInstanceAs (Decidable (∃ g ∈ groups arguments, g.flag = .help))

namespace Options

/-- Takes one group into the options given. -/
def take (o : Options) (g : Group) : Except Stop Options :=
  match g.flag, g.value with
  | .output, none => .error (.noFileName "-o")
  | .output, some file => .ok { o with output := some file }
  | .settings, none => .error (.noFileName "--config")
  | .settings, some file => .ok { o with settings := some file }
  | .limit, none => .error .noNumber
  | .limit, some number =>
    match Text.index? number.toList with
    | none => .error (.badLimit number)
    | some n => .ok { o with limit := some n }
  | .verbose, _ => .ok { o with verbose := true }
  | .help, _ => .error .help
  | .unknown, _ => .error (.unknownOption g.word)
  | .input, _ => if o.input = "" then .ok { o with input := g.content } else .error .severalInputs

/-- Takes groups one by one. In the end there has to be an input. -/
def takeAll (o : Options) : List Group → Except Stop Options
  | [] => if o.input = "" then .error .noInput else .ok o
  | g :: gs => (o.take g).bind fun o => o.takeAll gs

section Take

variable {word : String} (o : Options)

@[simp]
theorem take_output (h : Flag.ofArgument word = .output) (file : String) :
    o.take ⟨word, some file⟩ = .ok { o with output := some file } := by
  simp [take, Group.flag, h]

@[simp]
theorem take_output_last (h : Flag.ofArgument word = .output) :
    o.take ⟨word, none⟩ = .error (.noFileName "-o") := by
  simp [take, Group.flag, h]

@[simp]
theorem take_settings (h : Flag.ofArgument word = .settings) (file : String) :
    o.take ⟨word, some file⟩ = .ok { o with settings := some file } := by
  simp [take, Group.flag, h]

@[simp]
theorem take_settings_last (h : Flag.ofArgument word = .settings) :
    o.take ⟨word, none⟩ = .error (.noFileName "--config") := by
  simp [take, Group.flag, h]

@[simp]
theorem take_limit (h : Flag.ofArgument word = .limit) (number : String) :
    o.take ⟨word, some number⟩ =
      match Text.index? number.toList with
      | none => .error (.badLimit number)
      | some n => .ok { o with limit := some n } := by
  simp [take, Group.flag, h]

@[simp]
theorem take_limit_last (h : Flag.ofArgument word = .limit) : o.take ⟨word, none⟩ = .error .noNumber := by
  simp [take, Group.flag, h]

@[simp]
theorem take_verbose (h : Flag.ofArgument word = .verbose) :
    o.take ⟨word, none⟩ = .ok { o with verbose := true } := by
  simp [take, Group.flag, h]

@[simp]
theorem take_help (h : Flag.ofArgument word = .help) : o.take ⟨word, none⟩ = .error .help := by
  simp [take, Group.flag, h]

@[simp]
theorem take_unknown (h : Flag.ofArgument word = .unknown) :
    o.take ⟨word, none⟩ = .error (.unknownOption word) := by
  simp [take, Group.flag, h]

@[simp]
theorem take_input (h : Flag.ofArgument word = .input) : o.take ⟨word, none⟩ =
    if o.input = "" then .ok { o with input := word } else .error .severalInputs := by
  simp [take, Group.flag, Group.content, h]

end Take

/-- **Scanning arguments is taking their groups**, from left to right. -/
theorem scan_eq (o : Options) (arguments : List String) :
    o.scan arguments = o.takeAll (groups arguments) := by
  -- each branch of the scan is the branch of `take` for the group that starts here
  fun_induction Options.scan o arguments with
  | case1 o h => simp [groups, takeAll, h]
  | case2 o h => simp [groups, takeAll, h]
  | case3 o word hf => simp [takeAll, hf, Except.bind]
  | case4 o word file rest hf ih => simp [takeAll, Flag.takesValue, hf, Except.bind, ih]
  | case5 o word hf => simp [takeAll, hf, Except.bind]
  | case6 o word file rest hf ih => simp [takeAll, Flag.takesValue, hf, Except.bind, ih]
  | case7 o word hf => simp [takeAll, hf, Except.bind]
  | case8 o word number rest hf hn => simp [takeAll, Flag.takesValue, hf, hn, Except.bind]
  | case9 o word number rest hf n hn ih => simp [takeAll, Flag.takesValue, hf, hn, Except.bind, ih]
  | case10 o word rest hf ih => simp [takeAll, Flag.takesValue, hf, Except.bind, ih]
  | case11 o word rest hf => simp [takeAll, Flag.takesValue, hf, Except.bind]
  | case12 o word rest hf => simp [takeAll, Flag.takesValue, hf, Except.bind]
  | case13 o word rest hf hi ih => simp [takeAll, Flag.takesValue, hf, hi, Except.bind, ih]
  | case14 o word rest hf hi => simp [takeAll, Flag.takesValue, hf, hi, Except.bind]

/-! ## What the options hold -/

/-- The options **hold what the last group for each of them says**, and no group asks for help. -/
structure Reflects (o : Options) (gs : List Group) : Prop where
  input : o.input = (Group.last .input gs).getD ""
  output : o.output = Group.last .output gs
  settings : o.settings = Group.last .settings gs
  /-- The value of the last option for the limit is a numeral, and the limit is its number. -/
  limit : o.limit.map some = (Group.last .limit gs).map fun text => Text.index? text.toList
  verbose : o.verbose = gs.any fun g => g.flag == .verbose
  help : ∀ g ∈ gs, g.flag ≠ .help

variable {o o' : Options} {g : Group} {gs : List Group}

/-- **Everything that a group can do to the options.** -/
theorem take_cases (h : o.take g = .ok o') :
    (g.flag = .output ∧ o' = { o with output := some g.content }) ∨
    (g.flag = .settings ∧ o' = { o with settings := some g.content }) ∨
    (g.flag = .limit ∧ ∃ n, Text.index? g.content.toList = some n ∧ o' = { o with limit := some n }) ∨
    (g.flag = .verbose ∧ o' = { o with verbose := true }) ∨
    (g.flag = .input ∧ o.input = "" ∧ o' = { o with input := g.content }) := by
  unfold take at h
  split at h
  · cases h
  · rename_i file hf hv
    refine Or.inl ⟨hf, ?_⟩
    rw [Group.content, hv]; exact (Except.ok.inj h).symm
  · cases h
  · rename_i file hf hv
    refine Or.inr (Or.inl ⟨hf, ?_⟩)
    rw [Group.content, hv]; exact (Except.ok.inj h).symm
  · cases h
  · rename_i number hf hv
    split at h
    · cases h
    · rename_i n hn
      refine Or.inr (Or.inr (Or.inl ⟨hf, n, ?_, (Except.ok.inj h).symm⟩))
      rw [Group.content, hv]; exact hn
  · rename_i hf
    exact Or.inr (Or.inr (Or.inr (Or.inl ⟨hf, (Except.ok.inj h).symm⟩)))
  · cases h
  · cases h
  · rename_i hf
    split at h
    · rename_i hi
      exact Or.inr (Or.inr (Or.inr (Or.inr ⟨hf, hi, (Except.ok.inj h).symm⟩)))
    · cases h

theorem Reflects.nil : Reflects {} [] :=
  ⟨rfl, rfl, rfl, rfl, rfl, fun _ hg => absurd hg List.not_mem_nil⟩

/-- What has become of each option when a group is taken: it has the content of the group if it is the one
that the group is for, and is as before otherwise. -/
structure Taken (o : Options) (g : Group) (o' : Options) : Prop where
  input : o'.input = if g.flag = .input then g.content else o.input
  output : o'.output = if g.flag = .output then some g.content else o.output
  settings : o'.settings = if g.flag = .settings then some g.content else o.settings
  limit : o'.limit.map some = if g.flag = .limit then some (Text.index? g.content.toList) else o.limit.map some
  verbose : o'.verbose = (o.verbose || g.flag == .verbose)
  help : g.flag ≠ .help

theorem taken_of_take (h : o.take g = .ok o') : o.Taken g o' := by
  rcases take_cases h with ⟨hf, rfl⟩ | ⟨hf, rfl⟩ | ⟨hf, n, hn, rfl⟩ | ⟨hf, rfl⟩ | ⟨hf, -, rfl⟩
  all_goals constructor <;> simp [*]

/-- **Every group that is taken keeps this.** -/
theorem Reflects.take (h : o.Reflects gs) (ht : o.take g = .ok o') : o'.Reflects (gs ++ [g]) := by
  have htaken := taken_of_take ht
  constructor
  · rw [htaken.input, Group.last_append, h.input]
    split <;> rfl
  · rw [htaken.output, Group.last_append, h.output]
  · rw [htaken.settings, Group.last_append, h.settings]
  · rw [htaken.limit, Group.last_append, h.limit]
    split <;> rfl
  · rw [htaken.verbose, List.any_append, ← h.verbose, List.any_cons, List.any_nil, Bool.or_false]
  · intro g' hg'
    rcases List.mem_append.1 hg' with hold | hnew
    · exact h.help g' hold
    · rw [List.mem_singleton.1 hnew]; exact htaken.help

/-- What is left to do after the last group: there has to be an input. -/
def finish (o : Options) : Except Stop Options := if o.input = "" then .error .noInput else .ok o

theorem takeAll_eq (gs : List Group) : ∀ o : Options, o.takeAll gs = (gs.foldlM take o).bind finish := by
  induction gs with
  | nil => intro o; rfl
  | cons g gs ih =>
    intro o
    rw [takeAll, List.foldlM_cons]
    cases hg : o.take g with
    | error stop => rfl
    | ok o₁ => exact ih o₁

/-- **So all groups together do.** -/
theorem Reflects.foldlM (more : List Group) :
    ∀ {o : Options} {gs : List Group}, o.Reflects gs → more.foldlM Options.take o = .ok o' →
      o'.Reflects (gs ++ more) := by
  -- on the groups to come, with those already taken general
  induction more with
  | nil =>
    intro o gs h ht
    obtain rfl := Except.ok.inj ht
    rw [List.append_nil]; exact h
  | cons g more ih =>
    intro o gs h ht
    rw [List.foldlM_cons] at ht
    cases hg : o.take g with
    | error stop => rw [hg] at ht; cases ht
    | ok o₁ =>
      rw [hg] at ht
      have hrest := ih (h.take hg) ht
      rwa [List.append_assoc] at hrest

/-- For lack of an input no group is refused, and with the help only one that asks for it. -/
theorem take_refused {stop : Stop} (h : o.take g = .error stop) :
    stop ≠ .noInput ∧ (stop = .help → g.flag = .help) := by
  unfold take at h
  split at h
  · cases h; simp
  · cases h
  · cases h; simp
  · cases h
  · cases h; simp
  · split at h
    · cases h; simp
    · cases h
  · cases h
  · rename_i hf
    cases h; simp [hf]
  · cases h; simp
  · split at h
    · cases h
    · cases h; simp

/-- Groups are refused for what one of them is refused for. -/
theorem exists_refused {stop : Stop} (gs : List Group) :
    ∀ {o : Options}, gs.foldlM take o = .error stop → ∃ g ∈ gs, ∃ o₁ : Options, o₁.take g = .error stop := by
  induction gs with
  | nil => intro o h; cases h
  | cons g gs ih =>
    intro o h
    rw [List.foldlM_cons] at h
    cases hg : o.take g with
    | error stop' =>
      rw [hg] at h
      obtain rfl := Except.error.inj h
      exact ⟨g, List.mem_cons_self, o, hg⟩
    | ok o₁ =>
      rw [hg] at h
      obtain ⟨g', hg', hrefused⟩ := ih h
      exact ⟨g', List.mem_cons_of_mem _ hg', hrefused⟩

theorem ofArguments_eq {arguments : List String} (h : arguments ≠ []) :
    ofArguments arguments = takeAll {} (groups arguments) := by
  rw [← scan_eq]
  cases arguments with
  | nil => exact absurd rfl h
  | cons word rest => rfl

/-- **Options that are accepted** hold what the arguments say last. -/
theorem reflects_ofArguments {arguments : List String} (h : ofArguments arguments = .ok o) :
    o.Reflects (groups arguments) ∧ o.input ≠ "" := by
  by_cases hne : arguments = []
  · rw [hne] at h; cases h
  · rw [ofArguments_eq hne, takeAll_eq] at h
    cases hfold : (groups arguments).foldlM take ({} : Options) with
    | error stop => rw [hfold] at h; cases h
    | ok o₁ =>
      rw [hfold] at h
      have hfinish : o₁.finish = .ok o := h
      unfold finish at hfinish
      split at hfinish
      · cases hfinish
      · rename_i hinput
        obtain rfl := Except.ok.inj hfinish
        exact ⟨Reflects.foldlM (groups arguments) .nil hfold, hinput⟩

theorem helpRequested_of_help {arguments : List String} (h : ofArguments arguments = .error .help) :
    HelpRequested arguments := by
  by_cases hne : arguments = []
  · rw [hne] at h; cases h
  · rw [ofArguments_eq hne, takeAll_eq] at h
    cases hfold : (groups arguments).foldlM take ({} : Options) with
    | error stop =>
      rw [hfold] at h
      obtain rfl := Except.error.inj h
      obtain ⟨g, hg, o₁, hrefused⟩ := exists_refused (groups arguments) hfold
      exact ⟨g, hg, (take_refused hrefused).2 rfl⟩
    | ok o₁ =>
      rw [hfold] at h
      have hfinish : o₁.finish = .error .help := h
      unfold finish at hfinish
      split at hfinish <;> cases hfinish

end Options

end ThreeAddress.CommandLine
