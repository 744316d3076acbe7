import ThreeAddress.Proofs.Readers

/-!
# Texts with one setting

A text that gives a number to a key on one of its lines, and says nothing on the others, is read as a document
with that one entry.

* `IsFiller`, `FillerLines`: blanks and a comment, and whole lines of them. `many_fillerLines`: such lines are
  read as statements that say nothing.
* `scalar_digits`: **digits without a leading zero are read as the integer they stand for.** The readers that
  come first each fail: a date or a time needs a mark that no digit is (`moment_digits`), and a floating point
  number needs a fraction or an exponent (`float_digits`).
* `statements_layout`: the one assignment that a text laid out in this way (`Layout`) is read as.
-/

namespace ThreeAddress.Settings

open Reader

variable {rest ds : List Char}

/-! ## Lines that say nothing -/

/-- Spaces and tabs. -/
def IsBlank (text : List Char) : Prop := ∀ c ∈ text, c = ' ' ∨ c = '\t'

/-- Blanks, and perhaps a comment after them. -/
inductive IsFiller : List Char → Prop
  | blank {bs : List Char} (h : IsBlank bs) : IsFiller bs
  | comment {bs text : List Char} (h : IsBlank bs) (htext : ∀ c ∈ text, isPlain c = true) :
    IsFiller (bs ++ '#' :: text)

/-- A line feed, or a carriage return and a line feed. -/
def IsLineEnd (text : List Char) : Prop := text = ['\n'] ∨ text = ['\r', '\n']

/-- Whole lines that say nothing. -/
inductive FillerLines : List Char → Prop
  | nil : FillerLines []
  | cons {line eol lines : List Char} (hline : IsFiller line) (heol : IsLineEnd eol) (h : FillerLines lines) :
    FillerLines (line ++ (eol ++ lines))

/-- The rest of a line that says nothing more, and of a text that says nothing more after it. -/
inductive IsEnding : List Char → Prop
  | line {line : List Char} (hline : IsFiller line) : IsEnding line
  | lines {line eol lines last : List Char} (hline : IsFiller line) (heol : IsLineEnd eol)
    (hlines : FillerLines lines) (hlast : IsFiller last) : IsEnding (line ++ (eol ++ (lines ++ last)))

theorem blanks_append {text : List Char} (h : IsBlank text) (hrest : ∀ c ∈ rest.head?, c ≠ ' ' ∧ c ≠ '\t') :
    blanks (text ++ rest) = some ((), rest) := by
  have hrun : run (fun c => c == ' ' || c == '\t') (text ++ rest) = some (text, rest) := by
    apply run_append
    · intro c hc
      simpa using h c hc
    · intro c hc
      simpa using hrest c hc
  unfold blanks
  rw [bind_of_some hrun]; rfl

theorem blanks_of_isBlank {text : List Char} (h : IsBlank text) : blanks text = some ((), []) := by
  simpa using @blanks_append [] text h nofun

theorem blanks_of_head (h : ∀ c ∈ rest.head?, c ≠ ' ' ∧ c ≠ '\t') : blanks rest = some ((), rest) :=
  @blanks_append rest [] nofun h

theorem newline_append {eol : List Char} (h : IsLineEnd eol) (rest : List Char) :
    newline (eol ++ rest) = some ((), rest) := by
  obtain rfl | rfl := h
  · rfl
  · rfl

theorem head_lineEnd {eol : List Char} (h : IsLineEnd eol) (rest : List Char) :
    ∀ c ∈ (eol ++ rest).head?, c = '\n' ∨ c = '\r' := by
  obtain rfl | rfl := h
  · rintro c ⟨⟩
    exact .inl rfl
  · rintro c ⟨⟩
    exact .inr rfl

theorem comment_append {text : List Char} (htext : ∀ c ∈ text, isPlain c = true)
    (hrest : ∀ c ∈ rest.head?, isPlain c = false) : comment ('#' :: (text ++ rest)) = some ((), rest) := by
  unfold comment
  rw [bind_of_some (the_cons _ _), bind_of_some (run_append htext hrest)]; rfl

theorem statement_filler {line eol : List Char} (hline : IsFiller line) (heol : IsLineEnd eol)
    (rest : List Char) : statement (line ++ (eol ++ rest)) = some (.nothing, rest) := by
  have hhead := head_lineEnd heol rest
  unfold statement
  cases hline with
  | blank h =>
    rw [bind_of_some (blanks_append h fun c hc => by obtain rfl | rfl := hhead c hc <;> decide)]
    apply orElse_of_some
    rw [bind_of_some (newline_append heol rest)]; rfl
  | @comment bs text h htext =>
    have hcomment : comment ('#' :: (text ++ (eol ++ rest))) = some ((), eol ++ rest) :=
      comment_append htext fun c hc => by obtain rfl | rfl := hhead c hc <;> decide
    have hend : lineEnd (eol ++ rest) = some ((), rest) := orElse_of_some (newline_append heol rest)
    rw [List.append_assoc, List.cons_append, bind_of_some (blanks_append h (by simp)), orElse_of_none rfl]
    apply orElse_of_some
    rw [bind_of_some hcomment, bind_of_some hend]; rfl

/-- Lines that say nothing are read one by one, and what follows them is read after them. -/
theorem many_fillerLines {lines : List Char} (h : FillerLines lines) (rest : List Char) : ∃ k,
    many statement (lines ++ rest) =
      (many statement rest).map fun p => (List.replicate k .nothing ++ p.1, p.2) := by
  induction h with
  | nil => exact ⟨0, by simp⟩
  | @cons line eol lines hline heol h ih =>
    obtain ⟨k, hk⟩ := ih
    refine ⟨k + 1, ?_⟩
    rw [List.append_assoc, List.append_assoc, many_of_some (statement_filler hline heol _), hk,
      Option.map_map]
    rfl

/-- The last line, without a line end: a comment is read as a statement that says nothing, blanks are left. -/
theorem many_filler {line : List Char} (h : IsFiller line) : ∃ k left,
    many statement line = some (List.replicate k .nothing, left) ∧ IsBlank left := by
  cases h with
  | blank h =>
    -- no statement is found at the end of the text
    refine ⟨0, line, many_of_none ?_, h⟩
    unfold statement
    rw [bind_of_some (blanks_of_isBlank h)]; rfl
  | @comment bs text h htext =>
    refine ⟨1, [], ?_, nofun⟩
    have hcomment : comment ('#' :: text) = some ((), []) := by
      simpa using @comment_append [] text htext nofun
    have hread : statement (bs ++ '#' :: text) = some (.nothing, []) := by
      unfold statement
      rw [bind_of_some (blanks_append h (by simp)), orElse_of_none rfl]
      apply orElse_of_some
      rw [bind_of_some hcomment]; rfl
    rw [many_of_some hread, many_of_none rfl]; rfl

theorem trailing_filler {line : List Char} (hline : IsFiller line)
    (hrest : ∀ c ∈ rest.head?, c = '\n' ∨ c = '\r') : trailing (line ++ rest) = lineEnd rest := by
  have hplain : ∀ c ∈ rest.head?, isPlain c = false := fun c hc => by
    obtain rfl | rfl := hrest c hc <;> decide
  have hblank : ∀ c ∈ rest.head?, c ≠ ' ' ∧ c ≠ '\t' := fun c hc => by
    obtain rfl | rfl := hrest c hc <;> decide
  have hnone : comment rest = none := by
    unfold comment
    apply bind_of_none
    apply the_of_head
    intro hhead
    obtain h | h := hrest _ hhead <;> cases h
  unfold trailing
  cases hline with
  | blank h => rw [bind_of_some (blanks_append h hblank), bind_of_some (optional?_of_none hnone)]
  | @comment bs text h htext =>
    rw [List.append_assoc, List.cons_append, bind_of_some (blanks_append h (by simp)),
      bind_of_some (optional?_of_some (comment_append htext hplain))]

/-- After the last value of a text, its line ends and what is left says nothing. -/
theorem trailing_ending (h : IsEnding rest) : ∃ lines last,
    trailing rest = some ((), lines ++ last) ∧ FillerLines lines ∧ IsFiller last := by
  cases h with
  | line hline =>
    refine ⟨[], [], ?_, .nil, .blank nofun⟩
    have hline := @trailing_filler [] rest hline nofun
    rwa [List.append_nil] at hline
  | @lines line eol lines last hline heol hlines hlast =>
    refine ⟨lines, last, ?_, hlines, hlast⟩
    rw [trailing_filler hline (head_lineEnd heol _)]
    exact orElse_of_some (newline_append heol _)

/-! ## Digits -/

/-- The text is at its end, or at a character that may follow a value on the same line. -/
def Stops (rest : List Char) : Prop := ∀ c ∈ rest.head?, c ∈ [' ', '\t', '#', '\n', '\r']

theorem Stops.head_eq_false (h : Stops rest) {p : Char → Bool}
    (hp : ([' ', '\t', '#', '\n', '\r'].all fun c => !p c) = true) : ∀ c ∈ rest.head?, p c = false :=
  fun c hc => by simpa using List.all_eq_true.1 hp c (h c hc)

theorem Stops.head_ne (h : Stops rest) {c : Char} (hc : c ∉ [' ', '\t', '#', '\n', '\r']) :
    rest.head? ≠ some c :=
  fun hhead => hc (h c hhead)

theorem head_append {P : Char → Prop} {cs cs' : List Char} (h : ∀ c ∈ cs.head?, P c)
    (h' : ∀ c ∈ cs'.head?, P c) : ∀ c ∈ (cs ++ cs').head?, P c := by
  cases cs with
  | nil => exact h'
  | cons c cs => exact h

theorem stops_isBlank {bs : List Char} (h : IsBlank bs) : Stops bs := by
  intro c hc
  obtain rfl | rfl := h c (List.mem_of_head? hc) <;> decide

theorem stops_filler {line : List Char} (h : IsFiller line) : Stops line := by
  cases h with
  | blank h => exact stops_isBlank h
  | comment h htext =>
    apply head_append (stops_isBlank h)
    rintro c ⟨⟩
    decide

theorem stops_lineEnd {eol : List Char} (h : IsLineEnd eol) (rest : List Char) : Stops (eol ++ rest) := by
  intro c hc
  obtain rfl | rfl := head_lineEnd h rest c hc <;> decide

theorem stops_fillerLines {lines : List Char} (h : FillerLines lines) : Stops lines := by
  cases h with
  | nil => exact nofun
  | cons hline heol h => exact head_append (stops_filler hline) (stops_lineEnd heol _)

theorem stops_ending (h : IsEnding rest) : Stops rest := by
  cases h with
  | line hline => exact stops_filler hline
  | lines hline heol hlines hlast => exact head_append (stops_filler hline) (stops_lineEnd heol _)

/-- Digits, the first of which is not a zero. -/
structure IsWhole (ds : List Char) : Prop where
  digits : ∀ c ∈ ds, c.isDigit = true
  head : ∃ d ds', ds = d :: ds' ∧ d ≠ '0'

theorem isWhole_toDigits (n : ℕ) : 0 < n → IsWhole (Nat.toDigits 10 n) := by
  induction n using Nat.strongRecOn with
  | ind n ih =>
    intro hn
    refine ⟨fun c hc => Nat.isDigit_of_mem_toDigits (by decide) (by decide) hc, ?_⟩
    by_cases hlt : n < 10
    · rw [Nat.toDigits_of_lt_base hlt]
      refine ⟨_, [], rfl, ?_⟩
      interval_cases n <;> decide
    · obtain ⟨d, ds, hds, hd⟩ := (ih (n / 10) (by omega) (by omega)).head
      refine ⟨d, ds ++ [Nat.digitChar (n % 10)], ?_, hd⟩
      rw [Nat.toDigits_of_base_le (by decide) (by omega), hds]
      rfl

theorem digitValue_digitChar {d : ℕ} (h : d < 10) : digitValue (Nat.digitChar d) = d := by
  interval_cases d <;> rfl

theorem digitsValue_toDigits (n : ℕ) : digitsValue 10 (Nat.toDigits 10 n) = n := by
  induction n using Nat.strongRecOn with
  | ind n ih =>
    by_cases hlt : n < 10
    · rw [Nat.toDigits_of_lt_base hlt]
      simp [digitsValue, digitValue_digitChar hlt]
    · have hdiv : digitsValue 10 (Nat.toDigits 10 (n / 10)) = n / 10 := ih (n / 10) (by omega)
      unfold digitsValue at hdiv ⊢
      rw [Nat.toDigits_of_base_le (by decide) (by omega), List.foldl_append, hdiv]
      simp only [List.foldl_cons, List.foldl_nil]
      rw [digitValue_digitChar (by omega)]
      omega

/-- A character that is no digit, after digits only, is the first one after all digits. -/
theorem eq_of_digits_append {taken left : List Char} {c : Char} (hds : ∀ d ∈ ds, d.isDigit = true)
    (hrest : Stops rest) (htaken : ∀ d ∈ taken, d.isDigit = true) (hc : c.isDigit = false)
    (h : ds ++ rest = taken ++ c :: left) : rest = c :: left := by
  -- either way the text is a run of digits with what follows it, and a run ends in one place
  have hrun := run_append hds (hrest.head_eq_false (by decide))
  rw [h, run_append htaken (by simpa using hc)] at hrun
  simp only [Option.some.injEq, Prod.mk.injEq] at hrun
  exact hrun.2.symm

theorem fixedDigits_eq_some {count n : ℕ} {cs left : List Char} (h : fixedDigits count cs = some (n, left)) :
    ∃ taken, cs = taken ++ left ∧ ∀ c ∈ taken, c.isDigit = true := by
  unfold fixedDigits at h
  obtain ⟨taken, mid, hmap, hpure⟩ := bind_eq_some_iff.1 h
  cases hpure
  clear h
  refine ⟨taken, ?_⟩
  induction count generalizing cs taken with
  | zero =>
    rw [List.replicate_zero, List.mapM_nil] at hmap
    cases hmap
    exact ⟨rfl, nofun⟩
  | succ count ih =>
    rw [List.replicate_succ, List.mapM_cons] at hmap
    obtain ⟨c, cs', hc, hmap⟩ := bind_eq_some_iff.1 hmap
    obtain ⟨taken', mid', htaken, hpure⟩ := bind_eq_some_iff.1 hmap
    cases hpure
    obtain ⟨rfl, hdigit⟩ := char_eq_some hc
    obtain ⟨rfl, hall⟩ := ih taken' htaken
    exact ⟨rfl, List.forall_mem_cons.2 ⟨hdigit, hall⟩⟩

theorem twoDigits_eq_some {low high n : ℕ} {cs left : List Char}
    (h : twoDigits low high cs = some (n, left)) :
    ∃ taken, cs = taken ++ left ∧ ∀ c ∈ taken, c.isDigit = true := by
  unfold twoDigits at h
  obtain ⟨m, mid, hfixed, hrange⟩ := bind_eq_some_iff.1 h
  split at hrange
  · cases hrange
    exact fixedDigits_eq_some hfixed
  · cases hrange

/-- **No date and no time** starts with a number alone: one needs a `-`, the other a `:`. -/
theorem moment_digits (hds : ∀ d ∈ ds, d.isDigit = true) (hrest : Stops rest) : moment (ds ++ rest) = none := by
  have hmark : ∀ {taken left : List Char} {c : Char}, ds ++ rest = taken ++ left →
      (∀ d ∈ taken, d.isDigit = true) → c.isDigit = false → c ∉ [' ', '\t', '#', '\n', '\r'] →
      the c left = none := by
    intro taken left c h htaken hc hstop
    apply the_of_head
    intro hhead
    obtain ⟨left, rfl⟩ := List.head?_eq_some_iff.1 hhead
    exact hrest.head_ne hstop (by rw [eq_of_digits_append hds hrest htaken hc h]; rfl)
  have hdate : date (ds ++ rest) = none := by
    rw [Option.eq_none_iff_forall_ne_some]
    rintro ⟨_, left⟩ hdate
    unfold date at hdate
    obtain ⟨year, mid, hyear, hdate⟩ := bind_eq_some_iff.1 hdate
    obtain ⟨taken, htext, htaken⟩ := fixedDigits_eq_some hyear
    rw [bind_of_none (hmark htext htaken (by decide) (by decide))] at hdate
    cases hdate
  have htime : timeOfDay (ds ++ rest) = none := by
    rw [Option.eq_none_iff_forall_ne_some]
    rintro ⟨_, left⟩ htime
    unfold timeOfDay at htime
    obtain ⟨hour, mid, hhour, htime⟩ := bind_eq_some_iff.1 htime
    obtain ⟨taken, htext, htaken⟩ := twoDigits_eq_some hhour
    rw [bind_of_none (hmark htext htaken (by decide) (by decide))] at htime
    cases htime
  unfold moment
  rw [orElse_of_none (bind_of_none hdate), htime]

theorem moreDigits_append (hds : ∀ d ∈ ds, d.isDigit = true) (hrest : Stops rest) :
    moreDigits Char.isDigit (ds ++ rest) = some (ds, rest) := by
  unfold moreDigits
  induction ds with
  | nil =>
    apply many_of_none
    rw [List.nil_append, orElse_of_none (bind_of_none (the_of_head (hrest.head_ne (by decide))))]
    exact char_of_head (hrest.head_eq_false (by decide))
  | cons d ds ih =>
    obtain ⟨hd, hds⟩ := List.forall_mem_cons.1 hds
    have hne : (d :: (ds ++ rest)).head? ≠ some '_' := by
      rintro ⟨⟩
      exact absurd hd (by decide)
    have hread : ((do the '_'; char Char.isDigit) <|> char Char.isDigit : Reader Char) (d :: (ds ++ rest)) =
        some (d, ds ++ rest) := by
      rw [orElse_of_none (bind_of_none (the_of_head hne))]
      exact char_cons hd
    rw [List.cons_append, many_of_some hread, ih hds]; rfl

theorem wholeDigits_append (hds : IsWhole ds) (hrest : Stops rest) :
    wholeDigits (ds ++ rest) = some (ds, rest) := by
  obtain ⟨hdigits, d, ds, rfl, hd⟩ := hds
  obtain ⟨hdigit, hmore⟩ := List.forall_mem_cons.1 hdigits
  unfold wholeDigits
  apply orElse_of_some
  rw [List.cons_append, bind_of_some (char_cons (by simp [hdigit, hd])),
    bind_of_some (moreDigits_append hmore hrest)]
  rfl

/-- What does not start with a digit is not at the front of digits. -/
theorem IsWhole.head_ne (hds : IsWhole ds) {c : Char} (hc : c.isDigit = false ∨ c = '0') (rest : List Char) :
    (ds ++ rest).head? ≠ some c := by
  obtain ⟨hdigits, d, ds, rfl, hd⟩ := hds
  rintro ⟨⟩
  obtain hc | hc := hc
  · rw [hdigits _ List.mem_cons_self] at hc
    cases hc
  · exact hd hc

theorem sign_digits (hds : IsWhole ds) (rest : List Char) : sign (ds ++ rest) = some (false, ds ++ rest) := by
  unfold sign
  rw [orElse_of_none (bind_of_none (the_of_head (hds.head_ne (.inl (by decide)) rest))),
    orElse_of_none (bind_of_none (the_of_head (hds.head_ne (.inl (by decide)) rest)))]
  rfl

/-- **No floating point number** is without a fraction and an exponent. -/
theorem float_digits (hds : IsWhole ds) (hrest : Stops rest) : float (ds ++ rest) = none := by
  have hfraction : fraction rest = none := by
    unfold fraction
    exact bind_of_none (the_of_head (hrest.head_ne (by decide)))
  have hexponent : exponent rest = none := by
    unfold exponent
    exact bind_of_none (char_of_head (hrest.head_eq_false (by decide)))
  have hdecimal : decimalFloat (ds ++ rest) = none := by
    unfold decimalFloat
    rw [bind_of_some (sign_digits hds rest), bind_of_some (wholeDigits_append hds hrest),
      bind_of_some (optional?_of_none hfraction), bind_of_some (optional?_of_none hexponent)]
    rfl
  have hspecial : specialFloat (ds ++ rest) = none := by
    unfold specialFloat
    rw [bind_of_some (sign_digits hds rest)]
    apply bind_of_none
    rw [orElse_of_none (bind_of_none (row_of_head (hds.head_ne (.inl (by decide)) rest) _)),
      bind_of_none (row_of_head (hds.head_ne (.inl (by decide)) rest) _)]
  unfold float
  rw [orElse_of_none hdecimal, hspecial]

theorem integer_digits (hds : IsWhole ds) (hrest : Stops rest) (hle : digitsValue 10 ds ≤ 2 ^ 63 - 1) :
    integer (ds ++ rest) = some ((digitsValue 10 ds : ℤ), rest) := by
  have hbased : ∀ mark base isDigit, basedInteger mark base isDigit (ds ++ rest) = none := by
    intro mark base isDigit
    unfold basedInteger
    exact bind_of_none (row_of_head (hds.head_ne (.inr rfl) rest) _)
  unfold integer
  rw [orElse_of_none (hbased _ _ _), orElse_of_none (hbased _ _ _), orElse_of_none (hbased _ _ _),
    bind_of_some (sign_digits hds rest), bind_of_some (wholeDigits_append hds hrest)]
  unfold int64
  rw [if_pos (by simp only [Bool.false_eq_true, if_false]; omega)]
  rfl

theorem string_digits (hds : IsWhole ds) (rest : List Char) : string (ds ++ rest) = none := by
  have hdouble : (ds ++ rest).head? ≠ some '"' := hds.head_ne (.inl (by decide)) rest
  have hsingle : (ds ++ rest).head? ≠ some '\'' := hds.head_ne (.inl (by decide)) rest
  have hlongBasic : longBasicString (ds ++ rest) = none := bind_of_none (row_of_head hdouble _)
  have hbasic : basicString (ds ++ rest) = none := bind_of_none (the_of_head hdouble)
  have hlongLiteral : longLiteralString (ds ++ rest) = none := bind_of_none (row_of_head hsingle _)
  have hliteral : literalString (ds ++ rest) = none := bind_of_none (the_of_head hsingle)
  unfold string
  rw [orElse_of_none hlongBasic, orElse_of_none hbasic, orElse_of_none hlongLiteral, hliteral]

/-- **Digits without a leading zero are read as an integer.** -/
theorem scalar_digits (hds : IsWhole ds) (hrest : Stops rest) (hle : digitsValue 10 ds ≤ 2 ^ 63 - 1) :
    scalar (ds ++ rest) = some (.integer (digitsValue 10 ds), rest) := by
  unfold scalar
  rw [orElse_of_none (by rw [map_apply, string_digits hds rest]; rfl),
    orElse_of_none (bind_of_none (moment_digits hds.digits hrest)),
    orElse_of_none (by rw [map_apply, float_digits hds hrest]; rfl)]
  apply orElse_of_some
  rw [map_apply, integer_digits hds hrest hle]
  rfl

theorem value_of_scalar {p : Node × List Char} {cs : List Char} (depth : ℕ) (h : scalar cs = some p) :
    value depth cs = some p := by
  cases depth with
  | zero => exact h
  | succ depth => exact orElse_of_some h

/-! ## The line with the setting -/

/-- All is read if nothing but blanks is left where the statements end. -/
theorem statements_of_many {cs left : List Char} {found : List Statement} (hmark : cs.head? ≠ some '\ufeff')
    (hmany : many statement cs = some (found, left)) (hleft : IsBlank left) :
    statements cs = some (found, []) := by
  unfold statements
  rw [bind_of_some (optional?_of_none (the_of_head hmark)), bind_of_some hmany,
    bind_of_some (blanks_of_isBlank hleft)]
  rfl

theorem sections_replicate (k : ℕ) (found : List Statement) :
    sections (List.replicate k .nothing ++ found) = sections found := by
  induction k with
  | zero => rfl
  | succ k ih => rw [List.replicate_succ, List.cons_append, sections, ih]

/-- How a text may **give a number to a key on one of its lines**: what stands before the key, around the equals
sign and after the number. -/
structure Layout where
  before : List Char
  indent : List Char
  left : List Char
  right : List Char
  after : List Char
  fillerLines_before : FillerLines before
  isBlank_indent : IsBlank indent
  isBlank_left : IsBlank left
  isBlank_right : IsBlank right
  isEnding_after : IsEnding after

/-- A key that is written without quotes. -/
structure IsBare (name : List Char) : Prop where
  ne_nil : name ≠ []
  chars : ∀ c ∈ name, isBareKey c = true

/-- The number, and what follows it. -/
def Layout.number (l : Layout) (n : ℕ) : List Char := (toString n).toList ++ l.after

/-- The key, the equals sign and the number. -/
def Layout.setting (l : Layout) (name : List Char) (n : ℕ) : List Char :=
  name ++ (l.left ++ '=' :: (l.right ++ l.number n))

/-- A text in this layout that gives a number to a key. -/
def Layout.text (l : Layout) (name : List Char) (n : ℕ) : List Char := l.before ++ (l.indent ++ l.setting name n)

section Setting

variable (l : Layout) {name : List Char} {n : ℕ}

theorem head_setting (h : IsBare name) (n : ℕ) : ∀ c ∈ (l.setting name n).head?, isBareKey c = true := by
  unfold Layout.setting
  cases name with
  | nil => exact absurd rfl h.ne_nil
  | cons c cs =>
    rintro _ ⟨⟩
    exact h.chars c List.mem_cons_self

theorem head_setting_ne (h : IsBare name) (n : ℕ) {c : Char} (hc : isBareKey c = false) :
    (l.setting name n).head? ≠ some c := by
  intro hhead
  rw [head_setting l h n c hhead] at hc
  cases hc

theorem not_blank_setting (h : IsBare name) (n : ℕ) : ∀ c ∈ (l.setting name n).head?, c ≠ ' ' ∧ c ≠ '\t' := by
  intro c hc
  constructor
  · rintro rfl
    exact head_setting_ne l h n (by decide) hc
  · rintro rfl
    exact head_setting_ne l h n (by decide) hc

theorem head_number (n : ℕ) : ∀ c ∈ (l.number n).head?, c.isDigit = true := by
  unfold Layout.number
  rw [Nat.toString_eq_repr, Nat.toList_repr]
  cases h : Nat.toDigits 10 n with
  | nil => exact absurd h Nat.toDigits_ne_nil
  | cons d ds =>
    have hmem : d ∈ Nat.toDigits 10 n := by rw [h]; exact List.mem_cons_self
    rintro c ⟨⟩
    exact Nat.isDigit_of_mem_toDigits (by decide) (by decide) hmem

theorem keyPart_setting (h : IsBare name) (n : ℕ) : ∃ span,
    keyPart (l.setting name n) = some (⟨String.ofList name, span⟩, '=' :: (l.right ++ l.number n)) := by
  have hstop : ∀ c ∈ (l.left ++ '=' :: (l.right ++ l.number n)).head?, isBareKey c = false := by
    apply head_append ((stops_isBlank l.isBlank_left).head_eq_false (by decide))
    rintro c ⟨⟩
    decide
  have hbasic : basicString (l.setting name n) = none :=
    bind_of_none (the_of_head (head_setting_ne l h n (by decide)))
  have hliteral : literalString (l.setting name n) = none :=
    bind_of_none (the_of_head (head_setting_ne l h n (by decide)))
  have hbare : (basicString <|> literalString <|> (String.ofList <$> run1 isBareKey)) (l.setting name n) =
      some (String.ofList name, l.left ++ '=' :: (l.right ++ l.number n)) := by
    rw [orElse_of_none hbasic, orElse_of_none hliteral, map_apply, Layout.setting,
      run1_append h.chars h.ne_nil hstop]
    rfl
  refine ⟨⟨(l.setting name n).length, (l.left ++ '=' :: (l.right ++ l.number n)).length⟩, ?_⟩
  unfold keyPart
  rw [bind_of_some (blanks_of_head (not_blank_setting l h n)), bind_of_some (located_of_some hbare)]
  dsimp only
  rw [bind_of_some (blanks_append l.isBlank_left (by simp))]
  rfl

theorem path_setting (h : IsBare name) (n : ℕ) : ∃ key : Key, key.name = String.ofList name ∧
    path (l.setting name n) = some (⟨[], key⟩, '=' :: (l.right ++ l.number n)) := by
  obtain ⟨span, hpart⟩ := keyPart_setting l h n
  have hmore : many (do the '.'; keyPart) ('=' :: (l.right ++ l.number n)) =
      some ([], '=' :: (l.right ++ l.number n)) :=
    many_of_none (bind_of_none (the_of_head (by simp)))
  refine ⟨⟨String.ofList name, span⟩, rfl, ?_⟩
  unfold path
  rw [bind_of_some hpart, bind_of_some hmore]
  rfl

theorem value_number (hpos : 1 ≤ n) (hle : n ≤ 2 ^ 63 - 1) (depth : ℕ) :
    value depth (l.number n) = some (.integer n, l.after) := by
  have hscalar := scalar_digits (isWhole_toDigits n hpos) (stops_ending l.isEnding_after)
    (by rwa [digitsValue_toDigits])
  rw [digitsValue_toDigits] at hscalar
  apply value_of_scalar
  rw [Layout.number, Nat.toString_eq_repr, Nat.toList_repr, hscalar]

theorem assignment_setting (h : IsBare name) (hpos : 1 ≤ n) (hle : n ≤ 2 ^ 63 - 1) (depth : ℕ) :
    ∃ (key : Key) (span : Span), key.name = String.ofList name ∧
      assignment (value depth) (l.setting name n) = some (⟨⟨[], key⟩, span, .integer n⟩, l.after) := by
  obtain ⟨key, hname, hpath⟩ := path_setting l h n
  have hblanks : blanks (l.right ++ l.number n) = some ((), l.number n) := by
    apply blanks_append l.isBlank_right
    intro c hc
    have hdigit := head_number l n c hc
    constructor
    · rintro rfl
      exact absurd hdigit (by decide)
    · rintro rfl
      exact absurd hdigit (by decide)
  refine ⟨key, ⟨(l.number n).length, l.after.length⟩, hname, ?_⟩
  unfold assignment
  rw [bind_of_some hpath, bind_of_some (the_cons _ _), bind_of_some hblanks,
    bind_of_some (located_of_some (value_number l hpos hle depth))]
  rfl

theorem statement_setting (h : IsBare name) (hpos : 1 ≤ n) (hle : n ≤ 2 ^ 63 - 1) :
    ∃ (key : Key) (span : Span) (lines last : _),
      key.name = String.ofList name ∧ FillerLines lines ∧ IsFiller last ∧
        statement (l.indent ++ l.setting name n) =
          some (.assign ⟨⟨[], key⟩, span, .integer n⟩, lines ++ last) := by
  obtain ⟨key, span, hname, hassign⟩ := assignment_setting l h hpos hle nestingLimit
  obtain ⟨lines, last, htrailing, hlines, hlast⟩ := trailing_ending l.isEnding_after
  refine ⟨key, span, lines, last, hname, hlines, hlast, ?_⟩
  have hhead : ∀ c, isBareKey c = false → (l.setting name n).head? ≠ some c := fun c => head_setting_ne l h n
  have hnewline : newline (l.setting name n) = none := by
    unfold newline
    rw [orElse_of_none (row_of_head (hhead _ (by decide)) _), row_of_head (hhead _ (by decide))]
  have hcomment : comment (l.setting name n) = none := bind_of_none (the_of_head (hhead _ (by decide)))
  have hheader : header (l.setting name n) = none := by
    unfold header
    rw [orElse_of_none (bind_of_none (row_of_head (hhead _ (by decide)) _)),
      bind_of_none (the_of_head (hhead _ (by decide)))]
  unfold statement
  rw [bind_of_some (blanks_append l.isBlank_indent (not_blank_setting l h n)),
    orElse_of_none (bind_of_none hnewline), orElse_of_none (bind_of_none hcomment),
    orElse_of_none (bind_of_none (located_of_none hheader)), bind_of_some hassign, bind_of_some htrailing]
  rfl

theorem head_text (h : IsBare name) (n : ℕ) : (l.text name n).head? ≠ some '\ufeff' := by
  have hhead : ∀ c ∈ (l.text name n).head?, c ≠ '\ufeff' := by
    apply head_append
    · rintro c hc rfl
      exact (stops_fillerLines l.fillerLines_before).head_ne (by decide) hc
    apply head_append
    · rintro c hc rfl
      exact (stops_isBlank l.isBlank_indent).head_ne (by decide) hc
    · rintro c hc rfl
      exact head_setting_ne l h n (by decide) hc
  exact fun h => hhead _ h rfl

/-- **A text that gives a number to a key** is read as this one assignment. -/
theorem statements_layout (h : IsBare name) (hpos : 1 ≤ n) (hle : n ≤ 2 ^ 63 - 1) :
    ∃ (key : Key) (span : Span) (found : List Statement), key.name = String.ofList name ∧
      statements (l.text name n) = some (found, []) ∧
      sections found = ([⟨⟨[], key⟩, span, .integer n⟩], []) := by
  obtain ⟨key, span, lines, last, hname, hlines, hlast, hsetting⟩ := statement_setting l h hpos hle
  obtain ⟨k₀, hbefore⟩ := many_fillerLines l.fillerLines_before (l.indent ++ l.setting name n)
  obtain ⟨k₁, hafter⟩ := many_fillerLines hlines last
  obtain ⟨k₂, left, hend, hleft⟩ := many_filler hlast
  -- the statements are the setting, with some that say nothing before it and after it
  rw [many_of_some hsetting, hafter, hend] at hbefore
  have hnothing : sections (List.replicate k₂ .nothing) = ([], []) := by
    rw [← List.append_nil (List.replicate _ _), sections_replicate]; rfl
  refine ⟨key, span, _, hname, statements_of_many (head_text l h n) hbefore hleft, ?_⟩
  simp only [sections_replicate, sections, hnothing]

end Setting

end ThreeAddress.Settings
