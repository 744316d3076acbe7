import ThreeAddress.Proofs.DocumentOrder
import ThreeAddress.Settings.Basic

/-!
# Which settings are accepted

The entries of the root table are looked at one after the other, in the order of the text. What a document is
and which library reads it are left open (`Format`, `Library.Visits`).

* `IsSetting`, `IsRefused`: an entry is a setting, or there is one reason to refuse it.
* `Verdict`, `verdict_settings`: **the four ways a document can go.** The first entry that is no setting decides;
  without one, there is at most one entry, and whether it is zero decides.
* `load_accepts`: **exactly the documents without another key, and with a limit from 1 to 2 ^ 63 - 1 if they
  set one, are accepted.**
-/

namespace ThreeAddress.Settings

variable {e : Key × Span × Node} {entries : Entries} {span : Span} {refusal : Refusal}

/-- An entry that can be taken into the settings: the limit, as an integer that is not negative. -/
def IsSetting (e : Key × Span × Node) : Prop := e.1.name = "max_quads" ∧ ∃ n : ℕ, e.2.2 = .integer n

/-- Why an entry is no setting, with the part of the text to be shown for it. -/
inductive IsRefused : Key × Span × Node → Span → Refusal → Prop
  | unknownField {key : Key} (span : Span) (node : Node) (h : key.name ≠ "max_quads") :
    IsRefused (key, span, node) key.span (.unknownField key.name)
  | negative {key : Key} (span : Span) {value : ℤ} (h : key.name = "max_quads") (hneg : value < 0) :
    IsRefused (key, span, .integer value) span (.negative value)
  | wrongType {key : Key} (span : Span) {node : Node} (h : key.name = "max_quads")
    (hnode : ∀ value, node ≠ .integer value) :
    IsRefused (key, span, node) span (.wrongType node.description)

/-! ## One entry -/

theorem isSetting_or_isRefused (e : Key × Span × Node) :
    IsSetting e ∨ ∃ span refusal, IsRefused e span refusal := by
  obtain ⟨key, span, node⟩ := e
  by_cases hname : key.name = "max_quads"
  · by_cases hinteger : ∃ value, node = .integer value
    · obtain ⟨value, rfl⟩ := hinteger
      by_cases hneg : value < 0
      · exact .inr ⟨_, _, .negative span hname hneg⟩
      · exact .inl ⟨hname, value.toNat, by rw [Int.toNat_of_nonneg (by omega)]⟩
    · exact .inr ⟨_, _, .wrongType span hname fun value h => hinteger ⟨value, h⟩⟩
  · exact .inr ⟨_, _, .unknownField span node hname⟩

theorem IsRefused.not_isSetting (h : IsRefused e span refusal) : ¬ IsSetting e := by
  rintro ⟨hname, n, hnode⟩
  cases h with
  | unknownField span node h => exact h hname
  | negative span h hneg =>
    obtain rfl := Node.integer.inj hnode
    omega
  | wrongType span h hinteger => exact hinteger n hnode

theorem take_integer {key : Key} (h : key.name = "max_quads") (s : Settings) (span : Span) (n : ℕ) :
    take s (key, span, .integer n) = .ok ⟨n⟩ := by
  simp [take, h]

theorem take_of_isRefused (h : IsRefused e span refusal) (s : Settings) : take s e = .error (span, refusal) := by
  cases h with
  | unknownField span node h => simp [take, h]
  | negative span h hneg => simp [take, h, hneg]
  | @wrongType key span node h hnode =>
    cases node with
    | integer value => exact absurd rfl (hnode value)
    | _ => simp [take, h]

/-! ## All entries -/

/-- Settings are taken one after the other. -/
theorem foldlM_take (h : ∀ e ∈ entries, IsSetting e) (s : Settings) : ∃ s', entries.foldlM take s = .ok s' := by
  induction entries generalizing s with
  | nil => exact ⟨s, rfl⟩
  | cons e entries ih =>
    obtain ⟨⟨hname, n, hnode⟩, hrest⟩ := List.forall_mem_cons.1 h
    obtain ⟨key, span, node⟩ := e
    cases hnode
    rw [List.foldlM_cons, take_integer hname]
    exact ih hrest ⟨n⟩

theorem exists_first_isRefused (entries : Entries) : (∀ e ∈ entries, IsSetting e) ∨
    ∃ before e after span refusal, entries = before ++ e :: after ∧ (∀ x ∈ before, IsSetting x) ∧
      IsRefused e span refusal := by
  induction entries with
  | nil => exact .inl nofun
  | cons e entries ih =>
    obtain he | ⟨span, refusal, he⟩ := isSetting_or_isRefused e
    · obtain hrest | ⟨before, e', after, span, refusal, rfl, hbefore, he'⟩ := ih
      · exact .inl (List.forall_mem_cons.2 ⟨he, hrest⟩)
      · exact .inr ⟨e :: before, e', after, span, refusal, rfl, List.forall_mem_cons.2 ⟨he, hbefore⟩, he'⟩
    · exact .inr ⟨[], e, entries, span, refusal, rfl, nofun, he⟩

/-- Where names are not repeated, there is at most one setting. -/
theorem eq_nil_or_singleton (hnodup : entries.names.Nodup) (h : ∀ e ∈ entries, IsSetting e) :
    entries = [] ∨ ∃ key span, ∃ n : ℕ, entries = [(key, span, .integer n)] ∧ key.name = "max_quads" := by
  rcases entries with - | ⟨⟨key, span, node⟩, - | ⟨e, entries⟩⟩
  · exact .inl rfl
  · obtain ⟨hname, n, hnode⟩ := h _ List.mem_cons_self
    cases hnode
    exact .inr ⟨key, span, n, rfl, hname⟩
  · have hfirst := (h (key, span, node) List.mem_cons_self).1
    have hsecond := (h e (List.mem_cons_of_mem _ List.mem_cons_self)).1
    have hne := (List.nodup_cons.1 hnodup).1
    refine absurd (List.mem_cons.2 (.inl ?_)) hne
    exact hfirst.trans hsecond.symm

/-! ## Documents -/

/-- **What a document comes to**, by its root table. -/
inductive Verdict (text : List Char) : Entries → Except Fault Settings → Prop
  | usual : Verdict text [] (.ok ⟨5000⟩)
  | limit {key : Key} (span : Span) {n : ℕ} (h : key.name = "max_quads") (hpos : 1 ≤ n)
    (hle : n ≤ 2 ^ 63 - 1) : Verdict text [(key, span, .integer n)] (.ok ⟨n⟩)
  | zero {key : Key} (span : Span) (h : key.name = "max_quads") :
    Verdict text [(key, span, .integer 0)] (.error .zeroLimit)
  | refused {before after : Entries} {e : Key × Span × Node} {span : Span} {refusal : Refusal}
    (hbefore : ∀ x ∈ before, IsSetting x) (h : IsRefused e span refusal) :
    Verdict text (before ++ e :: after) (.error (.refused (.ofSpan text span) refusal))

section Library

variable {library : Library} {format : Format} {text : String}

theorem value_load (library : Library) (text : String) : (library.load text).value = library.settings text := by
  unfold Library.load
  cases library.settings text with
  | error fault => rfl
  | ok s => rfl

theorem settings_of_malformed (h : library.Visits format text.toList) (hnone : format.rootTable? text.toList = none) :
    library.settings text = .error .malformed := by
  simp only [Library.settings, h.malformed hnone]

theorem verdict_settings (h : library.Visits format text.toList)
    (hroot : format.rootTable? text.toList = some entries) :
    Verdict text.toList entries (library.settings text) := by
  obtain hall | ⟨before, e, after, span, refusal, rfl, hbefore, he⟩ := exists_first_isRefused entries
  · -- names do not repeat, so there is at most one entry
    obtain rfl | ⟨key, span, n, rfl, hname⟩ := eq_nil_or_singleton (format.nodup hroot) hall
    · have hvisit : library.visit take {} text.toList = some (.ok {}) := h.inOrder hroot rfl
      simp only [Library.settings, hvisit]
      exact .usual
    · have hfits := format.fits hroot _ List.mem_cons_self n rfl
      have hvisit : library.visit take {} text.toList = some (.ok ⟨n⟩) :=
        h.inOrder hroot (by rw [List.foldlM_cons, take_integer hname]; rfl)
      simp only [Library.settings, hvisit, validate]
      cases n with
      | zero => exact .zero span hname
      | succ n => exact .limit span hname (by omega) (by omega)
  · obtain ⟨s, hs⟩ := foldlM_take hbefore {}
    have hvisit : library.visit take {} text.toList = some (.error (span, refusal)) :=
      h.stops hroot hs (take_of_isRefused he s)
    simp only [Library.settings, hvisit]
    exact .refused hbefore he

end Library

section Verdict

variable {text : List Char} {outcome : Except Fault Settings}

theorem Verdict.accepted_iff (h : Verdict text entries outcome) : (∃ s, outcome = .ok s) ↔
    ∀ e ∈ entries, e.1.name = "max_quads" ∧ ∃ n : ℕ, e.2.2 = .integer n ∧ 1 ≤ n ∧ n ≤ 2 ^ 63 - 1 := by
  cases h with
  | usual => exact ⟨fun _ => nofun, fun _ => ⟨_, rfl⟩⟩
  | @limit key span n hname hpos hle =>
    refine ⟨fun _ e he => ?_, fun _ => ⟨_, rfl⟩⟩
    obtain rfl := List.mem_singleton.1 he
    exact ⟨hname, n, rfl, hpos, hle⟩
  | zero span hname =>
    refine ⟨nofun, fun hall => ?_⟩
    obtain ⟨-, n, hn, hpos, -⟩ := hall _ List.mem_cons_self
    have hzero : (0 : ℤ) = n := Node.integer.inj hn
    omega
  | refused hbefore he =>
    refine ⟨nofun, fun hall => ?_⟩
    obtain ⟨hname, n, hn, -, -⟩ := hall _ (List.mem_append_right _ List.mem_cons_self)
    exact absurd ⟨hname, n, hn⟩ he.not_isSetting

/-- What is accepted is the one number that is set, or else the usual one. -/
theorem Verdict.limit_of_ok {s : Settings} (h : Verdict text entries (.ok s)) : s.limit ≠ 0 ∧
    ((entries = [] ∧ s.limit = 5000) ∨ ∃ key span, entries = [(key, span, .integer s.limit)]) := by
  cases h with
  | usual => exact ⟨by decide, .inl ⟨rfl, rfl⟩⟩
  | @limit key span n hname hpos hle => exact ⟨Nat.one_le_iff_ne_zero.1 hpos, .inr ⟨key, span, rfl⟩⟩

/-- What is reported is the first entry in the text that is no setting, if there is one. -/
theorem Verdict.refused_of_not_settings (h : Verdict text entries outcome)
    (hordered : entries.keys.Pairwise Key.Precedes) : (∀ e ∈ entries, IsSetting e) ∨
    ∃ e ∈ entries, ∃ span refusal, IsRefused e span refusal ∧
      (∀ x ∈ entries, ¬ IsSetting x → x = e ∨ e.1.Precedes x.1) ∧
      outcome = .error (.refused (.ofSpan text span) refusal) := by
  cases h with
  | usual => exact .inl nofun
  | @limit key span n hname hpos hle => exact .inl (List.forall_mem_singleton.2 ⟨hname, n, rfl⟩)
  | zero span hname => exact .inl (List.forall_mem_singleton.2 ⟨hname, 0, rfl⟩)
  | @refused before after e span refusal hbefore he =>
    refine .inr ⟨e, List.mem_append_right _ List.mem_cons_self, span, refusal, he, ?_, rfl⟩
    intro x hx hnot
    obtain hx | hx := List.mem_append.1 hx
    · exact absurd (hbefore x hx) hnot
    obtain rfl | hx := List.mem_cons.1 hx
    · exact .inl rfl
    · obtain ⟨-, hafter, -⟩ := List.pairwise_append.1 (List.pairwise_map.1 hordered)
      exact .inr ((List.pairwise_cons.1 hafter).1 x hx)

theorem Verdict.zeroLimit_iff (h : Verdict text entries outcome) : outcome = .error .zeroLimit ↔
    (∀ e ∈ entries, IsSetting e) ∧ ∃ e ∈ entries, e.2.2 = .integer 0 := by
  cases h with
  | usual => exact ⟨nofun, by rintro ⟨-, e, ⟨⟩, -⟩⟩
  | @limit key span n hname hpos hle =>
    refine ⟨nofun, ?_⟩
    rintro ⟨-, e, he, hzero⟩
    obtain rfl := List.mem_singleton.1 he
    have hn : (n : ℤ) = 0 := Node.integer.inj hzero
    omega
  | zero span hname =>
    exact ⟨fun _ => ⟨List.forall_mem_singleton.2 ⟨hname, 0, rfl⟩, _, List.mem_cons_self, rfl⟩, fun _ => rfl⟩
  | refused hbefore he =>
    refine ⟨nofun, ?_⟩
    rintro ⟨hall, -⟩
    exact absurd (hall _ (List.mem_append_right _ List.mem_cons_self)) he.not_isSetting

end Verdict

theorem isBare_max_quads : IsBare "max_quads".toList := ⟨by decide +kernel, List.all_eq_true.1 (by decide +kernel)⟩

/-- **Which settings are accepted, and what they come to**, for any format and any library that visits the
entries of the text in document order, up to the first that is refused. A document is accepted exactly if no
other key than `max_quads` is there, and its value, if it is there, is an integer from 1 to `2 ^ 63 - 1`; that is
then the limit, or else 5000. Otherwise the first entry in the text that is unknown, or not an integer that is
not negative, is reported, and a limit of zero only if there is no such entry. A text that sets the limit on one
line and says nothing on the others gives that limit. -/
theorem load_accepts (format : Format) (library : Library) (text : String)
    (h : library.Visits format text.toList) :
    (format.rootTable? text.toList = none → (library.load text).value = .error .malformed) ∧
    (∀ entries, format.rootTable? text.toList = some entries →
      ((∃ s, (library.load text).value = .ok s) ↔ ∀ e ∈ entries,
        e.1.name = "max_quads" ∧ ∃ n : ℕ, e.2.2 = .integer n ∧ 1 ≤ n ∧ n ≤ 2 ^ 63 - 1) ∧
      (∀ s, (library.load text).value = .ok s →
        (entries = [] ∧ s.limit = 5000) ∨ ∃ key span, entries = [(key, span, .integer s.limit)]) ∧
      ((∀ e ∈ entries, IsSetting e) ∨ ∃ e ∈ entries, ∃ span refusal, IsRefused e span refusal ∧
        (∀ x ∈ entries, ¬ IsSetting x → x = e ∨ e.1.Precedes x.1) ∧
        (library.load text).value = .error (.refused (.ofSpan text.toList span) refusal)) ∧
      ((library.load text).value = .error .zeroLimit ↔
        (∀ e ∈ entries, IsSetting e) ∧ ∃ e ∈ entries, e.2.2 = .integer 0)) ∧
    (∀ s, (library.load text).value = .ok s → s.limit ≠ 0) ∧
    ∀ (l : Layout) (n : ℕ), text.toList = l.text "max_quads".toList n → 1 ≤ n → n ≤ 2 ^ 63 - 1 →
      (library.load text).value = .ok ⟨n⟩ := by
  have hverdict : ∀ {entries}, format.rootTable? text.toList = some entries →
      Verdict text.toList entries (library.load text).value := by
    intro entries hroot
    rw [value_load]
    exact verdict_settings h hroot
  refine ⟨?_, ?_, ?_, ?_⟩
  · intro hnone
    rw [value_load, settings_of_malformed h hnone]
  · intro entries hroot
    refine ⟨(hverdict hroot).accepted_iff, ?_, (hverdict hroot).refused_of_not_settings (format.ordered hroot),
      (hverdict hroot).zeroLimit_iff⟩
    intro s hs
    have hok := hverdict hroot
    rw [hs] at hok
    exact hok.limit_of_ok.2
  · intro s hs
    cases hroot : format.rootTable? text.toList with
    | none =>
      rw [value_load, settings_of_malformed h hroot] at hs
      cases hs
    | some entries =>
      have hok := hverdict hroot
      rw [hs] at hok
      exact hok.limit_of_ok.1
  · intro l n htext hpos hle
    obtain ⟨key, span, hname, hroot⟩ := format.setting l isBare_max_quads hpos hle
    rw [String.ofList_toList] at hname
    rw [← htext] at hroot
    obtain ⟨s, hs⟩ := (hverdict hroot).accepted_iff.2
      (List.forall_mem_singleton.2 ⟨hname, n, rfl, hpos, hle⟩)
    have hok := hverdict hroot
    rw [hs] at hok
    obtain ⟨hnil, -⟩ | ⟨key', span', heq⟩ := hok.limit_of_ok.2
    · cases hnil
    · simp only [List.cons.injEq, Prod.mk.injEq, Node.integer.injEq, Nat.cast_inj] at heq
      rw [hs, heq.1.2.2]

/-- A layout with a comment and an empty line before the limit, and a comment after it. -/
def commented : Layout where
  before := [] ++ '#' :: [' ', 'r', 'o', 'o', 'm'] ++ (['\r', '\n'] ++ ([] ++ (['\n'] ++ [])))
  indent := [' ']
  left := []
  right := ['\t']
  after := [' '] ++ '#' :: [' ', 'a', 'l', 'l'] ++ (['\n'] ++ ([] ++ []))
  fillerLines_before := .cons (.comment nofun (List.all_eq_true.1 (by decide))) (.inr rfl)
    (.cons (.blank nofun) (.inl rfl) .nil)
  isBlank_indent := List.forall_mem_singleton.2 (.inl rfl)
  isBlank_left := nofun
  isBlank_right := List.forall_mem_singleton.2 (.inr rfl)
  isEnding_after := .lines (.comment (List.forall_mem_singleton.2 (.inl rfl)) (List.all_eq_true.1 (by decide)))
    (.inl rfl) .nil (.blank nofun)

/-- A limit of zero is not reported before a key that is unknown, and the largest limit is accepted among
comments. -/
theorem load_accepts_largest :
    (load "max_quads = 0\nmax_quad = 10").value ≠ .error .zeroLimit ∧
    (load "# room\r\n\n max_quads=\t9223372036854775807 # all\n").value = .ok ⟨9223372036854775807⟩ := by
  constructor
  · have hvisits : Document.library.Visits Document.format "max_quads = 0\nmax_quad = 10".toList :=
      visits_of_no_sections (by decide +kernel)
    have hnames : (Document.rootTable? "max_quads = 0\nmax_quad = 10".toList).map Entries.names =
        some ["max_quads", "max_quad"] := by decide +kernel
    obtain ⟨entries, hroot, heq⟩ := Option.map_eq_some_iff.1 hnames
    obtain ⟨-, hdocument, -⟩ := load_accepts Document.format Document.library _ hvisits
    obtain ⟨-, -, -, hzero⟩ := hdocument entries hroot
    refine fun hload => ?_
    obtain ⟨hall, -⟩ := hzero.1 hload
    have hmem : "max_quad" ∈ entries.names := by rw [heq]; decide
    obtain ⟨key, hkey, hname⟩ := List.mem_map.1 hmem
    obtain ⟨e, he, rfl⟩ := List.mem_map.1 hkey
    have hother : e.1.name = "max_quads" := (hall e he).1
    exact absurd (hname.symm.trans hother) (by decide)
  · have hvisits : Document.library.Visits Document.format
        "# room\r\n\n max_quads=\t9223372036854775807 # all\n".toList :=
      visits_of_no_sections (by decide +kernel)
    obtain ⟨-, -, -, hsetting⟩ := load_accepts Document.format Document.library _ hvisits
    have htext : "# room\r\n\n max_quads=\t9223372036854775807 # all\n".toList =
        commented.text "max_quads".toList 9223372036854775807 := by decide +kernel
    exact hsetting commented 9223372036854775807 htext (by decide) (by decide)

end ThreeAddress.Settings
