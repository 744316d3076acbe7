import Mathlib.Data.List.TakeWhile
import Mathlib.Tactic
import ThreeAddress.Proofs.Execution

/-!
# Reading text

How the parts of a line come apart again when they were put together with separators, and what is known
of the parts that a line comes apart into.

* `trim_eq_self_iff`: a text is its own trim exactly when it is tight, that is, has no blank at
  either end; blanks around a text do not matter (`trim_blanks_append`, `trim_append_blanks`). What is
  trimmed is tight (`tight_trim`).
* `infix_of_mem_splitOn`, `not_mem_of_mem_splitOn`: the pieces of a text that is cut at a character.
* `words_cons`, `statement?_of_word`: words and commands that are followed by a blank.
* `splitArrow?_eq_none_iff`, `splitArrow?_eq_some_iff`: the first arrow of a text.
* `index?_toDigits`, `count?_repr`: numerals read back what was written. What is read has 64 bits
  (`le_of_index?`, `bounds_of_count?`).
* `lines_intercalate`: the lines of a text that was joined from lines.
-/

namespace ThreeAddress

namespace Text

variable {cs w ws : List Char}

/-- A text without a blank at either end. -/
def Tight (cs : List Char) : Prop :=
  (∀ c ∈ cs.head?, isBlank c = false) ∧ ∀ c ∈ cs.getLast?, isBlank c = false

theorem trimStart_eq_self (h : ∀ c ∈ cs.head?, isBlank c = false) : trimStart cs = cs := by
  cases cs with
  | nil => rfl
  | cons c cs =>
    unfold trimStart
    rw [List.dropWhile_cons_of_neg]
    simp [h c rfl]

theorem trimEnd_eq_self (h : ∀ c ∈ cs.getLast?, isBlank c = false) : trimEnd cs = cs := by
  have hr : trimStart cs.reverse = cs.reverse :=
    trimStart_eq_self (by rw [List.head?_reverse]; exact h)
  unfold trimStart at hr
  unfold trimEnd
  rw [hr, List.reverse_reverse]

theorem head?_trimStart (cs : List Char) : ∀ c ∈ (trimStart cs).head?, isBlank c = false := by
  intro c hc
  have h := List.head?_dropWhile_not isBlank cs
  unfold trimStart at hc
  rw [Option.mem_def.1 hc] at h
  exact h

theorem length_trimEnd_le (cs : List Char) : (trimEnd cs).length ≤ cs.length := by
  unfold trimEnd
  rw [List.length_reverse]
  exact (List.dropWhile_sublist _).length_le.trans (List.length_reverse).le

/-- **A text is its own trim** exactly if it is tight. -/
theorem trim_eq_self_iff : trim cs = cs ↔ Tight cs := by
  constructor
  · intro h
    -- neither step may shorten the text
    have hlen : (trimStart cs).length = cs.length := by
      have h1 : (trimStart cs).length ≤ cs.length := (List.dropWhile_sublist _).length_le
      have h2 := length_trimEnd_le (trimStart cs)
      unfold trim at h
      rw [h] at h2
      omega
    have hs : trimStart cs = cs := (List.dropWhile_suffix _).eq_of_length hlen
    have he : trimEnd cs = cs := by unfold trim at h; rwa [hs] at h
    refine ⟨?_, ?_⟩
    · rw [← hs]; exact head?_trimStart cs
    · intro c hc
      have h' : ∀ c ∈ (trimStart cs.reverse).head?, isBlank c = false := head?_trimStart _
      have hrev : trimStart cs.reverse = cs.reverse := by
        unfold trimEnd at he
        rw [← List.reverse_reverse (trimStart cs.reverse)]
        exact congrArg List.reverse he
      rw [hrev, List.head?_reverse] at h'
      exact h' c hc
  · rintro ⟨h1, h2⟩
    unfold trim
    rw [trimStart_eq_self h1, trimEnd_eq_self h2]

theorem trim_blanks_append (hw : ∀ c ∈ ws, isBlank c = true) (cs : List Char) :
    trim (ws ++ cs) = trim cs := by
  unfold trim trimStart
  rw [List.dropWhile_append_of_pos hw]

theorem trim_append_blanks (hw : ∀ c ∈ ws, isBlank c = true) (cs : List Char) :
    trim (cs ++ ws) = trim cs := by
  have hend : ∀ xs, trimEnd (xs ++ ws) = trimEnd xs := by
    intro xs
    unfold trimEnd
    rw [List.reverse_append, List.dropWhile_append_of_pos]
    intro c hc
    exact hw c (List.mem_reverse.1 hc)
  unfold trim trimStart
  rw [List.dropWhile_append]
  split
  · rename_i h
    rw [List.isEmpty_iff.1 h]
    have hnil : ws.dropWhile isBlank = [] := List.dropWhile_eq_nil_iff.2 hw
    rw [hnil]
  · exact hend _

theorem trimEnd_isPrefix (cs : List Char) : trimEnd cs <+: cs := by
  rw [← List.reverse_suffix]
  unfold trimEnd
  rw [List.reverse_reverse]
  exact List.dropWhile_suffix _

theorem trim_isInfix (cs : List Char) : trim cs <:+: cs :=
  (trimEnd_isPrefix _).isInfix.trans (List.dropWhile_suffix _).isInfix

/-- **What is left of a text** when it is trimmed has no blank at either end. -/
theorem tight_trim (cs : List Char) : Tight (trim cs) := by
  constructor
  · -- what is cut off at the end leaves the first character alone
    intro c hc
    obtain ⟨rest, hrest⟩ := trimEnd_isPrefix (trimStart cs)
    apply head?_trimStart cs c
    rw [← hrest, List.head?_append, ← trim, Option.mem_def.1 hc]
    rfl
  · intro c hc
    unfold trim trimEnd at hc
    rw [List.getLast?_reverse] at hc
    exact head?_trimStart _ c hc

theorem tight_of_not_blank (h : ∀ c ∈ w, isBlank c = false) : Tight w :=
  ⟨fun c hc => h c (List.mem_of_head? hc), fun c hc => h c (List.mem_of_getLast? hc)⟩

/-- Whatever stands between them, two tight texts that are not empty make a tight text. -/
theorem Tight.append {xs ys : List Char} (hx : Tight xs) (hxne : xs ≠ []) (mid : List Char)
    (hy : Tight ys) (hyne : ys ≠ []) : Tight (xs ++ (mid ++ ys)) := by
  refine ⟨?_, ?_⟩
  · rw [List.head?_append_of_ne_nil _ hxne]; exact hx.1
  · rw [← List.append_assoc, List.getLast?_append_of_ne_nil _ hyne]; exact hy.2

/-! ## Pieces -/

/-- A part of a joined text stands in it as it is. -/
theorem infix_intercalate (sep : List Char) {part : List Char} {parts : List (List Char)}
    (hp : part ∈ parts) : part <:+: sep.intercalate parts := by
  induction parts with
  | nil => cases hp
  | cons first parts ih =>
    cases parts with
    | nil => rw [List.mem_singleton.1 hp, List.intercalate_singleton]
    | cons second parts =>
      rw [List.intercalate_cons_cons]
      rcases List.mem_cons.1 hp with rfl | hp
      · exact ⟨[], sep ++ sep.intercalate (second :: parts), by simp⟩
      · exact (ih hp).trans (List.suffix_append _ _).isInfix

/-- Cutting a text to pieces changes nothing inside them. -/
theorem infix_of_mem_splitOn {d : Char} {piece : List Char} (hp : piece ∈ cs.splitOn d) :
    piece <:+: cs := by
  have hjoin : [d].intercalate (cs.splitOn d) = cs := List.intercalate_splitOn d
  rw [← hjoin]
  exact infix_intercalate [d] hp

/-- No piece of a text holds a character at which the text is cut. -/
theorem not_of_mem_splitOnP {p : Char → Bool} {piece : List Char} (hp : piece ∈ cs.splitOnP p) :
    ∀ c ∈ piece, p c = false := by
  induction cs generalizing piece with
  | nil =>
    rw [List.splitOnP_nil, List.mem_singleton] at hp
    rw [hp]; exact List.forall_mem_nil _
  | cons c cs ih =>
    rw [List.splitOnP_cons_eq_if_modifyHead] at hp
    split at hp
    · rcases List.mem_cons.1 hp with rfl | hp
      · exact List.forall_mem_nil _
      · exact ih hp
    · rename_i hc
      obtain ⟨first, rest, hsplit⟩ := List.exists_cons_of_ne_nil (List.splitOnP_ne_nil p cs)
      rw [hsplit] at hp
      rcases List.mem_cons.1 hp with rfl | hp
      · have hfirst : first ∈ cs.splitOnP p := by rw [hsplit]; exact List.mem_cons_self
        exact List.forall_mem_cons.2 ⟨by simpa using hc, ih hfirst⟩
      · exact ih (by rw [hsplit]; exact List.mem_cons_of_mem _ hp)

theorem not_mem_of_mem_splitOn {d : Char} {piece : List Char} (hp : piece ∈ cs.splitOn d) : d ∉ piece := by
  rw [List.splitOn_eq_splitOnP] at hp
  intro hd
  simpa using not_of_mem_splitOnP hp d hd

/-! ## Words -/

/-- A word is not empty and has no blanks. -/
theorem word_of_mem_words (h : w ∈ words cs) : w ≠ [] ∧ ∀ c ∈ w, isBlank c = false := by
  obtain ⟨hmem, hne⟩ := List.mem_filter.1 h
  exact ⟨by simpa using hne, not_of_mem_splitOnP hmem⟩

theorem words_of_word (hw : ∀ c ∈ w, isBlank c = false) (hne : w ≠ []) : words w = [w] := by
  unfold words
  rw [List.splitOnP_eq_singleton hw]
  cases w with
  | nil => exact absurd rfl hne
  | cons c w => rfl

/-- A word, a blank, and more words. -/
theorem words_cons (hw : ∀ c ∈ w, isBlank c = false) (hne : w ≠ []) (rest : List Char) :
    words (w ++ ' ' :: rest) = w :: words rest := by
  unfold words
  rw [List.splitOnP_append_cons_of_forall_mem hw ' ' rfl]
  cases w with
  | nil => exact absurd rfl hne
  | cons c w => rfl

theorem firstWord_cons (hw : ∀ c ∈ w, isBlank c = false) (rest : List Char) :
    firstWord (w ++ ' ' :: rest) = w := by
  unfold firstWord
  rw [List.takeWhile_append_of_pos (by simpa using hw), List.takeWhile_cons_of_neg (by decide),
    List.append_nil]

theorem afterWord_cons (hw : ∀ c ∈ w, isBlank c = false) (rest : List Char) :
    afterWord (w ++ ' ' :: rest) = ' ' :: rest := by
  unfold afterWord
  rw [List.dropWhile_append_of_pos (by simpa using hw), List.dropWhile_cons_of_neg (by decide)]

/-! ## Numerals -/

theorem isDigit_of_mem_toDigits {n : ℕ} {c : Char} (h : c ∈ Nat.toDigits 10 n) : c.isDigit = true :=
  Nat.isDigit_of_mem_toDigits (by decide) (by decide) h

theorem not_blank_of_isDigit {c : Char} (h : c.isDigit = true) : isBlank c = false := by
  have hr : 48 ≤ c.toNat ∧ c.toNat ≤ 57 := by
    simp only [Char.isDigit, Bool.and_eq_true, decide_eq_true_eq] at h
    exact ⟨h.1, h.2⟩
  unfold isBlank blankRanges
  simp only [List.any_cons, List.any_nil, Bool.or_false, Bool.or_eq_false_iff, Bool.and_eq_false_iff,
    decide_eq_false_iff_not]
  omega

/-- Digits that are not preceded by a sign. -/
theorem index?_of_isDigit {c : Char} (hc : c.isDigit = true) (cs : List Char) :
    index? (c :: cs) = (digits? (c :: cs)).filter fun n => decide (n ≤ maxIndex) := by
  unfold index?
  split
  · rename_i heq
    cases heq
    exact absurd hc (by decide)
  · rfl

theorem count?_of_isDigit {c : Char} (hc : c.isDigit = true) (cs : List Char) :
    count? (c :: cs) =
      ((digits? (c :: cs)).filter fun n => decide (n ≤ maxCount)).map Int.ofNat := by
  unfold count?
  split
  · rename_i heq
    cases heq
    exact absurd hc (by decide)
  · rename_i heq
    cases heq
    exact absurd hc (by decide)
  · rfl

theorem exists_cons_toDigits (n : ℕ) :
    ∃ c cs, Nat.toDigits 10 n = c :: cs ∧ c.isDigit = true := by
  obtain ⟨c, cs, h⟩ := List.exists_cons_of_ne_nil (Nat.toDigits_ne_nil (b := 10) (n := n))
  exact ⟨c, cs, h, isDigit_of_mem_toDigits (h ▸ List.mem_cons_self)⟩

/-- **An index reads back** from its decimal numeral. -/
theorem index?_toDigits {n : ℕ} (h : n ≤ maxIndex) : index? (Nat.toDigits 10 n) = some n := by
  obtain ⟨c, cs, hcs, hc⟩ := exists_cons_toDigits n
  have hd := digits?_toDigits n
  rw [hcs] at hd ⊢
  rw [index?_of_isDigit hc, hd]
  simp [Option.filter, h]

/-- **A repeat count reads back** from its decimal numeral. -/
theorem count?_repr {k : ℤ} (h1 : -(maxCount : ℤ) - 1 ≤ k) (h2 : k ≤ maxCount) :
    count? k.repr.toList = some k := by
  rw [Int.repr_eq_if]
  split
  · rename_i hk
    rw [Nat.toList_repr]
    obtain ⟨c, cs, hcs, hc⟩ := exists_cons_toDigits k.toNat
    have hd := digits?_toDigits k.toNat
    have hle : k.toNat ≤ maxCount := by omega
    rw [hcs] at hd ⊢
    rw [count?_of_isDigit hc, hd]
    simp [Option.filter, hle, hk]
  · rename_i hk
    have hle : (-k).toNat ≤ maxCount + 1 := by omega
    rw [String.toList_append, Nat.toList_repr]
    show ((digits? (Nat.toDigits 10 (-k).toNat)).filter fun n => decide (n ≤ maxCount + 1)).map
      (fun n => -(n : ℤ)) = some k
    rw [digits?_toDigits]
    simp [Option.filter, hle]
    omega

theorem le_of_index? {n : ℕ} (h : index? cs = some n) : n ≤ maxIndex := by
  unfold index? at h
  split at h
  · exact of_decide_eq_true (Option.filter_eq_some_iff.1 h).2
  · exact of_decide_eq_true (Option.filter_eq_some_iff.1 h).2

/-- **A repeat count that is read** has 64 bits. -/
theorem bounds_of_count? {k : ℤ} (h : count? cs = some k) : -(maxCount : ℤ) - 1 ≤ k ∧ k ≤ maxCount := by
  unfold count? at h
  split at h
  · obtain ⟨k, hk, rfl⟩ := Option.map_eq_some_iff.1 h
    obtain ⟨n, hn, hcast⟩ := Option.bind_eq_some_iff.1 hk
    obtain rfl : (n : ℤ) = k := Option.some.inj hcast
    have hle : n ≤ maxCount + 1 := of_decide_eq_true (Option.filter_eq_some_iff.1 hn).2
    omega
  · obtain ⟨n, hn, rfl⟩ := Option.map_eq_some_iff.1 h
    have hle : n ≤ maxCount := of_decide_eq_true (Option.filter_eq_some_iff.1 hn).2
    exact ⟨by simp; omega, by simpa using hle⟩
  · obtain ⟨n, hn, rfl⟩ := Option.map_eq_some_iff.1 h
    have hle : n ≤ maxCount := of_decide_eq_true (Option.filter_eq_some_iff.1 hn).2
    exact ⟨by simp; omega, by simpa using hle⟩

/-! ## Lines -/

/-- **Joined lines come apart again**, if none is empty, has a line feed or ends in a return. -/
theorem lines_intercalate {ls : List (List Char)} (hne : ∀ l ∈ ls, l ≠ [])
    (hlf : ∀ l ∈ ls, '\n' ∉ l) (hcr : ∀ l ∈ ls, l.getLast? ≠ some '\r') :
    lines (['\n'].intercalate ls) = ls := by
  -- the last line is apart, as an empty one there would be dropped
  rcases List.eq_nil_or_concat ls with rfl | ⟨init, last, rfl⟩
  · rfl
  · unfold lines
    rw [List.splitOn_intercalate '\n' hlf (by simp)]
    have hlast := hne last (by simp)
    have hdrop : init.map dropReturn = init := by
      conv_rhs => rw [← List.map_id init]
      apply List.map_congr_left
      intro l hl
      unfold dropReturn
      rw [if_neg (hcr l (by simp [hl]))]; rfl
    simp [hdrop, Option.filter, hlast]

end Text

namespace Script

open Text

/-- A command word with arguments behind it. -/
theorem statement?_of_word {w arguments : List Char} (hw : ∀ c ∈ w, isBlank c = false) (hne : w ≠ [])
    (hash : w.head? ≠ some '#') (ht : Tight arguments) (hargs : arguments ≠ []) :
    statement? (w ++ ' ' :: arguments) = some (String.ofList w, arguments) := by
  have htrim : trim (w ++ ' ' :: arguments) = w ++ ' ' :: arguments :=
    trim_eq_self_iff.2 ((tight_of_not_blank hw).append hne [' '] ht hargs)
  have hrest : trim (' ' :: arguments) = arguments := by
    rw [← List.singleton_append, trim_blanks_append (by simp; decide), trim_eq_self_iff.2 ht]
  unfold statement?
  rw [htrim]
  split
  · rename_i heq; simp at heq
  · rename_i heq
    have hhead : (w ++ ' ' :: arguments).head? = w.head? := List.head?_append_of_ne_nil w hne
    rw [← hhead, heq] at hash
    exact absurd rfl hash
  · rw [firstWord_cons hw, afterWord_cons hw, hrest]

/-- A command word alone. -/
theorem statement?_of_bare {w : List Char} (hw : ∀ c ∈ w, isBlank c = false) (hne : w ≠ [])
    (hash : w.head? ≠ some '#') : statement? w = some (String.ofList w, []) := by
  have htrim : trim w = w := trim_eq_self_iff.2 (tight_of_not_blank hw)
  unfold statement?
  rw [htrim]
  split
  · exact absurd rfl hne
  · exact absurd rfl hash
  · unfold firstWord afterWord
    rw [List.takeWhile_eq_self_iff.2 (by simpa using hw), List.dropWhile_eq_nil_iff.2 (by simpa using hw),
      trim_nil]

namespace Command

/-! ## Arrows -/

/-- **A text is split at an arrow** exactly if it contains one. -/
theorem splitArrow?_eq_none_iff (cs : List Char) :
    splitArrow? cs = none ↔ ¬ ['-', '>'] <:+: cs := by
  fun_induction splitArrow? cs with
  | case1 => simp
  | case2 after => simp [List.infix_cons_iff]
  | case3 c cs hne ih =>
    rw [Option.map_eq_none_iff, ih, List.infix_cons_iff, not_or]
    constructor
    · intro h
      refine ⟨?_, h⟩
      rintro ⟨t, ht⟩
      simp only [List.cons_append, List.nil_append, List.cons.injEq] at ht
      exact hne t ht.1.symm ht.2.symm
    · exact fun h => h.2

/-- No arrow arises where two texts meet, unless its halves meet there. -/
theorem splitArrow?_append {xs ys : List Char} (hx : splitArrow? xs = none)
    (hy : splitArrow? ys = none) (hmeet : xs.getLast? = some '-' → ys.head? ≠ some '>') :
    splitArrow? (xs ++ ys) = none := by
  induction xs with
  | nil => exact hy
  | cons c xs ih =>
    rw [splitArrow?_eq_none_iff, List.infix_cons_iff, not_or, ← splitArrow?_eq_none_iff] at hx
    have hrest : splitArrow? (xs ++ ys) = none := by
      apply ih hx.2
      intro hlast
      exact hmeet (by rw [List.getLast?_cons, hlast]; rfl)
    rw [List.cons_append, splitArrow?_eq_none_iff, List.infix_cons_iff, not_or,
      ← splitArrow?_eq_none_iff]
    refine ⟨?_, hrest⟩
    rintro ⟨t, ht⟩
    simp only [List.cons_append, List.nil_append, List.cons.injEq] at ht
    obtain ⟨rfl, ht⟩ := ht
    -- an arrow at the head lies across the border only if `xs` ends here
    cases xs with
    | nil => rw [List.nil_append] at ht; exact hmeet rfl (by rw [← ht]; rfl)
    | cons d xs =>
      simp only [List.cons_append, List.cons.injEq] at ht
      obtain ⟨rfl, -⟩ := ht
      exact hx.1 ⟨xs, rfl⟩

/-- **The first arrow** of a text is the one behind a part that has none. -/
theorem splitArrow?_arrow {xs : List Char} (hx : splitArrow? xs = none) (ys : List Char) :
    splitArrow? (xs ++ '-' :: '>' :: ys) = some (xs, ys) := by
  induction xs with
  | nil => rfl
  | cons c xs ih =>
    rw [splitArrow?_eq_none_iff, List.infix_cons_iff, not_or, ← splitArrow?_eq_none_iff] at hx
    rw [List.cons_append]
    -- the head of the text does not start an arrow, with or without what follows
    have hne : ∀ t, c = '-' → xs ++ '-' :: '>' :: ys = '>' :: t → False := by
      rintro t rfl ht
      cases xs with
      | nil => simp at ht
      | cons d xs =>
        simp only [List.cons_append, List.cons.injEq] at ht
        obtain ⟨rfl, -⟩ := ht
        exact hx.1 ⟨xs, rfl⟩
    rw [splitArrow?.eq_3 c _ hne, ih hx.2]
    rfl

/-- **Where a text is split**: at its first arrow. -/
theorem splitArrow?_eq_some_iff {cs xs ys : List Char} :
    splitArrow? cs = some (xs, ys) ↔ splitArrow? xs = none ∧ cs = xs ++ '-' :: '>' :: ys := by
  constructor
  · intro h
    fun_induction splitArrow? cs generalizing xs with
    | case1 => cases h
    | case2 after =>
      obtain ⟨rfl, rfl⟩ := Prod.mk.inj (Option.some.inj h)
      exact ⟨rfl, rfl⟩
    | case3 c cs hne ih =>
      obtain ⟨⟨before, after⟩, hsplit, heq⟩ := Option.map_eq_some_iff.1 h
      obtain ⟨rfl, rfl⟩ := Prod.mk.inj heq
      obtain ⟨hnone, rfl⟩ := ih hsplit
      refine ⟨?_, rfl⟩
      -- the character in front does not make an arrow with what follows it
      have hne' : ∀ t, c = '-' → before = '>' :: t → False := by
        rintro t rfl rfl
        exact hne (t ++ '-' :: '>' :: after) rfl rfl
      rw [splitArrow?.eq_3 c before hne', hnone]
      rfl
  · rintro ⟨hnone, rfl⟩
    exact splitArrow?_arrow hnone ys

/-! ## Fields -/

theorem listName_blank {name : List Char} (hw : ∀ c ∈ name, isBlank c = false) (hne : name ≠ []) :
    listName (' ' :: name) = .ok (String.ofList name) := by
  have htrim : trim (' ' :: name) = name := by
    rw [← List.singleton_append, trim_blanks_append (by simp; decide),
      trim_eq_self_iff.2 (tight_of_not_blank hw)]
  have hany : name.any isBlank = false := by simpa using hw
  have hemp : name.isEmpty = false := by simpa using hne
  unfold listName
  simp only [htrim, hany, hemp, Bool.or_false, Bool.false_eq_true, if_false]

theorem field?_text {text : List Char} (hne : text ≠ []) (hdash : text ≠ ['-']) :
    field? text = some (String.ofList text) := by
  have hemp : text.isEmpty = false := by simpa using hne
  have hd : (text == ['-']) = false := by simpa using hdash
  unfold field?
  simp only [hemp, hd, Bool.or_false, Bool.false_eq_true, if_false]

/-- Four tight fields with bars and single blanks between them, and blanks behind them. -/
theorem fields_of_bars {op a₁ a₂ a₃ blanks : List Char} (hop : Tight op) (h₁ : Tight a₁)
    (h₂ : Tight a₂) (h₃ : Tight a₃) (hb : ∀ c ∈ blanks, isBlank c = true) (hbop : '|' ∉ op)
    (hb₁ : '|' ∉ a₁) (hb₂ : '|' ∉ a₂) (hb₃ : '|' ∉ a₃) :
    ((op ++ " | ".toList ++ a₁ ++ " | ".toList ++ a₂ ++ " | ".toList ++ a₃ ++ blanks).splitOn
      '|').map trim = [op, a₁, a₂, a₃] := by
  have hbar : ∀ {xs : List Char}, '|' ∉ xs → '|' ∉ xs ++ [' '] := by simp
  have hblanks : '|' ∉ blanks := fun h => absurd (hb _ h) (by decide)
  have hsplit : op ++ " | ".toList ++ a₁ ++ " | ".toList ++ a₂ ++ " | ".toList ++ a₃ ++ blanks =
      (op ++ [' ']) ++ '|' :: ((' ' :: (a₁ ++ [' '])) ++ '|' :: ((' ' :: (a₂ ++ [' '])) ++
        '|' :: (' ' :: (a₃ ++ blanks)))) := by
    have hsep : " | ".toList = [' ', '|', ' '] := rfl
    simp [hsep]
  have htrim : ∀ {xs ws : List Char}, Tight xs → (∀ c ∈ ws, isBlank c = true) →
      trim (' ' :: (xs ++ ws)) = xs := by
    intro xs ws hx hw
    rw [← List.singleton_append, trim_blanks_append (by simp; decide), trim_append_blanks hw,
      trim_eq_self_iff.2 hx]
  have hspace : ∀ c ∈ [' '], isBlank c = true := by simp; decide
  rw [hsplit, List.splitOn_append_cons_self_of_not_mem (hbar hbop),
    List.splitOn_append_cons_self_of_not_mem (by simpa using hb₁),
    List.splitOn_append_cons_self_of_not_mem (by simpa using hb₂),
    List.splitOn_eq_singleton (by simpa using ⟨hb₃, hblanks⟩)]
  simp only [List.map_cons, List.map_nil]
  rw [trim_append_blanks hspace, trim_eq_self_iff.2 hop, htrim h₁ hspace, htrim h₂ hspace, htrim h₃ hb]

end Command

end Script

end ThreeAddress
