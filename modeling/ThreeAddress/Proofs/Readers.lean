import Mathlib.Tactic
import ThreeAddress.Settings.Grammar

/-!
# What readers leave

A reader is known by what it finds at the front of a text and by what it leaves of it.

* `bind_apply`, `orElse_apply`, `map_apply`: how a composed reader reads.
* `Forward`: a reader leaves an end of the text. `Advances`: it leaves less than it was given. Both pass
  from the parts of a reader to the whole, so for most readers they are found by inference.
* `many_of_some`, `many_of_none`: **reading as often as possible**, one time after the other. A reader that
  advances is never cut short by the bound on the number of times.
-/

namespace ThreeAddress.Settings

namespace Reader

variable {α β : Type} {r r' : Reader α} {f : α → Reader β} {cs rest : List Char}

/-! ## Composed readers -/

theorem bind_apply (r : Reader α) (f : α → Reader β) (cs : List Char) :
    (r >>= f) cs = (r cs).bind fun p => f p.1 p.2 := rfl

theorem orElse_apply (r r' : Reader α) (cs : List Char) : (r <|> r') cs = (r cs).or (r' cs) := by
  show (r cs <|> r' cs) = _
  cases r cs with
  | none => rfl
  | some p => rfl

theorem map_apply (f : α → β) (r : Reader α) (cs : List Char) :
    (f <$> r) cs = (r cs).map fun p => (f p.1, p.2) := by
  show ((r cs).bind fun p => pure (f p.1, p.2)) = _
  cases r cs with
  | none => rfl
  | some p => rfl

theorem bind_eq_some_iff {b : β} :
    (r >>= f) cs = some (b, rest) ↔ ∃ a mid, r cs = some (a, mid) ∧ f a mid = some (b, rest) := by
  rw [bind_apply, Option.bind_eq_some_iff]
  constructor
  · rintro ⟨⟨a, mid⟩, h1, h2⟩
    exact ⟨a, mid, h1, h2⟩
  · rintro ⟨a, mid, h1, h2⟩
    exact ⟨(a, mid), h1, h2⟩

theorem orElse_eq_some {a : α} (h : (r <|> r') cs = some (a, rest)) :
    r cs = some (a, rest) ∨ r' cs = some (a, rest) := by
  rw [orElse_apply, Option.or_eq_some_iff] at h
  exact h.imp_right And.right

theorem orElse_of_some {p : α × List Char} (h : r cs = some p) : (r <|> r') cs = some p := by
  rw [orElse_apply, h]; rfl

theorem orElse_of_none (h : r cs = none) : (r <|> r') cs = r' cs := by
  rw [orElse_apply, h]; rfl

theorem bind_of_some {a : α} {mid : List Char} (h : r cs = some (a, mid)) : (r >>= f) cs = f a mid := by
  rw [bind_apply, h]; rfl

theorem bind_of_none (h : r cs = none) : (r >>= f) cs = none := by
  rw [bind_apply, h]; rfl

theorem map_eq_some {g : α → β} {b : β} (h : (g <$> r) cs = some (b, rest)) :
    ∃ a, r cs = some (a, rest) ∧ b = g a := by
  rw [map_apply] at h
  obtain ⟨⟨a, left⟩, hr, heq⟩ := Option.map_eq_some_iff.1 h
  obtain ⟨rfl, rfl⟩ := Prod.mk.inj heq
  exact ⟨a, hr, rfl⟩

theorem optional?_of_some {a : α} (h : r cs = some (a, rest)) : optional? r cs = some (some a, rest) := by
  unfold optional?
  apply orElse_of_some
  rw [map_apply, h]; rfl

theorem optional?_of_none (h : r cs = none) : optional? r cs = some (none, cs) := by
  unfold optional?
  rw [orElse_of_none]
  · rfl
  · rw [map_apply, h]; rfl

theorem located_of_some {a : α} (h : r cs = some (a, rest)) :
    located r cs = some ((a, ⟨cs.length, rest.length⟩), rest) := by
  unfold located
  rw [h]; rfl

theorem located_of_none (h : r cs = none) : located r cs = none := by
  unfold located
  rw [h]; rfl

theorem located_eq_some {p : α × Span} (h : located r cs = some (p, rest)) :
    r cs = some (p.1, rest) ∧ p.2 = ⟨cs.length, rest.length⟩ := by
  unfold located at h
  obtain ⟨⟨a, left⟩, hr, heq⟩ := Option.map_eq_some_iff.1 h
  cases heq
  exact ⟨hr, rfl⟩

/-! ## Single characters and runs -/

theorem char_eq_some {p : Char → Bool} {c : Char} (h : char p cs = some (c, rest)) :
    cs = c :: rest ∧ p c = true := by
  unfold char at h
  split at h
  · split at h
    · rename_i hp
      cases h
      exact ⟨rfl, hp⟩
    · cases h
  · cases h

theorem char_of_head {p : Char → Bool} (h : ∀ c ∈ cs.head?, p c = false) : char p cs = none := by
  cases cs with
  | nil => rfl
  | cons c cs =>
    show (if p c = true then some (c, cs) else none) = none
    rw [if_neg (by simp [h c rfl])]

theorem char_cons {p : Char → Bool} {c : Char} (h : p c = true) : char p (c :: rest) = some (c, rest) := by
  show (if p c = true then some (c, rest) else none) = _
  rw [if_pos h]

theorem the_cons (c : Char) (rest : List Char) : the c (c :: rest) = some ((), rest) := by
  unfold the
  rw [bind_of_some (char_cons (by simp))]; rfl

theorem the_of_head {c : Char} (h : cs.head? ≠ some c) : the c cs = none := by
  unfold the
  apply bind_of_none
  apply char_of_head
  rintro d hd
  rw [beq_eq_false_iff_ne]
  rintro rfl
  exact h hd

theorem row_of_head {c : Char} (h : cs.head? ≠ some c) (text : List Char) : row (c :: text) cs = none := by
  unfold row
  exact bind_of_none (the_of_head h)

/-- A run takes the characters of its class, up to one that is not of it. -/
theorem run_append {p : Char → Bool} {text : List Char} (h : ∀ c ∈ text, p c = true)
    (hrest : ∀ c ∈ rest.head?, p c = false) : run p (text ++ rest) = some (text, rest) := by
  have hstop : rest.takeWhile p = [] ∧ rest.dropWhile p = rest := by
    cases rest with
    | nil => exact ⟨rfl, rfl⟩
    | cons c rest => simp [hrest c rfl]
  unfold run
  rw [List.takeWhile_append_of_pos h, List.dropWhile_append_of_pos h, hstop.1, hstop.2, List.append_nil]

theorem run1_append {p : Char → Bool} {text : List Char} (h : ∀ c ∈ text, p c = true) (hne : text ≠ [])
    (hrest : ∀ c ∈ rest.head?, p c = false) : run1 p (text ++ rest) = some (text, rest) := by
  cases text with
  | nil => exact absurd rfl hne
  | cons c text =>
    obtain ⟨hc, htext⟩ := List.forall_mem_cons.1 h
    unfold run1
    rw [List.cons_append, bind_of_some (char_cons hc), bind_of_some (run_append htext hrest)]
    rfl

/-! ## Going forward -/

/-- A reader **goes forward** if what it leaves is an end of the text. -/
class Forward (r : Reader α) : Prop where
  suffix : ∀ {cs a rest}, r cs = some (a, rest) → rest <:+ cs

/-- A reader **advances** if it leaves less than it was given. -/
class Advances (r : Reader α) : Prop where
  length_lt : ∀ {cs a rest}, r cs = some (a, rest) → rest.length < cs.length

theorem Forward.length_le [Forward r] {a : α} (h : r cs = some (a, rest)) : rest.length ≤ cs.length :=
  (Forward.suffix h).length_le

instance (a : α) : Forward (pure a) where
  suffix h := by cases h; exact List.suffix_rfl

instance : Forward (failure : Reader α) where
  suffix h := by cases h

instance : Advances (failure : Reader α) where
  length_lt h := by cases h

instance [Forward r] [∀ a, Forward (f a)] : Forward (r >>= f) where
  suffix h := by
    obtain ⟨a, mid, h1, h2⟩ := bind_eq_some_iff.1 h
    exact (Forward.suffix h2).trans (Forward.suffix h1)

instance [Advances r] [∀ a, Forward (f a)] : Advances (r >>= f) where
  length_lt h := by
    obtain ⟨a, mid, h1, h2⟩ := bind_eq_some_iff.1 h
    exact (Forward.length_le h2).trans_lt (Advances.length_lt h1)

instance [Forward r] [∀ a, Advances (f a)] : Advances (r >>= f) where
  length_lt h := by
    obtain ⟨a, mid, h1, h2⟩ := bind_eq_some_iff.1 h
    exact (Advances.length_lt h2).trans_le (Forward.length_le h1)

instance [Forward r] [Forward r'] : Forward (r <|> r') where
  suffix h := (orElse_eq_some h).elim Forward.suffix Forward.suffix

instance [Advances r] [Advances r'] : Advances (r <|> r') where
  length_lt h := (orElse_eq_some h).elim Advances.length_lt Advances.length_lt

instance (g : α → β) [Forward r] : Forward (g <$> r) where
  suffix h := by
    obtain ⟨a, hr, -⟩ := map_eq_some h
    exact Forward.suffix hr

instance (g : α → β) [Advances r] : Advances (g <$> r) where
  length_lt h := by
    obtain ⟨a, hr, -⟩ := map_eq_some h
    exact Advances.length_lt hr

instance (c : Prop) [Decidable c] [Forward r] [Forward r'] : Forward (if c then r else r') := by
  split
  · infer_instance
  · infer_instance

instance [Forward r] : Forward (located r) where
  suffix h := Forward.suffix (located_eq_some h).1

instance [Advances r] : Advances (located r) where
  length_lt h := Advances.length_lt (located_eq_some h).1

instance (p : Char → Bool) : Advances (char p) where
  length_lt h := by rw [(char_eq_some h).1]; exact Nat.lt_succ_self _

instance (p : Char → Bool) : Forward (char p) where
  suffix h := by rw [(char_eq_some h).1]; exact List.suffix_cons _ _

instance (c : Char) : Forward (the c) := by unfold the; infer_instance

instance (c : Char) : Advances (the c) := by unfold the; infer_instance

instance (text : List Char) : Forward (row text) := by
  induction text with
  | nil => unfold row; infer_instance
  | cons c text ih => unfold row; infer_instance

instance (c : Char) (text : List Char) : Advances (row (c :: text)) := by unfold row; infer_instance

instance (p : Char → Bool) : Forward (run p) where
  suffix h := by cases h; exact List.dropWhile_suffix _

instance (p : Char → Bool) : Forward (run1 p) := by unfold run1; infer_instance

instance (p : Char → Bool) : Advances (run1 p) := by unfold run1; infer_instance

instance : Forward atEnd where
  suffix {cs _ _} h := by
    cases cs with
    | nil => cases h; exact List.suffix_rfl
    | cons c cs => cases h

instance [Forward r] : Forward (optional? r) := by unfold optional?; infer_instance

instance [Forward r] (n : ℕ) : Forward (upTo r n) := by
  induction n with
  | zero => unfold upTo; infer_instance
  | succ n ih => unfold upTo; infer_instance

instance [Forward r] : Forward (many r) where
  suffix {cs _ _} h := Forward.suffix (r := upTo r cs.length) h

instance [Forward r] (l : List β) : Forward (l.mapM fun _ => r) := by
  induction l with
  | nil => rw [List.mapM_nil]; infer_instance
  | cons a l ih => rw [List.mapM_cons]; infer_instance

/-! ## Reading as often as possible -/

theorem upTo_of_none (h : r cs = none) (n : ℕ) : upTo r n cs = some ([], cs) := by
  cases n with
  | zero => rfl
  | succ n =>
    unfold upTo
    rw [orElse_of_none (bind_of_none h)]; rfl

/-- Reading as often as possible does not fail. -/
theorem exists_upTo (r : Reader α) (n : ℕ) (cs : List Char) : ∃ as left, upTo r n cs = some (as, left) := by
  cases n with
  | zero => exact ⟨[], cs, rfl⟩
  | succ n =>
    unfold upTo
    rw [orElse_apply]
    cases hfirst : (do let a ← r; let as ← upTo r n; return a :: as : Reader (List α)) cs with
    | none => exact ⟨[], cs, rfl⟩
    | some p => exact ⟨p.1, p.2, rfl⟩

theorem upTo_of_some {a : α} (h : r cs = some (a, rest)) (n : ℕ) :
    upTo r (n + 1) cs = (upTo r n rest).map fun p => (a :: p.1, p.2) := by
  obtain ⟨as, left, hrest⟩ := exists_upTo r n rest
  rw [hrest, upTo]
  apply orElse_of_some
  rw [bind_of_some h, bind_of_some hrest]; rfl

/-- A bound on the number of times makes no difference if it is not less than the length of the text. -/
theorem upTo_congr [Advances r] (n : ℕ) : ∀ {m : ℕ} {cs : List Char}, cs.length ≤ n → cs.length ≤ m →
    upTo r n cs = upTo r m cs := by
  induction n with
  | zero =>
    intro m cs hn hm
    have hread : r cs = none := by
      rw [Option.eq_none_iff_forall_ne_some]
      rintro ⟨a, rest⟩ hread
      have hlt := Advances.length_lt hread
      omega
    rw [upTo_of_none hread, upTo_of_none hread]
  | succ n ih =>
    intro m cs hn hm
    cases hread : r cs with
    | none => rw [upTo_of_none hread, upTo_of_none hread]
    | some p =>
      have hlt := Advances.length_lt hread
      obtain ⟨m, rfl⟩ : ∃ k, m = k + 1 := ⟨m - 1, by omega⟩
      have hrest : upTo r n p.2 = upTo r m p.2 := ih (by omega) (by omega)
      rw [upTo_of_some hread, upTo_of_some hread, hrest]

theorem many_of_none (h : r cs = none) : many r cs = some ([], cs) := upTo_of_none h _

/-- **One time more**: what a reader finds first is followed by what it finds from there on. -/
theorem many_of_some [Advances r] {a : α} (h : r cs = some (a, rest)) :
    many r cs = (many r rest).map fun p => (a :: p.1, p.2) := by
  have hlt := Advances.length_lt h
  obtain ⟨n, hn⟩ : ∃ n, cs.length = n + 1 := ⟨cs.length - 1, by omega⟩
  rw [many, hn, upTo_of_some h, upTo_congr n (by omega) le_rfl]; rfl

end Reader

open Reader

/-! ## The readers of documents -/

-- a reader has as many parts as its `do` block has lines, and each is a step of the inference
set_option synthInstance.maxSize 512

instance : Forward blanks := by unfold blanks; infer_instance

instance : Forward newline := by unfold newline; infer_instance

instance : Advances newline := by unfold newline; infer_instance

instance : Forward lineEnd := by unfold lineEnd; infer_instance

instance : Forward comment := by unfold comment; infer_instance

instance : Advances comment := by unfold comment; infer_instance

instance : Forward trailing := by unfold trailing; infer_instance

instance : Forward gap := by unfold gap; infer_instance

instance (count : ℕ) : Forward (codePoint count) := by unfold codePoint; infer_instance

instance {α : Type} (found : Option α) : Forward (found.elim (failure : Reader α) pure) := by
  cases found with
  | none => exact inferInstanceAs (Forward failure)
  | some a => exact inferInstanceAs (Forward (pure a))

instance : Forward escape := by unfold escape; infer_instance

instance : Forward basicString := by unfold basicString; infer_instance

instance : Advances basicString := by unfold basicString; infer_instance

instance : Forward literalString := by unfold literalString; infer_instance

instance : Advances literalString := by unfold literalString; infer_instance

instance : Forward joinedLines := by unfold joinedLines; infer_instance

instance (quote : Char) : Forward (looseQuote quote) where
  suffix {cs _ _} h := by
    unfold looseQuote at h
    split at h
    · split at h
      · cases h
        exact List.suffix_cons _ _
      · cases h
    · cases h

instance (quote : Char) : Forward (closing quote) where
  suffix {cs _ _} h := by
    unfold closing at h
    simp only at h
    split at h
    · cases h
    · cases h
      exact List.drop_suffix _ _

instance : Forward longBasicString := by unfold longBasicString; infer_instance

instance : Forward longLiteralString := by unfold longLiteralString; infer_instance

instance : Forward string := by unfold string; infer_instance

instance (count : ℕ) : Forward (fixedDigits count) := by unfold fixedDigits; infer_instance

instance (low high : ℕ) : Forward (twoDigits low high) := by unfold twoDigits; infer_instance

instance : Forward date := by unfold date; infer_instance

instance : Forward timeOfDay := by unfold timeOfDay; infer_instance

instance : Forward offset := by unfold offset; infer_instance

instance : Forward moment := by unfold moment; infer_instance

instance (isDigit : Char → Bool) : Forward (moreDigits isDigit) := by unfold moreDigits; infer_instance

instance (isDigit : Char → Bool) : Forward (digits isDigit) := by unfold digits; infer_instance

instance : Forward wholeDigits := by unfold wholeDigits; infer_instance

instance : Forward sign := by unfold sign; infer_instance

instance (n : ℤ) : Forward (int64 n) := by unfold int64; infer_instance

instance (mark : Char) (base : ℕ) (isDigit : Char → Bool) :
    Forward (basedInteger mark base isDigit) := by
  unfold basedInteger; infer_instance

instance : Forward integer := by unfold integer; infer_instance

instance : Forward fraction := by unfold fraction; infer_instance

instance : Forward exponent := by unfold exponent; infer_instance

instance : Forward decimalFloat := by unfold decimalFloat; infer_instance

instance : Forward specialFloat := by unfold specialFloat; infer_instance

instance : Forward float := by unfold float; infer_instance

instance : Forward scalar := by unfold scalar; infer_instance

instance : Forward keyPart := by unfold keyPart; infer_instance

instance : Advances keyPart := by unfold keyPart; infer_instance

/-- The first part of a dotted key, which belongs to the table that the key is read in. -/
def Path.root (p : Path) : Key := p.parents.headD p.last

theorem path_eq_some {cs rest : List Char} {p : Path} (h : path cs = some (p, rest)) :
    ∃ mid parts, keyPart cs = some (p.root, mid) ∧
      many (do the '.'; keyPart) mid = some (parts, rest) := by
  unfold path at h
  obtain ⟨first, mid, hfirst, h⟩ := bind_eq_some_iff.1 h
  obtain ⟨parts, left, hparts, h⟩ := bind_eq_some_iff.1 h
  split at h
  · cases h
  · split at h
    · cases h
      exact ⟨mid, parts, hfirst, hparts⟩
    · cases h
      exact ⟨mid, parts, hfirst, hparts⟩

instance : Forward path where
  suffix h := by
    obtain ⟨mid, parts, hfirst, hparts⟩ := path_eq_some h
    exact (Forward.suffix hparts).trans (Forward.suffix hfirst)

instance : Advances path where
  length_lt h := by
    obtain ⟨mid, parts, hfirst, hparts⟩ := path_eq_some h
    exact (Forward.length_le hparts).trans_lt (Advances.length_lt hfirst)

variable {r : Reader Node}

instance [Forward r] : Forward (array r) := by unfold array; infer_instance

instance [Forward r] : Forward (assignment r) := by unfold assignment; infer_instance

instance [Forward r] : Advances (assignment r) := by unfold assignment; infer_instance

theorem inlineTable_eq_some [Forward r] {cs rest : List Char} {node : Node}
    (h : inlineTable r cs = some (node, rest)) :
    (∃ entries, node = .table .inline entries) ∧ rest <:+ cs := by
  unfold inlineTable at h
  obtain ⟨_, text₁, hopen, h⟩ := bind_eq_some_iff.1 h
  obtain ⟨_, text₂, hblanks, h⟩ := bind_eq_some_iff.1 h
  obtain ⟨as, text₃, hassign, h⟩ := bind_eq_some_iff.1 h
  obtain ⟨_, text₄, hblanks', h⟩ := bind_eq_some_iff.1 h
  obtain ⟨_, text₅, hclose, h⟩ := bind_eq_some_iff.1 h
  have hsuffix := (Forward.suffix hclose).trans <| (Forward.suffix hblanks').trans <|
    (Forward.suffix hassign).trans <| (Forward.suffix hblanks).trans (Forward.suffix hopen)
  cases hentries : assignAll .inline [] (as.getD []) with
  | none =>
    rw [hentries] at h
    cases h
  | some entries =>
    rw [hentries] at h
    cases h
    exact ⟨⟨entries, rfl⟩, hsuffix⟩

instance [Forward r] : Forward (inlineTable r) where
  suffix h := (inlineTable_eq_some h).2

instance (depth : ℕ) : Forward (value depth) := by
  induction depth with
  | zero => unfold value; infer_instance
  | succ depth ih => unfold value; infer_instance

instance : Forward header := by unfold header; infer_instance

instance : Advances header := by unfold header; infer_instance

instance : Advances statement := by unfold statement; infer_instance

instance : Forward statement := by unfold statement; infer_instance

end ThreeAddress.Settings
