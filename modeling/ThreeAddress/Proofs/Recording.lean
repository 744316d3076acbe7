import ThreeAddress.Proofs.Reading

/-!
# Scripts as records of calls

A caller of the library holds a builder and pending lists by name, and makes calls one after another
until one fails (`Call.make`, `makeAll`). Each call stands for a command, and each command has a canonical
line (`Command.line`), so calls can be written as a script (`script`).

* `Call.Writable`: the calls whose texts survive being written.
* `decode_line`: **a command that can be written is what its canonical line says.**
* `perform_command`: performing that command is making the call.
* `run_script`: hence **replaying the script is making the calls**, up to the first error.
-/

namespace ThreeAddress.Script

/-- What the caller of the library holds. -/
structure Workspace where
  builder : Builder
  lists : NamedLists
deriving DecidableEq, Repr

/-- A call of the library, or of the lists that the caller keeps. -/
inductive Call where
  /-- Emit an instruction; if a list is named, push its index there. -/
  | emit (mnemonic : String) (arg1 arg2 dest list : Option String)
  | temporary
  | label
  | merge (into source : String)
  | patch (list : String) (target : ℕ)
  | unroll (start stop : ℕ) (times : ℤ)
  | reset
deriving DecidableEq, Repr

/-- A text that can stand between the bars of a line. -/
structure IsField (text : String) : Prop where
  ne : text ≠ ""
  trimmed : Text.trim text.toList = text.toList
  bar : '|' ∉ text.toList
  feed : '\n' ∉ text.toList
  arrow : ¬ ['-', '>'] <:+: text.toList

/-- A text that can name a list. -/
structure IsName (text : String) : Prop where
  ne : text ≠ ""
  blank : ∀ c ∈ text.toList, Text.isBlank c = false

instance (text : String) : Decidable (IsField text) :=
  decidable_of_iff (text ≠ "" ∧ Text.trim text.toList = text.toList ∧ '|' ∉ text.toList ∧
      '\n' ∉ text.toList ∧ ¬ ['-', '>'] <:+: text.toList)
    ⟨fun ⟨h1, h2, h3, h4, h5⟩ => ⟨h1, h2, h3, h4, h5⟩,
      fun h => ⟨h.ne, h.trimmed, h.bar, h.feed, h.arrow⟩⟩

instance (text : String) : Decidable (IsName text) :=
  decidable_of_iff (text ≠ "" ∧ text.toList.any Text.isBlank = false)
    ⟨fun ⟨h1, h2⟩ => ⟨h1, by simpa using h2⟩, fun h => ⟨h.ne, by simpa using h.blank⟩⟩

namespace Call

/-- The calls that can be written down. Numbers have 64 bits, and no operand is a lone `-`, which
stands for a missing one. -/
def Writable : Call → Prop
  | emit mnemonic arg1 arg2 dest list =>
    IsField mnemonic ∧ (∀ t ∈ arg1, IsField t ∧ t ≠ "-") ∧ (∀ t ∈ arg2, IsField t ∧ t ≠ "-") ∧
      (∀ t ∈ dest, IsField t ∧ t ≠ "-") ∧ ∀ name ∈ list, IsName name
  | merge into source => IsName into ∧ IsName source
  | patch list target => IsName list ∧ target < 2 ^ 64
  | unroll start stop times =>
    start < 2 ^ 64 ∧ stop < 2 ^ 64 ∧ -2 ^ 63 ≤ times ∧ times < 2 ^ 63
  | temporary | label | reset => True

instance : (c : Call) → Decidable c.Writable
  | emit mnemonic arg1 arg2 dest list =>
    inferInstanceAs (Decidable (IsField mnemonic ∧ (∀ t ∈ arg1, IsField t ∧ t ≠ "-") ∧
      (∀ t ∈ arg2, IsField t ∧ t ≠ "-") ∧ (∀ t ∈ dest, IsField t ∧ t ≠ "-") ∧
      ∀ name ∈ list, IsName name))
  | merge into source => inferInstanceAs (Decidable (IsName into ∧ IsName source))
  | patch list target => inferInstanceAs (Decidable (IsName list ∧ target < 2 ^ 64))
  | unroll start stop times =>
    inferInstanceAs (Decidable
      (start < 2 ^ 64 ∧ stop < 2 ^ 64 ∧ -2 ^ 63 ≤ times ∧ times < 2 ^ 63))
  | temporary | label | reset => isTrue trivial

/-- **Making a call.** The `position` of the call is told if it is to patch a list that is not
there. -/
def make (position : ℕ) (w : Workspace) : Call → Except Error Unit × Workspace
  | emit mnemonic arg1 arg2 dest list =>
    let emission := w.builder.emit (.ofText mnemonic arg1 arg2 dest)
    match emission.result, list with
    | .error e, _ => (.error e, ⟨emission.state, w.lists⟩)
    | .ok _, none => (.ok (), ⟨emission.state, w.lists⟩)
    | .ok index, some name =>
      let pending := (w.lists.get? name).getD ∅
      (.ok (), ⟨emission.state, w.lists.insert name (pending.push index)⟩)
  | temporary => (.ok (), ⟨w.builder.freshTemporary.value.2, w.lists⟩)
  | label => (.ok (), ⟨w.builder.freshLabel.value.2, w.lists⟩)
  | merge into source =>
    let moved := (w.lists.get? source).getD ∅
    let others := w.lists.erase source
    let kept := (others.get? into).getD ∅
    (.ok (), ⟨w.builder, (others.erase into).insert into (kept.merge moved)⟩)
  | patch list target =>
    match w.lists.get? list with
    | none => (.error (.script (.unknownList list) position), w)
    | some pending => (.ok (), ⟨(w.builder.backpatch pending target).value, w.lists.erase list⟩)
  | unroll start stop times =>
    let unrolling := w.builder.unroll start stop times
    (unrolling.result, ⟨unrolling.state, w.lists⟩)
  | reset => (.ok (), ⟨w.builder.reset.value, .empty⟩)

/-- The command that stands for a call. -/
def command : Call → Command
  | emit mnemonic arg1 arg2 dest list => .emit mnemonic arg1 arg2 dest list
  | temporary => .temporary
  | label => .label
  | merge into source => .merge into source
  | patch list target => .patch list (.index target)
  | unroll start stop times => .unroll start (.index stop) times
  | reset => .reset

end Call

/-- A place, as it is written. -/
def Place.text : Place → String
  | here => "here"
  | index n => toString n

namespace Command

/-- The call that a command asks for if the next instruction has the index `next`. -/
def call (next : ℕ) : Command → Call
  | emit mnemonic arg1 arg2 dest list => .emit mnemonic arg1 arg2 dest list
  | temporary => .temporary
  | label => .label
  | merge into source => .merge into source
  | patch list target => .patch list (target.resolved next)
  | unroll start stop times => .unroll start (stop.resolved next) times
  | reset => .reset

/-- The commands that can be written down. For `here` any index will do. -/
def Writable (c : Command) : Prop := (c.call 0).Writable

instance (c : Command) : Decidable c.Writable := inferInstanceAs (Decidable (c.call 0).Writable)

/-- **The canonical line** of a command: single blanks, all four fields of an instruction with `-` for
those that are missing, and numbers in plain decimals. -/
def line : Command → String
  | emit mnemonic arg1 arg2 dest list =>
    "emit " ++ mnemonic ++ " | " ++ arg1.getD "-" ++ " | " ++ arg2.getD "-" ++ " | " ++
      dest.getD "-" ++ list.elim "" (" -> " ++ ·)
  | temporary => "temp"
  | label => "label"
  | merge into source => "merge " ++ into ++ " " ++ source
  | patch list target => "patch " ++ list ++ " " ++ target.text
  | unroll start stop times =>
    "unroll " ++ toString start ++ " " ++ stop.text ++ " " ++ toString times
  | reset => "reset"

end Command

/-- The line that records a call. -/
def Call.line (c : Call) : String := c.command.line

theorem writable_command {c : Call} (h : c.Writable) : c.command.Writable := by cases c <;> exact h

/-- Makes calls up to the first that fails. The first of them has the given position. -/
def makeAll (w : Workspace) (position : ℕ) : List Call → Except Error Unit × Workspace
  | [] => (.ok (), w)
  | call :: calls =>
    match call.make position w with
    | (.error e, w) => (.error e, w)
    | (.ok _, w) => makeAll w (position + 1) calls

/-- The script that records calls, one line for each. -/
def script (calls : List Call) : String := "\n".intercalate (calls.map Call.line)

open Text

/-! ## The texts of a line -/

/-- A text that can be a line of its own. -/
structure Clean (cs : List Char) : Prop where
  ne : cs ≠ []
  feed : '\n' ∉ cs
  tight : Tight cs

theorem Clean.append {xs ys : List Char} (hx : Clean xs) {mid : List Char} (hm : '\n' ∉ mid)
    (hy : Clean ys) : Clean (xs ++ (mid ++ ys)) := by
  refine ⟨by simp [hx.ne], ?_, hx.tight.append hx.ne mid hy.tight hy.ne⟩
  rw [List.mem_append, List.mem_append]
  rintro (h | h | h)
  · exact hx.feed h
  · exact hm h
  · exact hy.feed h

theorem Clean.of_word {w : List Char} (hne : w ≠ []) (hw : ∀ c ∈ w, isBlank c = false) : Clean w :=
  ⟨hne, fun h => absurd (hw _ h) (by decide), tight_of_not_blank hw⟩

theorem toList_ne_nil {t : String} (h : t ≠ "") : t.toList ≠ [] := by simpa using h

theorem IsField.clean {t : String} (h : IsField t) : Clean t.toList :=
  ⟨toList_ne_nil h.ne, h.feed, trim_eq_self_iff.1 h.trimmed⟩

theorem IsName.clean {t : String} (h : IsName t) : Clean t.toList :=
  .of_word (toList_ne_nil h.ne) h.blank

theorem not_blank_toDigits (n : ℕ) : ∀ c ∈ Nat.toDigits 10 n, isBlank c = false :=
  fun _ hc => not_blank_of_isDigit (isDigit_of_mem_toDigits hc)

theorem not_blank_repr (k : ℤ) : ∀ c ∈ k.repr.toList, isBlank c = false := by
  rw [Int.repr_eq_if]
  split
  · rw [Nat.toList_repr]; exact not_blank_toDigits _
  · rw [String.toList_append, Nat.toList_repr]
    intro c hc
    rcases List.mem_append.1 hc with hc | hc
    · rw [List.mem_singleton.1 hc]; decide
    · exact not_blank_toDigits _ c hc

theorem repr_toList_ne_nil (k : ℤ) : k.repr.toList ≠ [] := by
  rw [Int.repr_eq_if]
  split
  · rw [Nat.toList_repr]; exact Nat.toDigits_ne_nil
  · simp

/-- A missing field is written as a field. -/
theorem isField_getD {field : Option String} (h : ∀ t ∈ field, IsField t ∧ t ≠ "-") :
    IsField (field.getD "-") := by
  cases field with
  | none =>
    exact ⟨by decide, by decide, by decide, by decide,
      by rw [← Command.splitArrow?_eq_none_iff]; decide⟩
  | some t => exact (h t rfl).1

/-- **A field is read as it was written**, a missing one as missing. -/
theorem field?_getD {field : Option String} (h : ∀ t ∈ field, IsField t ∧ t ≠ "-") :
    Command.field? (field.getD "-").toList = field := by
  cases field with
  | none => rfl
  | some t =>
    obtain ⟨hf, hd⟩ := h t rfl
    rw [Option.getD_some, Command.field?_text (toList_ne_nil hf.ne), String.ofList_toList]
    intro heq
    exact hd (String.toList_inj.1 heq)

/-! ## Emissions -/

/-- The fields of an emission, as they are written. -/
def fieldsText (op a₁ a₂ a₃ : List Char) : List Char :=
  op ++ " | ".toList ++ a₁ ++ " | ".toList ++ a₂ ++ " | ".toList ++ a₃

theorem splitArrow?_bar {xs ys : List Char} (hx : Command.splitArrow? xs = none)
    (hy : Command.splitArrow? ys = none) : Command.splitArrow? (xs ++ " | ".toList ++ ys) = none := by
  have hbar : Command.splitArrow? (xs ++ " | ".toList) = none :=
    Command.splitArrow?_append hx rfl fun _ => by decide
  refine Command.splitArrow?_append hbar hy fun hlast => ?_
  rw [List.getLast?_append_of_ne_nil _ (by decide)] at hlast
  exact absurd hlast (by decide)

theorem ofFields_four {op a₁ a₂ a₃ : List Char} (hop : op ≠ []) (list : Option String) :
    Command.ofFields [op, a₁, a₂, a₃] list =
      .ok (.emit (String.ofList op) (Command.field? a₁) (Command.field? a₂) (Command.field? a₃) list) := by
  have hemp : op.isEmpty = false := by simpa using hop
  simp [Command.ofFields, hemp]

variable {mnemonic : String} {arg1 arg2 dest list : Option String}

/-- **A written emission is read as it was meant.** The first arrow is the one before the list. -/
theorem emitOf_fieldsText (h : (Command.emit mnemonic arg1 arg2 dest list).Writable) :
    Command.emitOf (fieldsText mnemonic.toList (arg1.getD "-").toList (arg2.getD "-").toList
      (dest.getD "-").toList ++ (list.elim "" (" -> " ++ ·)).toList) =
      .ok (.emit mnemonic arg1 arg2 dest list) := by
  obtain ⟨hop, h₁, h₂, h₃, hlist⟩ := h
  have f₁ := isField_getD h₁
  have f₂ := isField_getD h₂
  have f₃ := isField_getD h₃
  have harrow : ∀ {t : String}, IsField t → Command.splitArrow? t.toList = none :=
    fun ht => (Command.splitArrow?_eq_none_iff _).2 ht.arrow
  have hnone : Command.splitArrow? (fieldsText mnemonic.toList (arg1.getD "-").toList
      (arg2.getD "-").toList (dest.getD "-").toList) = none :=
    splitArrow?_bar (splitArrow?_bar (splitArrow?_bar (harrow hop) (harrow f₁)) (harrow f₂)) (harrow f₃)
  have hfields : ∀ blanks, (∀ c ∈ blanks, isBlank c = true) → ∀ l,
      Command.ofFields (((fieldsText mnemonic.toList (arg1.getD "-").toList (arg2.getD "-").toList
        (dest.getD "-").toList ++ blanks).splitOn '|').map trim) l =
        .ok (.emit mnemonic arg1 arg2 dest l) := by
    intro blanks hb l
    rw [fieldsText, Command.fields_of_bars hop.clean.tight f₁.clean.tight f₂.clean.tight f₃.clean.tight hb
      hop.bar f₁.bar f₂.bar f₃.bar, ofFields_four hop.clean.ne, field?_getD h₁, field?_getD h₂,
      field?_getD h₃, String.ofList_toList]
  unfold Command.emitOf
  cases list with
  | none =>
    -- no arrow at all
    have hf := hfields [] (by simp) none
    rw [List.append_nil] at hf
    rw [show (Option.elim none "" (" -> " ++ ·) : String).toList = [] from rfl, List.append_nil, hnone]
    exact hf
  | some name =>
    have hn := hlist name rfl
    have hspace : ∀ c ∈ [' '], isBlank c = true := by simp; decide
    have hsplit : (Option.elim (some name) "" (" -> " ++ ·) : String).toList =
        [' '] ++ '-' :: '>' :: ' ' :: name.toList := by
      simp only [Option.elim, String.toList_append]; rfl
    -- the arrow before the list is the first one, and the blank before it is trimmed away
    have hnone' := Command.splitArrow?_append hnone (show Command.splitArrow? [' '] = none from rfl)
      fun _ => by decide
    rw [hsplit, ← List.append_assoc, Command.splitArrow?_arrow hnone']
    simp only [Command.listName_blank hn.blank hn.clean.ne, String.ofList_toList]
    exact hfields [' '] hspace (some name)

/-! ## Lines -/

/-- What stands behind the command word of a canonical line. -/
def Command.arguments : Command → List Char
  | emit mnemonic arg1 arg2 dest list =>
    fieldsText mnemonic.toList (arg1.getD "-").toList (arg2.getD "-").toList (dest.getD "-").toList ++
      (list.elim "" (" -> " ++ ·)).toList
  | merge into source => into.toList ++ ' ' :: source.toList
  | patch list target => list.toList ++ ' ' :: target.text.toList
  | unroll start stop times =>
    Nat.toDigits 10 start ++ ' ' :: (stop.text.toList ++ ' ' :: times.repr.toList)
  | temporary | label | reset => []

theorem clean_digits (n : ℕ) : Clean (Nat.toDigits 10 n) :=
  .of_word Nat.toDigits_ne_nil (not_blank_toDigits n)

theorem clean_repr (k : ℤ) : Clean k.repr.toList :=
  .of_word (repr_toList_ne_nil k) (not_blank_repr k)

theorem Place.text_index (n : ℕ) : (index n).text.toList = Nat.toDigits 10 n := by
  rw [text, Nat.toString_eq_repr, Nat.toList_repr]

/-- A place is written as one word. -/
theorem Place.text_word (p : Place) :
    p.text.toList ≠ [] ∧ ∀ c ∈ p.text.toList, isBlank c = false := by
  cases p with
  | here =>
    have hany : here.text.toList.any isBlank = false := by decide
    exact ⟨by decide, by simpa using hany⟩
  | index n =>
    rw [text_index]
    exact ⟨Nat.toDigits_ne_nil, not_blank_toDigits n⟩

theorem clean_place (p : Place) : Clean p.text.toList :=
  .of_word p.text_word.1 p.text_word.2

theorem clean_emit (h : (Command.emit mnemonic arg1 arg2 dest list).Writable) :
    Clean (Command.emit mnemonic arg1 arg2 dest list).arguments := by
  obtain ⟨hop, h₁, h₂, h₃, hlist⟩ := h
  have hbar : '\n' ∉ " | ".toList := by decide
  have hfields := (((hop.clean.append hbar (isField_getD h₁).clean).append hbar
    (isField_getD h₂).clean).append hbar (isField_getD h₃).clean)
  simp only [← List.append_assoc] at hfields
  cases list with
  | none =>
    show Clean (fieldsText _ _ _ _ ++ [])
    rw [List.append_nil]; exact hfields
  | some name =>
    have hall := hfields.append (show '\n' ∉ " -> ".toList by decide) (hlist name rfl).clean
    show Clean (fieldsText _ _ _ _ ++ (" -> " ++ name).toList)
    rw [String.toList_append]; exact hall

/-- The arguments of a command that takes some are clean text. -/
theorem clean_arguments {c : Command} (h : c.Writable) (hne : c.arguments ≠ []) : Clean c.arguments := by
  have hspace : '\n' ∉ [' '] := by decide
  cases c with
  | emit mnemonic arg1 arg2 dest list => exact clean_emit h
  | merge into source => exact h.1.clean.append hspace h.2.clean
  | patch list target => exact h.1.clean.append hspace (clean_place target)
  | unroll start stop times =>
    exact (clean_digits start).append hspace ((clean_place stop).append hspace (clean_repr times))
  | temporary => exact absurd rfl hne
  | label => exact absurd rfl hne
  | reset => exact absurd rfl hne

/-- The word that a command is written with. -/
def Command.word : Command → String
  | emit .. => "emit"
  | temporary => "temp"
  | label => "label"
  | merge .. => "merge"
  | patch .. => "patch"
  | unroll .. => "unroll"
  | reset => "reset"

theorem word_not_blank (c : Command) :
    (∀ x ∈ c.word.toList, isBlank x = false) ∧ c.word.toList ≠ [] ∧ c.word.toList.head? ≠ some '#' := by
  have hany : c.word.toList.any isBlank = false := by cases c <;> simp only [Command.word] <;> decide
  refine ⟨by simpa using hany, ?_⟩
  cases c <;> simp only [Command.word] <;> decide

/-- A line is its command word, with a blank and the arguments behind it if there are any. -/
theorem line_toList (c : Command) :
    c.line.toList = c.word.toList ++ if c.arguments = [] then [] else ' ' :: c.arguments := by
  cases c with
  | emit mnemonic arg1 arg2 dest list =>
    have hword : "emit ".toList = "emit".toList ++ [' '] := rfl
    rw [if_neg (by simp [Command.arguments, fieldsText])]
    simp only [Command.line, Command.word, Command.arguments, fieldsText, String.toList_append, hword,
      List.append_assoc, List.singleton_append]
    rfl
  | merge into source =>
    have hword : "merge ".toList = "merge".toList ++ [' '] := rfl
    rw [if_neg (by simp [Command.arguments])]
    simp only [Command.line, Command.word, Command.arguments, String.toList_append, hword, List.append_assoc,
      List.singleton_append]
    rfl
  | patch list target =>
    have hword : "patch ".toList = "patch".toList ++ [' '] := rfl
    rw [if_neg (by simp [Command.arguments])]
    simp only [Command.line, Command.word, Command.arguments, String.toList_append, hword, List.append_assoc,
      List.singleton_append]
    rfl
  | unroll start stop times =>
    have hword : "unroll ".toList = "unroll".toList ++ [' '] := rfl
    rw [if_neg (by simp [Command.arguments])]
    simp only [Command.line, Command.word, Command.arguments, String.toList_append, hword, List.append_assoc,
      List.singleton_append, Nat.toString_eq_repr, Nat.toList_repr, Int.toString_eq_repr]
    rfl
  | temporary => rfl
  | label => rfl
  | reset => rfl

theorem clean_line {c : Command} (h : c.Writable) : Clean c.line.toList := by
  obtain ⟨hw, hne, -⟩ := word_not_blank c
  rw [line_toList]
  split
  · rw [List.append_nil]; exact .of_word hne hw
  · rename_i hargs
    exact (Clean.of_word hne hw).append (show '\n' ∉ [' '] by decide) (clean_arguments h hargs)

theorem statement?_line {c : Command} (h : c.Writable) :
    statement? c.line.toList = some (c.word, c.arguments) := by
  obtain ⟨hw, hne, hhash⟩ := word_not_blank c
  rw [line_toList]
  split
  · rename_i hargs
    rw [List.append_nil, statement?_of_bare hw hne hhash, String.ofList_toList, hargs]
  · rename_i hargs
    rw [statement?_of_word hw hne hhash (clean_arguments h hargs).tight hargs, String.ofList_toList]

/-! ## Reading a written command -/

theorem indexOf_toDigits {n : ℕ} (h : n < 2 ^ 64) : Command.indexOf (Nat.toDigits 10 n) = .ok n := by
  unfold Command.indexOf
  rw [index?_toDigits (by unfold maxIndex; omega)]

theorem placeOf_toDigits {n : ℕ} (h : n < 2 ^ 64) :
    Command.placeOf (Nat.toDigits 10 n) = .ok (.index n) := by
  have hne : Nat.toDigits 10 n ≠ "here".toList := by
    obtain ⟨c, cs, hcs, hc⟩ := exists_cons_toDigits n
    rw [hcs]
    intro heq
    rw [(List.cons.inj heq).1] at hc
    exact absurd hc (by decide)
  unfold Command.placeOf
  rw [if_neg hne, indexOf_toDigits h]; rfl

theorem placeOf_text {p : Place} (h : p.resolved 0 < 2 ^ 64) : Command.placeOf p.text.toList = .ok p := by
  cases p with
  | here => rfl
  | index n =>
    rw [Place.text_index]
    exact placeOf_toDigits h

theorem countOf_repr {k : ℤ} (h1 : -2 ^ 63 ≤ k) (h2 : k < 2 ^ 63) :
    Command.countOf k.repr.toList = .ok k := by
  unfold Command.countOf
  rw [count?_repr (by unfold maxCount; omega) (by unfold maxCount; omega)]

theorem ofWords_arguments {c : Command} (h : c.Writable) : Command.ofWords c.word c.arguments = .ok c := by
  cases c with
  | emit mnemonic arg1 arg2 dest list =>
    unfold Command.ofWords
    rw [if_pos (show (Command.emit mnemonic arg1 arg2 dest list).word = "emit" from rfl)]
    exact emitOf_fieldsText h
  | temporary => rfl
  | label => rfl
  | merge into source =>
    show Command.mergeOf (into.toList ++ ' ' :: source.toList) = _
    unfold Command.mergeOf
    rw [words_cons h.1.blank h.1.clean.ne, words_of_word h.2.blank h.2.clean.ne]
    simp only [String.ofList_toList]
  | patch list target =>
    obtain ⟨hlist, htarget⟩ := h
    obtain ⟨hne, hblank⟩ := target.text_word
    show Command.patchOf (list.toList ++ ' ' :: target.text.toList) = _
    unfold Command.patchOf
    rw [words_cons hlist.blank hlist.clean.ne, words_of_word hblank hne]
    simp only [placeOf_text htarget, String.ofList_toList]; rfl
  | unroll start stop times =>
    obtain ⟨hstart, hstop, h1, h2⟩ := h
    obtain ⟨hne, hblank⟩ := stop.text_word
    show Command.unrollOf (Nat.toDigits 10 start ++ ' ' :: (stop.text.toList ++ ' ' :: times.repr.toList)) = _
    unfold Command.unrollOf
    rw [words_cons (not_blank_toDigits start) Nat.toDigits_ne_nil, words_cons hblank hne,
      words_of_word (not_blank_repr times) (repr_toList_ne_nil times)]
    simp only [indexOf_toDigits hstart, placeOf_text hstop, countOf_repr h1 h2]; rfl
  | reset => rfl

/-- **A command that can be written is what its canonical line says.** -/
theorem decode_line {c : Command} (h : c.Writable) : decode c.line.toList = .command c := by
  unfold decode
  rw [statement?_line h]
  simp only [ofWords_arguments h]

theorem lines_script {calls : List Call} (h : ∀ c ∈ calls, c.Writable) :
    lines (script calls).toList = calls.map fun c => c.line.toList := by
  have hclean : ∀ l ∈ calls.map fun c => c.line.toList, Clean l := by
    intro l hl
    obtain ⟨c, hc, rfl⟩ := List.mem_map.1 hl
    exact clean_line (writable_command (h c hc))
  unfold script
  rw [String.toList_intercalate, List.map_map]
  refine lines_intercalate (fun l hl => (hclean l hl).ne) (fun l hl => (hclean l hl).feed) ?_
  -- a tight line does not end in a return
  intro l hl hcr
  exact absurd ((hclean l hl).tight.2 _ hcr) (by decide)

/-! ## Replaying a script of calls -/

/-- What a replay shares with a caller. -/
def Replay.workspace (r : Replay) : Workspace := ⟨r.builder, r.lists⟩

/-- **Performing the command of a call is making the call**, at the current line. -/
theorem perform_command (r : Replay) (c : Call) :
    ((r.perform c.command).result, (r.perform c.command).state.workspace) =
      c.make r.line r.workspace ∧ (r.perform c.command).state.line = r.line := by
  cases c with
  | emit mnemonic arg1 arg2 dest list =>
    by_cases hroom : r.builder.length < r.builder.limit
    · simp only [Call.command, Replay.perform_emit_of_room hroom, Call.make, Replay.workspace,
        Builder.emit_of_room hroom, Outcome.result_ok, Outcome.state_ok]
      cases list <;> exact ⟨rfl, rfl⟩
    · simp only [Call.command, Replay.perform_emit_of_full hroom, Call.make, Replay.workspace,
        Builder.emit_of_full hroom, Outcome.result_fail, Outcome.state_fail, and_self]
  | temporary => exact ⟨rfl, rfl⟩
  | label => exact ⟨rfl, rfl⟩
  | merge into source => exact ⟨rfl, rfl⟩
  | patch list target =>
    unfold Call.command Call.make
    cases hget : r.lists.get? list with
    | none =>
      rw [Replay.perform_patch_of_none hget]
      simp only [Replay.workspace, hget]
      exact ⟨rfl, rfl⟩
    | some pending =>
      rw [Replay.perform_patch_of_some hget]
      simp only [Replay.workspace, hget]
      exact ⟨rfl, rfl⟩
  | unroll start stop times => exact ⟨rfl, rfl⟩
  | reset => exact ⟨rfl, rfl⟩

/-- The line of a call has the effect of the call, at the next line. -/
theorem step_line (r : Replay) {c : Call} (h : c.Writable) :
    ((r.step c.line.toList).result, (r.step c.line.toList).state.workspace) =
      c.make (r.line + 1) r.workspace ∧ (r.step c.line.toList).state.line = r.line + 1 := by
  have hcmd : Command.ofLine? c.line.toList = some c.command :=
    ofLine?_eq_some_iff.2 (decode_line (writable_command h))
  rcases Replay.step_cases r c.line.toList with ⟨hc, _⟩ | ⟨_, _, _, hc, _⟩ | ⟨_, _, command, hc, hs⟩
  · rw [hcmd] at hc; cases hc
  · rw [hcmd] at hc; cases hc
  · rw [hcmd] at hc
    obtain rfl := Option.some.inj hc
    rw [hs, Outcome.result_after, Outcome.state_after]
    exact perform_command r.advance c

theorem runLines_calls {calls : List Call} (h : ∀ c ∈ calls, c.Writable) :
    ∀ r : Replay,
      ((r.runLines (calls.map fun c => c.line.toList)).result,
        (r.runLines (calls.map fun c => c.line.toList)).state.workspace) =
      makeAll r.workspace (r.line + 1) calls := by
  -- on the calls, with the replay general; its line count is the position of the next call less one
  induction calls with
  | nil => intro r; rfl
  | cons c calls ih =>
    intro r
    obtain ⟨hmake, hline⟩ := step_line r (h c List.mem_cons_self)
    rw [List.map_cons]
    unfold Replay.runLines makeAll Outcome.andThen
    rw [← hmake]
    cases hres : (r.step c.line.toList).result with
    | error e => rfl
    | ok a =>
      have hrest := ih (fun d hd => h d (List.mem_cons_of_mem _ hd)) (r.step c.line.toList).state
      rw [hline] at hrest
      exact hrest

/-- **The replay law.** Calls that can be written down have, as a script for a fresh replay, the
effect that they have when they are made directly: the same first error, which names the line of the
call, the same builder and the same lists in the same order. -/
theorem run_script (b : Builder) (calls : List Call) (h : ∀ c ∈ calls, c.Writable) :
    (((Replay.ofBuilder b).run (script calls)).result,
      ((Replay.ofBuilder b).run (script calls)).state.workspace) = makeAll ⟨b, .empty⟩ 1 calls := by
  have hrun := runLines_calls h (.ofBuilder b)
  unfold Replay.run Outcome.andThen
  rw [lines_script h]
  cases hres : ((Replay.ofBuilder b).runLines (calls.map fun c => c.line.toList)).result with
  | error e => rw [hres] at hrun; exact hrun
  | ok a => rw [hres] at hrun; exact hrun

/-- Calls whose texts look like parts of the notation; the last one patches a list that is gone. -/
theorem run_script_odd_texts :
    let calls : List Call := [.emit "-" (some "a-") (some ">x") none (some "->"),
      .emit "GOTO" (some "#") (some "here") none (some "here"), .merge "->" "here", .unroll 1 3 (-5),
      .patch "->" 18446744073709551615, .patch "here" 7]
    (∀ c ∈ calls, c.Writable) ∧
    (((Replay.ofBuilder (.empty 2)).run (script calls)).result,
      ((Replay.ofBuilder (.empty 2)).run (script calls)).state.workspace) =
      makeAll ⟨.empty 2, .empty⟩ 1 calls ∧
    (makeAll ⟨.empty 2, .empty⟩ 1 calls).1 = .error (.script (.unknownList "here") 6) := by
  intro calls
  have h : ∀ c ∈ calls, c.Writable := by decide +kernel
  exact ⟨h, run_script (.empty 2) calls h, rfl⟩

end ThreeAddress.Script
