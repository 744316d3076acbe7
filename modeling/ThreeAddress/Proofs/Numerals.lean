import Mathlib.Data.Nat.Digits.Defs
import ThreeAddress.Proofs.Restating

/-!
# Numerals as targets

One reader of numerals (`Text.index?`) decides which texts are the targets of jumps, and which words of a
script are indices. This module says what it accepts without reference to how it reads.

* `Text.IsNumeral`: the grammar of numerals, with their value by the places of the digits.
* `Text.digits?_eq_some_iff`, `Text.index?_eq_some_iff`: **a numeral is read exactly if it is one and its
  value has 64 bits.**
* `Script.Command.indexOf_eq_ok_iff`, `Script.Command.placeOf_eq_ok_iff`: the same for the words of a script.
* `Destination.numerals_are_targets`: **what a text is as a destination, and what it is in a script.**
-/

namespace ThreeAddress

namespace Text

/-- Decimal digits, written from left to right. -/
def digitChars (digits : List (Fin 10)) : List Char := digits.map fun d => Nat.digitChar d.val

/-- What decimal digits are worth: the last one counts ones, the one before it tens, and so on. -/
def placeValue (digits : List (Fin 10)) : ℕ := Nat.ofDigits 10 (digits.reverse.map Fin.val)

/-- A **decimal numeral** with its value: digits, at least one, which may start with zeros, and in front of
them at most one `+`. -/
inductive IsNumeral : List Char → ℕ → Prop
  | plain {digits : List (Fin 10)} (hne : digits ≠ []) :
    IsNumeral (digitChars digits) (placeValue digits)
  | plus {digits : List (Fin 10)} (hne : digits ≠ []) :
    IsNumeral ('+' :: digitChars digits) (placeValue digits)

/-! ## Digits -/

theorem exists_digitChar {c : Char} (h : c.isDigit = true) : ∃ d : Fin 10, c = Nat.digitChar d.val := by
  have hrange : 48 ≤ c.toNat ∧ c.toNat ≤ 57 := by
    simp only [Char.isDigit, Bool.and_eq_true, decide_eq_true_eq] at h
    exact ⟨h.1, h.2⟩
  have hlt : c.toNat - 48 < 10 := by omega
  refine ⟨⟨c.toNat - 48, hlt⟩, ?_⟩
  apply Char.toNat_inj.1
  rw [Nat.toNat_digitChar_of_lt_ten hlt]
  omega

theorem all_isDigit_digitChars (digits : List (Fin 10)) :
    (digitChars digits).all Char.isDigit = true := by
  simp [digitChars]

/-- A text of digits only is written with digits. -/
theorem exists_digitChars {cs : List Char} (h : ∀ c ∈ cs, c.isDigit = true) :
    ∃ digits, cs = digitChars digits := by
  induction cs with
  | nil => exact ⟨[], rfl⟩
  | cons c cs ih =>
    obtain ⟨d, rfl⟩ := exists_digitChar (h c List.mem_cons_self)
    obtain ⟨digits, rfl⟩ := ih fun x hx => h x (List.mem_cons_of_mem _ hx)
    exact ⟨d :: digits, rfl⟩

/-- Reading digits from the left, ten times what was read plus the next one, gives their place value. -/
theorem ofDigitChars_digitChars (digits : List (Fin 10)) :
    Nat.ofDigitChars 10 (digitChars digits) 0 = placeValue digits := by
  -- from the right, as the last digit is read last and counts ones
  induction digits using List.reverseRecOn with
  | nil => rfl
  | append_singleton digits d ih =>
    have hlast : digitChars (digits ++ [d]) = digitChars digits ++ [Nat.digitChar d.val] := by
      simp [digitChars]
    rw [hlast, Nat.ofDigitChars_append, ih, Nat.ofDigitChars_cons_digitChar_of_lt_ten d.isLt,
      Nat.ofDigitChars_nil]
    simp only [placeValue, List.reverse_append, List.reverse_singleton, List.singleton_append,
      List.map_cons, Nat.ofDigits_cons]
    exact Nat.add_comm _ _

/-! ## Numerals -/

theorem digits?_eq_some_iff {cs : List Char} {n : ℕ} :
    digits? cs = some n ↔ ∃ digits, digits ≠ [] ∧ cs = digitChars digits ∧ n = placeValue digits := by
  unfold digits?
  constructor
  · intro h
    split at h
    · rename_i hcond
      obtain ⟨hne, hall⟩ := Bool.and_eq_true_iff.1 hcond
      obtain ⟨digits, rfl⟩ := exists_digitChars (List.all_eq_true.1 hall)
      refine ⟨digits, ?_, rfl, ?_⟩
      · rintro rfl
        simp [digitChars] at hne
      · rw [← ofDigitChars_digitChars]
        exact (Option.some.inj h).symm
    · cases h
  · rintro ⟨digits, hne, rfl, rfl⟩
    have hempty : (digitChars digits).isEmpty = false := by
      rw [List.isEmpty_eq_false_iff]
      exact mt List.map_eq_nil_iff.1 hne
    rw [hempty, all_isDigit_digitChars, ofDigitChars_digitChars]; rfl

/-- Digits do not start with a sign. -/
theorem digitChars_ne_plus (digits : List (Fin 10)) (cs : List Char) : digitChars digits ≠ '+' :: cs := by
  intro h
  have hall := all_isDigit_digitChars digits
  rw [h, List.all_cons] at hall
  simp at hall

/-- **What is read as an index**: a numeral whose value has 64 bits. -/
theorem index?_eq_some_iff {cs : List Char} {n : ℕ} :
    index? cs = some n ↔ IsNumeral cs n ∧ n ≤ maxIndex := by
  unfold index?
  split
  · rename_i rest
    rw [Option.filter_eq_some_iff, digits?_eq_some_iff, decide_eq_true_eq]
    refine and_congr_left fun _ => ?_
    constructor
    · rintro ⟨digits, hne, rfl, rfl⟩
      exact .plus hne
    · -- the sign is not a digit, so this is the form with a sign
      generalize htext : '+' :: rest = text
      intro hnumeral
      cases hnumeral with
      | plain hne => exact absurd htext.symm (digitChars_ne_plus _ _)
      | plus hne => exact ⟨_, hne, (List.cons.inj htext).2, rfl⟩
  · rename_i hsign
    rw [Option.filter_eq_some_iff, digits?_eq_some_iff, decide_eq_true_eq]
    refine and_congr_left fun _ => ?_
    constructor
    · rintro ⟨digits, hne, rfl, rfl⟩
      exact .plain hne
    · intro hnumeral
      cases hnumeral with
      | plain hne => exact ⟨_, hne, rfl, rfl⟩
      | plus hne => exact absurd rfl (hsign _)

theorem index?_eq_none_iff {cs : List Char} :
    index? cs = none ↔ ∀ n, ¬ (IsNumeral cs n ∧ n ≤ maxIndex) := by
  rw [Option.eq_none_iff_forall_not_mem]
  simp only [Option.mem_def, index?_eq_some_iff]

/-- Zeros in front of a numeral and a sign change nothing. -/
example : index? "+007".toList = some 7 ∧ index? "++7".toList = none ∧ index? "+".toList = none := by
  decide

end Text

open Text

/-! ## Words of a script -/

namespace Script.Command

theorem indexOf_eq_ok_iff {text : List Char} {n : ℕ} : indexOf text = .ok n ↔ index? text = some n := by
  unfold indexOf
  split
  · rename_i m hm
    rw [hm]; simp
  · rename_i hnone
    rw [hnone]; simp

theorem indexOf_of_none {text : List Char} (h : index? text = none) :
    indexOf text = .error (.badIndex (String.ofList text)) := by
  unfold indexOf
  simp only [h]

/-- The word `here` is no numeral, so a place is an index exactly if it is read as one. -/
theorem placeOf_eq_ok_iff {text : List Char} {n : ℕ} :
    placeOf text = .ok (.index n) ↔ index? text = some n := by
  unfold placeOf
  split
  · rename_i hhere
    have hnone : index? "here".toList = none := by decide
    rw [hhere, hnone]; simp
  · rw [← indexOf_eq_ok_iff]
    cases indexOf text with
    | error fault => simp [Except.map]
    | ok m => simp [Except.map]

theorem placeOf_of_none {text : List Char} (hhere : text ≠ "here".toList) (h : index? text = none) :
    placeOf text = .error (.badIndex (String.ofList text)) := by
  unfold placeOf
  rw [if_neg hhere, indexOf_of_none h]; rfl

variable {arguments list target start stop times : List Char} {n m : ℕ} {k : ℤ}

theorem patchOf_eq_ok_iff (hwords : words arguments = [list, target]) :
    patchOf arguments = .ok (.patch (String.ofList list) (.index n)) ↔ index? target = some n := by
  unfold patchOf
  simp only [hwords]
  rw [← placeOf_eq_ok_iff]
  cases placeOf target with
  | error fault => simp [Except.map]
  | ok p => simp [Except.map]

theorem unrollOf_eq_ok_iff (hwords : words arguments = [start, stop, times]) :
    unrollOf arguments = .ok (.unroll n (.index m) k) ↔
      index? start = some n ∧ index? stop = some m ∧ countOf times = .ok k := by
  unfold unrollOf
  simp only [hwords]
  rw [← indexOf_eq_ok_iff, ← placeOf_eq_ok_iff]
  cases indexOf start with
  | error fault => simp [bind, Except.bind]
  | ok i =>
    cases placeOf stop with
    | error fault => simp [bind, Except.bind]
    | ok p =>
      cases countOf times with
      | error fault => simp [bind, Except.bind]
      | ok c => simp [bind, Except.bind, pure, Except.pure]

end Script.Command

/-! ## Destinations -/

namespace Destination

variable {op : Operation}

theorem isJump_op_iff : op.isJump = true ↔ (∃ relation, op = .branch relation) ∨ op = .goto := by
  cases op <;> simp [Operation.isJump]

theorem ofText_eq_target_iff (h : op.isJump = true) {text : String} {n : ℕ} :
    ofText op (some text) = .target n ↔ index? text.toList = some n := by
  unfold ofText
  rw [h]
  simp only
  split
  · rename_i m hm
    rw [hm]; simp
  · rename_i hnone
    rw [hnone]; simp

theorem ofText_eq_operand (h : op.isJump = true) {text : String} (hnone : index? text.toList = none) :
    ofText op (some text) = .operand text := by
  unfold ofText
  rw [h]
  simp only [hnone]

open Script Command in
/-- **Numerals are targets.** Let a text be the destination of an operation. For a jump it is a target
exactly if it is a numeral whose value has 64 bits, and then the target is the value; any other text stays
as it is. What is written for a target is that target again. For an operation that is no jump every text
stays as it is. The words of a script are read in the same way: where an index is expected a word is
accepted, with the same value, exactly if it would be the target of a jump, and where `here` may stand as
well that is the only other word. So it is with the target of `patch` and with the range of `unroll`. -/
theorem numerals_are_targets (op : Operation) (text : String) :
    (op.isJump = true ↔ (∃ relation, op = .branch relation) ∨ op = .goto) ∧
    (op.isJump = true →
      (∀ n, ofText op (some text) = .target n ↔ IsNumeral text.toList n ∧ n ≤ 2 ^ 64 - 1) ∧
      ((∀ n, ¬ (IsNumeral text.toList n ∧ n ≤ 2 ^ 64 - 1)) → ofText op (some text) = .operand text) ∧
      (∀ n, n ≤ 2 ^ 64 - 1 → ofText op (some (target n).text) = .target n) ∧
      (∀ n, indexOf text.toList = .ok n ↔ ofText op (some text) = .target n) ∧
      ((∀ n, ofText op (some text) ≠ .target n) → indexOf text.toList = .error (.badIndex text)) ∧
      (∀ n, placeOf text.toList = .ok (.index n) ↔ ofText op (some text) = .target n) ∧
      ((∀ n, ofText op (some text) ≠ .target n) →
        placeOf text.toList = if text = "here" then .ok .here else .error (.badIndex text)) ∧
      (∀ arguments list n, words arguments = [list, text.toList] →
        (patchOf arguments = .ok (.patch (String.ofList list) (.index n)) ↔
          ofText op (some text) = .target n)) ∧
      (∀ arguments stop times n m k, words arguments = [text.toList, stop, times] →
        (unrollOf arguments = .ok (.unroll n (.index m) k) ↔ ofText op (some text) = .target n ∧
          ofText op (some (String.ofList stop)) = .target m ∧ countOf times = .ok k))) ∧
    (op.isJump = false → ofText op (some text) = .operand text) := by
  refine ⟨isJump_op_iff, ?_, ?_⟩
  · intro hjump
    have hiff : ∀ n, ofText op (some text) = .target n ↔ index? text.toList = some n :=
      fun n => ofText_eq_target_iff hjump
    have hnone : (∀ n, ofText op (some text) ≠ .target n) → index? text.toList = none := by
      intro h
      rw [Option.eq_none_iff_forall_ne_some]
      exact fun n hn => h n ((hiff n).2 hn)
    refine ⟨fun n => (hiff n).trans index?_eq_some_iff, ?_, fun n hn => Quad.ofText_numeral hjump hn,
      fun n => indexOf_eq_ok_iff.trans (hiff n).symm, ?_, fun n => placeOf_eq_ok_iff.trans (hiff n).symm,
      ?_, ?_, ?_⟩
    · intro h
      exact ofText_eq_operand hjump (index?_eq_none_iff.2 h)
    · intro h
      rw [indexOf_of_none (hnone h), String.ofList_toList]
    · intro h
      split
      · rename_i hhere
        rw [hhere]; rfl
      · rename_i hhere
        rw [placeOf_of_none (fun heq => hhere (String.toList_injective heq)) (hnone h),
          String.ofList_toList]
    · intro arguments list n hwords
      exact (patchOf_eq_ok_iff hwords).trans (hiff n).symm
    · intro arguments stop times n m k hwords
      rw [unrollOf_eq_ok_iff hwords, hiff n, ofText_eq_target_iff hjump, String.toList_ofList]
  · intro hjump
    unfold ofText
    rw [hjump]

/-- The largest target, with a sign and zeros in front of it, and the number after it. -/
theorem numerals_are_targets_largest :
    ofText .goto (some "+0018446744073709551615") = .target 18446744073709551615 ∧
    ofText .goto (some "18446744073709551616") = .operand "18446744073709551616" := by
  have hlargest := (numerals_are_targets .goto "+0018446744073709551615").2.1 rfl
  have hnext := (numerals_are_targets .goto "18446744073709551616").2.1 rfl
  have hnumeral := @IsNumeral.plus [0, 0, 1, 8, 4, 4, 6, 7, 4, 4, 0, 7, 3, 7, 0, 9, 5, 5, 1, 6, 1, 5] (by decide)
  exact ⟨(hlargest.1 _).2 ⟨hnumeral, by decide⟩, hnext.2.1 (index?_eq_none_iff.1 (by decide))⟩

end Destination

end ThreeAddress
