/-!
# Decimal numerals

A numeral is written in decimal digits. Reading takes one leading sign, then one or more ASCII
digits, and refuses a value that does not fit: `index?` reads an instruction index (64 bits, no
minus sign), `count?` reads a signed repeat count (64 bits, two's complement). Writing pads on the
left to a given width (`padded`).
-/

namespace ThreeAddress.Text

/-- The largest instruction index that can be written down, `2^64 - 1`. -/
def maxIndex : Nat := 18446744073709551615

/-- The largest repeat count that can be written down, `2^63 - 1`. -/
def maxCount : Nat := 9223372036854775807

/-- One or more decimal digits, read as a natural number. -/
def digits? (cs : List Char) : Option Nat :=
  if !cs.isEmpty && cs.all Char.isDigit then some (Nat.ofDigitChars 10 cs 0) else none

/-- An **instruction index**: an optional `+`, then digits, at most `maxIndex`. -/
def index? : List Char → Option Nat
  | '+' :: cs => (digits? cs).filter fun n => decide (n ≤ maxIndex)
  | cs => (digits? cs).filter fun n => decide (n ≤ maxIndex)

/-- A **repeat count**: an optional sign, then digits, from `-maxCount - 1` to `maxCount`. -/
def count? : List Char → Option Int
  | '-' :: cs => ((digits? cs).filter fun n => decide (n ≤ maxCount + 1)).map fun n => -(n : Int)
  | '+' :: cs => ((digits? cs).filter fun n => decide (n ≤ maxCount)).map Int.ofNat
  | cs => ((digits? cs).filter fun n => decide (n ≤ maxCount)).map Int.ofNat

/-- The decimal numeral of `n`, filled up with `fill` on the left to at least `width` characters. -/
def padded (fill : Char) (width n : Nat) : String :=
  String.ofList (List.leftpad width fill (Nat.toDigits 10 n))

/-- A list of indices in brackets, separated by commas: `[1, 2]`. -/
def bracketed (indices : List Nat) : String :=
  "[" ++ String.intercalate ", " (indices.map fun i => toString i) ++ "]"

theorem digits?_toDigits (n : Nat) : digits? (Nat.toDigits 10 n) = some n := by
  have hne : (Nat.toDigits 10 n).isEmpty = false := by
    simp [List.isEmpty_eq_false_iff, Nat.toDigits_ne_nil]
  have hall : (Nat.toDigits 10 n).all Char.isDigit = true := by
    simpa using fun c hc => Nat.isDigit_of_mem_toDigits (by decide) (by decide) hc
  simp [digits?, hne, hall, Nat.ofDigitChars_toDigits]

end ThreeAddress.Text
