/-!
# Shortest decimals

A binary floating point number is `m * 2 ^ q`. It is written with the fewest decimal digits that
still lie closer to it than to any other number of its format; of two such decimals the nearer one
is taken, and the larger one if they are equally near (`Binary.shortest`). Everything is exact
arithmetic on natural numbers.
-/

namespace ThreeAddress.Decimal

/-- The least exponent of a number with 53 significant bits. -/
def leastExponent : Int := -1074

/-- The leading bit of a full significand, `2^52`, which is not stored. -/
def hiddenBit : Nat := 4503599627370496

/-- The bit that marks a negative number, `2^63`. -/
def signBit : Nat := 9223372036854775808

/-- A positive binary number `significand * 2 ^ exponent`. -/
structure Binary where
  significand : Nat
  exponent : Int
deriving DecidableEq, Repr

namespace Binary

/-- A quarter of the last place of the number is the unit of `floor`, `value` and `ceiling`; this is
that unit as a fraction of natural numbers. -/
def unit (x : Binary) : Nat × Nat :=
  (Nat.pow 2 (x.exponent - 2).toNat, Nat.pow 2 (2 - x.exponent).toNat)

/-- The number in its unit. -/
def value (x : Binary) : Nat := 4 * x.significand

/-- Half way down to the next smaller number of the format, in the unit of `x`. Below a power of two
the numbers are twice as dense. -/
def floor (x : Binary) : Nat :=
  if x.significand = hiddenBit ∧ leastExponent < x.exponent then x.value - 1 else x.value - 2

/-- Half way up to the next larger number of the format, in the unit of `x`. -/
def ceiling (x : Binary) : Nat := x.value + 2

/-- Whether `n * 10 ^ t`, scaled to the fraction `n * num / den` of units, reads back as `x`. The
ends of the interval belong to `x` if its significand is even. -/
def admits (x : Binary) (num den : Nat) : Bool :=
  if x.significand % 2 = 0 then
    decide (x.floor * den ≤ num) && decide (num ≤ x.ceiling * den)
  else
    decide (x.floor * den < num) && decide (num < x.ceiling * den)

/-- The decimal `n * 10 ^ t` in the unit of `x`, as a fraction. -/
def scaled (x : Binary) (n : Nat) (t : Int) : Nat × Nat :=
  (n * Nat.pow 10 t.toNat * x.unit.2, Nat.pow 10 (-t).toNat * x.unit.1)

/-- The exponent of the first decimal digit: `10 ^ e ≤ x < 10 ^ (e + 1)`. All numbers of the format
lie above `10 ^ (-400)`. -/
def leadingExponent (x : Binary) : Int :=
  let shifted := x.value * x.unit.1 * Nat.pow 10 400 / x.unit.2
  ((Nat.toDigits 10 shifted).length : Int) - 401

/-- The decimals with step `10 ^ t` next to `x`, below and above, that read back as `x`: the nearer
one, or the upper one if they are equally near. -/
def nearest? (x : Binary) (t : Int) : Option Nat :=
  let step := x.scaled 1 t
  let lower := x.value * step.2 / step.1
  let upper := lower + 1
  let admitted (n : Nat) : Bool := x.admits (n * step.1) step.2
  let upperIsNearer := decide (2 * (x.value * step.2) ≥ (lower + upper) * step.1)
  if admitted upper && (upperIsNearer || !admitted lower) then some upper
  else if admitted lower then some lower
  else none

/-- The first of the steps `10 ^ t`, `10 ^ (t - 1)`, … with a decimal that reads back. Seventeen
digits always do. -/
def search (x : Binary) : (remaining : Nat) → (t : Int) → Nat × Int
  | 0, t => ((x.nearest? t).getD 0, t)
  | remaining + 1, t =>
    match x.nearest? t with
    | some n => (n, t)
    | none => search x remaining (t - 1)

/-- The **shortest decimal** `n * 10 ^ t` that reads back as `x`. -/
def shortest (x : Binary) : Nat × Int :=
  let found := x.search 17 x.leadingExponent
  if found.1 % 10 = 0 then (found.1 / 10, found.2 + 1) else found

end Binary

/-- The decimal `n * 10 ^ t` without an exponent and with at least one digit after the point. -/
def positional (n : Nat) (t : Int) : String :=
  let digits := Nat.toDigits 10 n
  if 0 ≤ t then String.ofList (digits ++ List.replicate t.toNat '0' ++ ['.', '0'])
  else
    let places := (-t).toNat
    let filled := List.leftpad (places + 1) '0' digits
    let point := filled.length - places
    String.ofList (filled.take point ++ '.' :: filled.drop point)

/-- The positive finite number with the given bits, without the sign bit; zero has none. -/
def ofMagnitude? (magnitude : Nat) : Option Binary :=
  let fraction := magnitude % hiddenBit
  let biased := magnitude / hiddenBit
  if magnitude = 0 then none
  else if biased = 0 then some ⟨fraction, leastExponent⟩
  else some ⟨hiddenBit + fraction, leastExponent + (biased - 1 : Nat)⟩

/-- The **text of a floating point number**: shortest digits, always positional. -/
def floatText (x : Float) : String :=
  let bits := x.toBits.toNat
  let magnitude := bits % signBit
  let sign := if bits < signBit then "" else "-"
  if x.isNaN then "NaN"
  else if x.isInf then sign ++ "inf"
  else
    match ofMagnitude? magnitude with
    | none => sign ++ "0.0"
    | some b => sign ++ positional b.shortest.1 b.shortest.2

/-- The floating point number nearest to `n * 10 ^ t`. Far outside the range of the format the
answer is known from the size of the number alone. -/
def toFloat (n : Nat) (t : Int) : Float :=
  let size := ((Nat.toDigits 10 n).length : Int) + t
  if n = 0 then 0.0
  else if 400 < size then 1.0 / 0.0
  else if size < -400 then 0.0
  else if 0 ≤ t then Float.ofScientific n false t.toNat
  else Float.ofScientific n true (-t).toNat

end ThreeAddress.Decimal
