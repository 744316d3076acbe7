import ThreeAddress.Decimal.Shortest
import ThreeAddress.Settings.Quotation

/-!
# Numbers

Integers have 64 bits and are written in base ten, or after `0x`, `0o` and `0b` in base sixteen,
eight and two. Floating point numbers have a fraction, an exponent or both. A single underscore may
separate two digits.
-/

namespace ThreeAddress.Settings

/-- Digits after the first one, without the underscores that separate them. -/
def moreDigits (isDigit : Char → Bool) : Reader (List Char) :=
  Reader.many ((do Reader.the '_'; Reader.char isDigit) <|> Reader.char isDigit)

/-- One or more digits. -/
def digits (isDigit : Char → Bool) : Reader (List Char) := do
  let first ← Reader.char isDigit
  let rest ← moreDigits isDigit
  return first :: rest

/-- One or more decimal digits, without a leading zero unless it is the only one. -/
def wholeDigits : Reader (List Char) :=
  (do
    let first ← Reader.char fun c => c.isDigit && c != '0'
    let rest ← moreDigits Char.isDigit
    return first :: rest) <|>
  (do return [← Reader.char Char.isDigit])

/-- An optional sign; true for a minus. -/
def sign : Reader Bool :=
  (do Reader.the '-'; return true) <|> (do Reader.the '+'; return false) <|> pure false

/-- An integer of 64 bits, or failure. -/
def int64 (n : Int) : Reader Int :=
  if -9223372036854775808 ≤ n ∧ n ≤ 9223372036854775807 then pure n else failure

/-- An integer after the mark of its base. -/
def basedInteger (mark : Char) (base : Nat) (isDigit : Char → Bool) : Reader Int := do
  Reader.row ['0', mark]
  int64 (digitsValue base (← digits isDigit))

/-- An integer. -/
def integer : Reader Int :=
  basedInteger 'x' 16 isHexDigit <|>
  basedInteger 'o' 8 (fun c => decide ('0' ≤ c) && decide (c ≤ '7')) <|>
  basedInteger 'b' 2 (fun c => c == '0' || c == '1') <|>
  (do
    let negative ← sign
    let n : Int := digitsValue 10 (← wholeDigits)
    int64 (if negative then -n else n))

/-- The digits after a decimal point. -/
def fraction : Reader (List Char) := do
  Reader.the '.'
  digits Char.isDigit

/-- The exponent of ten. -/
def exponent : Reader Int := do
  let _ ← Reader.char fun c => c == 'e' || c == 'E'
  let negative ← sign
  let n : Int := digitsValue 10 (← digits Char.isDigit)
  return if negative then -n else n

/-- Gives a number its sign. -/
def signed (negative : Bool) (x : Float) : Float := if negative then -x else x

/-- A floating point number in digits. One too large for the format is refused, unless it is
negative: then it is minus infinity. -/
def decimalFloat : Reader Float := do
  let negative ← sign
  let whole ← wholeDigits
  let places ← Reader.optional? fraction
  let shift ← Reader.optional? exponent
  if places.isNone && shift.isNone then failure
  let places := places.getD []
  let x := Decimal.toFloat (digitsValue 10 (whole ++ places)) (shift.getD 0 - places.length)
  if x.isInf && !negative then failure else return signed negative x

/-- An infinity, or not a number. -/
def specialFloat : Reader Float := do
  let negative ← sign
  let x ← (do Reader.row ['i', 'n', 'f']; return (1.0 / 0.0 : Float)) <|>
    (do Reader.row ['n', 'a', 'n']; return (0.0 / 0.0 : Float))
  return signed negative x

/-- A floating point number. -/
def float : Reader Float := decimalFloat <|> specialFloat

end ThreeAddress.Settings
