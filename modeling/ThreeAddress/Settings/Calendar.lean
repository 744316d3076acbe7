import ThreeAddress.Settings.Quotation

/-!
# Dates and times

A moment is a date, a time of day, or both with an optional offset from universal time. Only whether
the text is a moment matters; no setting takes one.
-/

namespace ThreeAddress.Settings

/-- A given number of decimal digits. -/
def fixedDigits (count : Nat) : Reader Nat := do
  let digits ← (List.replicate count ()).mapM fun _ => Reader.char Char.isDigit
  return digitsValue 10 digits

/-- Two digits that make a number from `low` to `high`. -/
def twoDigits (low high : Nat) : Reader Nat := do
  let n ← fixedDigits 2
  if low ≤ n ∧ n ≤ high then return n else failure

/-- Whether a year has a 29th of February. -/
def isLeapYear (year : Nat) : Bool :=
  year % 4 == 0 && (year % 100 != 0 || year % 400 == 0)

/-- How many days a month has. -/
def daysInMonth (year month : Nat) : Nat :=
  if month = 2 then (if isLeapYear year then 29 else 28)
  else if month = 4 ∨ month = 6 ∨ month = 9 ∨ month = 11 then 30
  else 31

/-- A day of the calendar: `1979-05-27`. -/
def date : Reader Unit := do
  let year ← fixedDigits 4
  Reader.the '-'
  let month ← twoDigits 1 12
  Reader.the '-'
  let _ ← twoDigits 1 (daysInMonth year month)

/-- A time of day: `07:32:00` with an optional fraction of a second. A minute may have a leap
second. -/
def timeOfDay : Reader Unit := do
  let _ ← twoDigits 0 23
  Reader.the ':'
  let _ ← twoDigits 0 59
  Reader.the ':'
  let _ ← twoDigits 0 60
  let _ ← Reader.optional? (do Reader.the '.'; Reader.run1 Char.isDigit)

/-- An offset from universal time: `Z`, or hours and minutes with a sign. -/
def offset : Reader Unit :=
  (do let _ ← Reader.char fun c => c == 'Z' || c == 'z') <|>
  (do
    let _ ← Reader.char fun c => c == '+' || c == '-'
    let _ ← twoDigits 0 23
    Reader.the ':'
    let _ ← twoDigits 0 59)

/-- A moment. -/
def moment : Reader Unit :=
  (do
    date
    let _ ← Reader.optional? (do
      let _ ← Reader.char fun c => c == 'T' || c == 't' || c == ' '
      timeOfDay
      Reader.optional? offset)) <|>
  timeOfDay

end ThreeAddress.Settings
