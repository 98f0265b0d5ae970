import CurveArea.Decimal.Literal

/-!
# TOML dates and times

A date, a time of day, or both, and with both perhaps the offset of the time zone. Each part has a
fixed number of digits, and has to exist: February has 29 days in a leap year only, and a minute has
60 seconds, one more if a leap second is put in. A time of day may leave out its seconds.
-/

namespace CurveArea.Toml

/-- The number of days in a month. -/
def daysInMonth (year month : Nat) : Nat :=
  if month = 2 then
    if year % 4 = 0 ∧ (year % 100 ≠ 0 ∨ year % 400 = 0) then 29 else 28
  else if month = 4 ∨ month = 6 ∨ month = 9 ∨ month = 11 then 30
  else 31

/-- The number that exactly `count` digits at the start of a text say, and the rest. -/
def fixedDigits? (count : Nat) (text : List Char) : Option (Nat × List Char) :=
  let digits := text.take count
  if digits.length = count ∧ digits.all Char.isDigit then
    some (Decimal.digitsValue digits, text.drop count)
  else none

/-- The rest of a text that starts with a given character. -/
def after? (mark : Char) : List Char → Option (List Char)
  | c :: rest => if c = mark then some rest else none
  | [] => none

/-- The text behind a date that exists. -/
def afterDate? (text : List Char) : Option (List Char) := do
  let (year, text) ← fixedDigits? 4 text
  let (month, text) ← fixedDigits? 2 (← after? '-' text)
  let (day, text) ← fixedDigits? 2 (← after? '-' text)
  if 1 ≤ month ∧ month ≤ 12 ∧ 1 ≤ day ∧ day ≤ daysInMonth year month then some text else none

/-- The text behind the fraction of a second, if there is one. -/
def afterFraction? : List Char → Option (List Char)
  | '.' :: rest =>
    match rest with
    | d :: _ => if d.isDigit then some (rest.dropWhile Char.isDigit) else none
    | [] => none
  | text => some text

/-- The text behind the seconds of a time of day, if there are any. -/
def afterSeconds? : List Char → Option (List Char)
  | ':' :: rest => do
    let (second, text) ← fixedDigits? 2 rest
    if second ≤ 60 then afterFraction? text else none
  | text => some text

/-- The text behind a time of day that exists. -/
def afterTime? (text : List Char) : Option (List Char) := do
  let (hour, text) ← fixedDigits? 2 text
  let (minute, text) ← fixedDigits? 2 (← after? ':' text)
  if hour ≤ 23 ∧ minute ≤ 59 then afterSeconds? text else none

/-- Whether a text is an offset of a time zone, or nothing. -/
def isOffset (text : List Char) : Bool :=
  match text with
  | [] => true
  | ['Z'] => true
  | ['z'] => true
  | '+' :: rest => isHourMinute rest
  | '-' :: rest => isHourMinute rest
  | _ => false
where
  isHourMinute (text : List Char) : Bool :=
    match (do
      let (hour, text) ← fixedDigits? 2 text
      let (minute, text) ← fixedDigits? 2 (← after? ':' text)
      return (hour ≤ 23 ∧ minute ≤ 59 ∧ text = [] : Bool)) with
    | some valid => valid
    | none => false

/-- Whether a text is a date, a time of day, or a date with a time of day and perhaps an offset. -/
def isMoment (text : List Char) : Bool :=
  match afterDate? text with
  | some [] => true
  | some (c :: rest) =>
    (c = 'T' || c = 't' || c = ' ') && ((afterTime? rest).any isOffset)
  | none => afterTime? text = some []

end CurveArea.Toml
