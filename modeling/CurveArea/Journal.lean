import CurveArea.Report

/-!
# The journal of a run

Which of its notes a run shows, and how. A level lets its own notes pass and the graver ones; the
level `off` keeps no journal at all.
-/

namespace CurveArea

/-- How much a run tells. -/
inductive LogLevel
  | off
  | error
  | warn
  | info
  | debug
  deriving DecidableEq, Repr, Inhabited

namespace LogLevel

/-- The level that is used if none is named. -/
def standard : LogLevel := warn

/-- The name of a level. -/
def name : LogLevel → String
  | off => "none"
  | error => "error"
  | warn => "warn"
  | info => "info"
  | debug => "debug"

/-- The mark of a level in front of a note (`LogLevel::to_level_filter`). -/
def mark : LogLevel → String
  | off => "OFF"
  | error => "ERROR"
  | warn => "WARN"
  | info => "INFO"
  | debug => "DEBUG"

/-- The levels by the words that name them; the first two words name the same one. -/
def words : List (String × LogLevel) :=
  [("off", off), ("none", off), ("error", error), ("warn", warn), ("info", info),
    ("debug", debug)]

/-- The level that a word names, in capital or small letters (`LogLevel::from_str`). -/
def ofWord? (word : String) : Option LogLevel :=
  (words.find? fun entry => entry.1.toList = word.toList.map Char.toLower).map (·.2)

/-- How far down a level reaches. -/
def rank : LogLevel → Nat
  | off => 0
  | error => 1
  | warn => 2
  | info => 3
  | debug => 4

/-- Whether a journal kept at `level` takes a note of level `noted`. -/
def shows (level noted : LogLevel) : Bool := noted.rank ≤ level.rank

end LogLevel

namespace Note

/-- The level of a note. -/
def level {α : Type} : Note α → LogLevel
  | crossing .. => .warn
  | _ => .info

/-- The text of a note. -/
def text : Note Float → String
  | leftSum n a b sum =>
    "left Riemann sum with " ++ toString n ++ " rectangles on " ++ bounds a b ++ ": " ++
      Decimal.plain sum
  | areas analytic riemann error =>
    "area by definite integral: " ++ Decimal.plain analytic ++ ", by left Riemann sum: " ++
      Decimal.plain riemann ++ ", absolute error: " ++ Decimal.plain error
  | crossing relative a b n =>
    "areas differ by " ++ Decimal.fixed 1 (100.0 * relative) ++
      "%: the curves may cross inside " ++ bounds a b ++ " or n = " ++ toString n ++
      " is too small"
  | samplesSaved path => "samples saved to " ++ path
where
  bounds (a b : Float) : String := "[" ++ Decimal.plain a ++ ", " ++ Decimal.plain b ++ "]"

/-- The line of a note in a journal, without the time. -/
def line (note : Note Float) : String := "[" ++ note.level.mark ++ "] " ++ note.text ++ "\n"

end Note

/-- A moment of the calendar, to the second. -/
structure Moment where
  year : Nat
  month : Nat
  day : Nat
  hour : Nat
  minute : Nat
  second : Nat
  deriving DecidableEq, Repr

namespace Moment

/-- A number with zeros in front, `width` digits at least. -/
def padded (width n : Nat) : String :=
  let digits := Decimal.digitChars n
  String.ofList (List.replicate (width - digits.length) '0' ++ digits)

/-- The name of the journal file of a run that starts at a moment (`log_file_name`). -/
def journalName (m : Moment) : String :=
  "log_" ++ padded 4 m.year ++ "-" ++ padded 2 m.month ++ "-" ++ padded 2 m.day ++ "_" ++
    padded 2 m.hour ++ "-" ++ padded 2 m.minute ++ "-" ++ padded 2 m.second ++ ".txt"

/-- The time of day. -/
def clock (m : Moment) : String :=
  padded 2 m.hour ++ ":" ++ padded 2 m.minute ++ ":" ++ padded 2 m.second

end Moment

end CurveArea
