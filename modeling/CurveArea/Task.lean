import CurveArea.Journal
import CurveArea.Toml.Document

/-!
# Tasks

A task says which area to compute: two curves, the bounds, the number of rectangles, and what to put
out. A task file is a TOML document. Its parts are looked at in a fixed order, the section `output`
first, and the first fault is the one that is told; keys that a task does not know are passed over.
-/

namespace CurveArea

/-- A computation that a user asks for (`CalcTask`). The curves and the number of rectangles are as
written and are checked when the task is run. -/
structure Task where
  f1 : String
  f2 : String
  a : Float
  b : Float
  n : Int
  /-- How much the run tells. -/
  level : LogLevel
  /-- Whether the journal is kept in a file as well. -/
  keepsJournal : Bool
  /-- Where the picture goes. -/
  plot : Option String
  /-- Where the table of samples goes. -/
  csv : Option String

/-- What the value of a key has to be. -/
inductive Expected
  | text
  | number
  | wholeNumber
  | truth
  deriving DecidableEq, Repr

/-- The description of an expected value. -/
def Expected.description : Expected → String
  | text => "a string"
  | number => "a number"
  | wholeNumber => "an integer"
  | truth => "true or false"

/-- Why a task file is none. -/
inductive TaskError
  /-- The text is no TOML document. -/
  | malformed
  | outputNotSection
  | missing (key : String)
  | mistyped (key : String) (expected : Expected)
  | unknownLevel (word : String)
  deriving DecidableEq, Repr

/-- The message that is shown for a task file that is none. -/
def TaskError.message : TaskError → String
  | malformed => "cannot parse task file"
  | outputNotSection => "'output' must be a section"
  | missing key => "missing key '" ++ key ++ "' in task file"
  | mistyped key expected => "key '" ++ key ++ "' must be " ++ expected.description
  | unknownLevel word =>
    "unknown loglevel '" ++ word ++ "', use off, error, warn, info or debug"

namespace Task

open Toml

/-- The value of a key that has to be there (`required`). -/
def required (table : Table) (key : String) : Except TaskError Value :=
  match table.get? key with
  | some value => .ok value
  | none => .error (.missing key)

/-- The text of a key that has to be there (`get_str`). -/
def requiredText (table : Table) (key : String) : Except TaskError String := do
  match ← required table key with
  | .string text => .ok text
  | _ => .error (.mistyped key .text)

/-- The number of a key that has to be there (`get_float`); a whole number will do. -/
def requiredNumber (table : Table) (key : String) : Except TaskError Float := do
  match ← required table key with
  | .float x => .ok x
  | .integer n => .ok (Float.ofInt n)
  | _ => .error (.mistyped key .number)

/-- The whole number of a key that has to be there (`get_int`). -/
def requiredInt (table : Table) (key : String) : Except TaskError Int := do
  match ← required table key with
  | .integer n => .ok n
  | _ => .error (.mistyped key .wholeNumber)

/-- The section `output`, empty if there is none. -/
def outputSection (table : Table) : Except TaskError Table :=
  match table.get? "output" with
  | none => .ok []
  | some (.table output) => .ok output
  | some _ => .error .outputNotSection

/-- The level that the section `output` names. -/
def outputLevel (output : Table) : Except TaskError LogLevel :=
  match output.get? "loglevel" with
  | none => .ok .standard
  | some (.string word) =>
    match LogLevel.ofWord? word with
    | some level => .ok level
    | none => .error (.unknownLevel word)
  | some _ => .error (.mistyped "output.loglevel" .text)

/-- Whether the section `output` asks for a journal file. -/
def outputJournal (output : Table) : Except TaskError Bool :=
  match output.get? "log_file" with
  | none => .ok false
  | some (.boolean keeps) => .ok keeps
  | some _ => .error (.mistyped "output.log_file" .truth)

/-- The path that the section `output` has for a key (`get_optional_path`). -/
def outputPath (output : Table) (key : String) : Except TaskError (Option String) :=
  match output.get? key with
  | none => .ok none
  | some (.string path) => .ok (some path)
  | some _ => .error (.mistyped ("output." ++ key) .text)

/-- The task that a table describes (`CalcTask::from_toml_str`). -/
def ofTable (table : Table) : Except TaskError Task := do
  let output ← outputSection table
  let level ← outputLevel output
  let keepsJournal ← outputJournal output
  let f1 ← requiredText table "f1"
  let f2 ← requiredText table "f2"
  let a ← requiredNumber table "a"
  let b ← requiredNumber table "b"
  let n ← requiredInt table "n"
  let plot ← outputPath output "plot"
  let csv ← outputPath output "csv"
  return { f1, f2, a, b, n, level, keepsJournal, plot, csv }

/-- The task that a text describes. -/
def parse (text : String) : Except TaskError Task :=
  match Document.read? text with
  | some table => ofTable table
  | none => .error .malformed

end Task

end CurveArea
