import CurveArea.FileSystem
import CurveArea.Task
import CurveArea.Text.Blank

/-!
# Asking for a task

Without a task file the user is asked for the task, one line an answer. A dialogue is the tree of
what is asked next after each answer, so an answer is looked at before the next one is asked for,
and a dialogue that has ended reads no more.
-/

namespace CurveArea

/-- Why the answers give no task. -/
inductive PromptError
  | endOfInput
  | notText
  | notNumber (answer : String)
  | notInteger (answer : String)
  deriving DecidableEq, Repr

/-- The message that is shown for answers that give no task. -/
def PromptError.message : PromptError → String
  | endOfInput => "unexpected end of input"
  | notText => FileFault.notText.message
  | notNumber answer => "'" ++ answer ++ "' is not a number"
  | notInteger answer => "'" ++ answer ++ "' is not an integer"

/-- What is asked, and what comes of the answers. -/
inductive Dialogue (β : Type)
  | ask (prompt : String) (next : String → Dialogue β)
  | done (result : Except PromptError β)

namespace Dialogue

/-- The first line of a text in bytes, with its line feed if it has one, and the rest. -/
def splitLine : List UInt8 → List UInt8 × List UInt8
  | [] => ([], [])
  | b :: rest =>
    if b = 10 then ([b], rest)
    else
      let (line, rest) := splitLine rest
      (b :: line, rest)

/-- The answer that a line gives, without the blanks around it; an empty line is an answer, no line
is none. -/
def answer (line : List UInt8) : Except PromptError String :=
  if line.isEmpty then .error .endOfInput
  else
    match String.fromUTF8? ⟨line.toArray⟩ with
    | some text => .ok (String.ofList (Text.trim text.toList))
    | none => .error .notText

/-- What a dialogue over a text in bytes prints, what comes of it, and what is left of the text. -/
def run {β : Type} : Dialogue β → List UInt8 → String × Except PromptError β × List UInt8
  | done result, input => ("", result, input)
  | ask prompt next, input =>
    let (line, rest) := splitLine input
    match answer line with
    | .error e => (prompt, .error e, rest)
    | .ok text =>
      let (printed, result, rest) := (next text).run rest
      (prompt ++ printed, result, rest)

/-- Asks for a number. -/
def askNumber {β : Type} (prompt : String) (next : Float → Dialogue β) : Dialogue β :=
  ask prompt fun answer =>
    match Decimal.read? answer with
    | some x => next x
    | none => done (.error (.notNumber answer))

/-- Asks for a whole number. -/
def askInt {β : Type} (prompt : String) (next : Int → Dialogue β) : Dialogue β :=
  ask prompt fun answer =>
    match Decimal.readInt? answer with
    | some n => next n
    | none => done (.error (.notInteger answer))

end Dialogue

namespace Task

/-- What the user is told before a polynomial is asked for. -/
def hint : String := "Enter a polynomial in x like '2x^2 + 3x + 4':\n"

/-- Where the picture of a task goes that the user was asked for (`DEFAULT_PLOT`). -/
def defaultPlot : String := "area_between.png"

/-- Asks for a task (`read_task`): both curves, both bounds, the number of rectangles. -/
def dialogue : Dialogue Task :=
  .ask (hint ++ "f1(x) = ") fun f1 =>
  .ask (hint ++ "f2(x) = ") fun f2 =>
  .askNumber "a = " fun a =>
  .askNumber "b = " fun b =>
  .askInt "number of rectangles for the Riemann sum: " fun n =>
  .done (.ok
    { f1, f2, a, b, n
      level := .standard
      keepsJournal := false
      plot := some defaultPlot
      csv := none })

end Task

end CurveArea
