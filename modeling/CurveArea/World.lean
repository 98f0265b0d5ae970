import CurveArea.Dialogue
import CurveArea.Path
import CurveArea.Plan

/-!
# The program in a world

A run of the program is what it does to the world around it: it asks, reads, prints, saves and keeps
a journal. The world is a parameter, a structure of actions in some monad. What is done in which
order and how a run ends is settled here, once for every world.
-/

namespace CurveArea

/-- Why a run failed. -/
inductive Failure
  | area (e : AreaError Float)
  | task (e : TaskError)
  | prompt (e : PromptError)
  /-- The task file could not be read. -/
  | unreadable (path : String) (fault : FileFault)
  /-- The samples could not be saved. -/
  | unsaved (fault : FileFault)
  deriving Repr

/-- The message that is shown for a failed run. -/
def Failure.message : Failure → String
  | area e => e.message
  | task e => e.message
  | prompt e => e.message
  | unreadable path fault => "cannot read " ++ path ++ ": " ++ fault.message
  | unsaved fault => fault.message

/-- The line on standard error about a failed run. -/
def Failure.line (f : Failure) : String := "Error: " ++ f.message ++ "\n"

/-- How a run ends. -/
inductive Ending
  | success
  | failure (cause : Failure)
  /-- The run reached the drawing of the picture. -/
  | drawing (path : String)
  deriving Repr

namespace Ending

/-- The code that the program exits with. -/
def exitCode : Ending → UInt32
  | failure _ => 1
  | _ => 0

/-- What the program says on standard error at its end. -/
def complaint : Ending → String
  | failure cause => cause.line
  | _ => ""

end Ending

/-- How a plan ends if nothing ends it before. -/
def Plan.ending (plan : Plan) : Ending :=
  match plan.failure with
  | none => .success
  | some e => .failure (.area e)

namespace Task

/-- The name of the journal file of a task that starts at a moment. Without a level there is no
journal. -/
def journalName? (task : Task) (now : Moment) : Option String :=
  if task.keepsJournal && task.level != .off then some now.journalName else none

/-- The task that the content of a file describes. -/
def ofContent (path : String) (content : ByteArray) : Except Failure Task :=
  match String.fromUTF8? content with
  | none => .error (.unreadable path .notText)
  | some text => (parse text).mapError .task

end Task

/-- What a program can do to the world around it. -/
structure World (m : Type → Type) (Journal : Type) where
  /-- The present moment. -/
  now : m Moment
  /-- Writes a text to standard output. -/
  print : String → m Unit
  /-- Writes a text to standard error. -/
  complain : String → m Unit
  /-- Takes a line from standard input, with its line feed if it has one. -/
  readLine : m (List UInt8)
  /-- Reads the file at a path. -/
  readFile : String → m (Except FileFault ByteArray)
  /-- Creates the file at a path with a text in it. -/
  saveFile : String → String → m (Except FileFault Unit)
  /-- Creates a journal file at a path. -/
  openJournal : String → m (Except FileFault Journal)
  /-- Shows a line of the journal on the console, and adds it to the journal file if there is
  one. -/
  tell : Option Journal → String → m Unit

namespace World

variable {m : Type → Type} [Monad m] {Journal β : Type} (world : World m Journal)

/-- Carries on a dialogue, a line for each question (`prompt`). -/
def converse : Dialogue β → m (Except PromptError β)
  | .done result => return result
  | .ask prompt next => do
    world.print prompt
    match Dialogue.answer (← world.readLine) with
    | .error e => return .error e
    | .ok text => converse (next text)

/-- The task in a file (`CalcTask::from_file`). -/
def load (path : String) : m (Except Failure Task) := do
  match ← world.readFile path with
  | .error fault => return .error (.unreadable path fault)
  | .ok content => return Task.ofContent path content

/-- Opens the journal file of a task, if it keeps one. A run goes on without the file if it cannot
be created (`init_logger`). -/
def journal? (task : Task) : m (Option Journal) := do
  match task.journalName? (← world.now) with
  | none => return none
  | some name =>
    match ← world.openJournal name with
    | .ok journal => return some journal
    | .error fault =>
      world.complain ("cannot create log file " ++ name ++ ": " ++ fault.message ++ "\n")
      return none

/-- Performs the effects of a plan up to the first that ends the run. -/
def perform (level : LogLevel) (journal : Option Journal) (atEnd : Ending) :
    List Effect → m Ending
  | [] => return atEnd
  | .print text :: rest => do
    world.print text
    perform level journal atEnd rest
  | .tell note :: rest => do
    if level.shows note.level then
      world.tell journal note.line
    perform level journal atEnd rest
  | .save path content :: rest => do
    match ← world.saveFile path content with
    | .ok () => perform level journal atEnd rest
    | .error fault => return .failure (.unsaved fault)
  | .draw path :: _ => return .drawing path

/-- Runs a task (`run`, after `init_logger`). -/
def runTask (task : Task) : m Ending := do
  let journal ← world.journal? task
  world.perform task.level journal task.plan.ending task.plan.effects

/-- Runs the task in the file of the argument, or the one that the user is asked for. -/
def command (argument : Option String) : m Ending := do
  let task ← match argument with
    | some path => world.load path
    | none => do
      let result ← world.converse Task.dialogue
      pure (result.mapError .prompt)
  match task with
  | .ok task => world.runTask task
  | .error cause => return .failure cause

/-- The whole program, with the code that it exits with (`main`). -/
def main (argument : Option String) : m UInt32 := do
  let ending ← world.command argument
  world.complain ending.complaint
  return ending.exitCode

end World

end CurveArea
