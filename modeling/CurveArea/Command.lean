import CurveArea.Folder
import CurveArea.World

/-!
# The command

The program as a function: from the argument, the bytes on standard input, the file system and the
time, to what is printed, how the run ends and the file system that it leaves. It is the program of
`World` in a world that is a value. The time that stands in front of a line of the journal is left
out.
-/

namespace CurveArea

/-- A run so far: what is left of standard input, what was written to standard output and to
standard error, and the file system. -/
structure Progress where
  input : List UInt8 := []
  printed : String := ""
  complained : String := ""
  system : FileSystem

namespace Progress

/-- Writes a text to standard output. -/
def print (p : Progress) (text : String) : Progress := { p with printed := p.printed ++ text }

/-- Writes a text to standard error. -/
def complain (p : Progress) (text : String) : Progress :=
  { p with complained := p.complained ++ text }

/-- Writes a text where a path leads to; it takes the place of what a file held. -/
def write (p : Progress) (text : String) : Sink → Progress
  | .file place => { p with system := p.system.write place text.toUTF8 }
  | .output => p.print text
  | .errors => p.complain text
  | .nowhere => p

/-- Adds a text to what was written where a path leads to. -/
def append (p : Progress) (text : String) : Sink → Progress
  | .file place =>
    { p with system := p.system.write place (p.system.content place ++ text.toUTF8) }
  | sink => p.write text sink

/-- Saves a text at a path. -/
def save (p : Progress) (path text : String) : Except FileFault Progress := do
  let sink ← p.system.sink path
  return p.write text sink

/-- The files of the working folder. -/
def folder (p : Progress) : Folder := p.system.folder

/-- The world that is a value, at a moment. -/
def world (now : Moment) : World (StateM Progress) Sink where
  now := return now
  print text := modify (·.print text)
  complain text := modify (·.complain text)
  readLine := modifyGet fun p =>
    let (line, rest) := Dialogue.splitLine p.input
    (line, { p with input := rest })
  readFile path := return (← get).system.read ⟨(← get).input.toArray⟩ path
  saveFile path text := modifyGet fun p =>
    match p.save path text with
    | .ok q => (.ok (), q)
    | .error fault => (.error fault, p)
  openJournal path := modifyGet fun p =>
    match p.system.sink path with
    | .ok sink => (.ok sink, p.write "" sink)
    | .error fault => (.error fault, p)
  tell journal line := modify fun p => journal.elim (p.print line) ((p.print line).append line)

end Progress

namespace Command

variable (argument : Option String) (input : List UInt8) (system : FileSystem) (now : Moment)

/-- One run of the program, up to what it says at its end. -/
def run : Progress × Ending :=
  (((Progress.world now).command argument).run { input, system }).swap

/-- One run of the whole program, with the code that it exits with. -/
def exit : Progress × UInt32 :=
  (((Progress.world now).main argument).run { input, system }).swap

end Command

end CurveArea
