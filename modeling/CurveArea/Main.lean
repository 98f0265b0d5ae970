import CurveArea.World
import Std.Time.DateTime

/-!
# The program

The program in the real world: the console, the files and the clock. A run that is to draw a picture
ends before the drawing.
-/

namespace CurveArea.Console

/-- The fault that a code of the system means. Some functions give the code with its sign turned,
and a path with a character that no path may hold is an invalid argument. -/
def faultOfCode (code : UInt32) : FileFault :=
  match (if code ≤ 0x7FFFFFFF then code else 0 - code).toNat with
  | 22 => .badName
  | number => .system number

/-- The fault that an error of the system is; one without a code is an error of input and output. -/
def faultOf : IO.Error → FileFault
  | .alreadyExists _ code _ => faultOfCode code
  | .otherError code _ => faultOfCode code
  | .resourceBusy code _ => faultOfCode code
  | .resourceVanished code _ => faultOfCode code
  | .unsupportedOperation code _ => faultOfCode code
  | .hardwareFault code _ => faultOfCode code
  | .unsatisfiedConstraints code _ => faultOfCode code
  | .illegalOperation code _ => faultOfCode code
  | .interrupted _ code _ => faultOfCode code
  | .noFileOrDirectory _ code _ => faultOfCode code
  | .invalidArgument _ code _ => faultOfCode code
  | .permissionDenied _ code _ => faultOfCode code
  | .resourceExhausted _ code _ => faultOfCode code
  | .inappropriateType _ code _ => faultOfCode code
  | .noSuchThing _ code _ => faultOfCode code
  | _ => .system 5

/-- The result of an action on files, or the fault that it failed with. -/
def attempt {β : Type} (action : IO β) : IO (Except FileFault β) := do
  try return .ok (← action)
  catch e => return .error (faultOf e)

/-- The present moment, in universal time. -/
def now : IO Moment := do
  let t := Std.Time.PlainDateTime.ofWallTime (.ofDuration (← Std.Time.Timestamp.now).val)
  return {
    year := t.date.year.toInt.toNat
    month := t.date.month.toNat
    day := t.date.day.toNat
    hour := t.time.hour.toNat
    minute := t.time.minute.toNat
    second := t.time.second.toNat }

/-- Reads one line of bytes, with its line feed if it has one, byte by byte so that nothing behind
it is taken. -/
partial def readLine (input : IO.FS.Stream) (line : ByteArray) : IO ByteArray := do
  let byte ← input.read 1
  if byte.isEmpty then return line
  if byte.toList = [10] then return line ++ byte
  readLine input (line ++ byte)

/-- Writes a text to a stream, through to its end. -/
def say (stream : IO.FS.Stream) (text : String) : IO Unit := do
  stream.putStr text
  stream.flush

/-- The world of a console. The lines of the journal start with the time; a journal file that cannot
be written is let be. -/
def world (input output errors : IO.FS.Stream) : World IO IO.FS.Handle where
  now := now
  print := say output
  complain := say errors
  readLine := return (← readLine input .empty).toList
  readFile path := attempt (IO.FS.readBinFile path)
  saveFile path text := attempt (IO.FS.writeFile path text)
  openJournal path := attempt (IO.FS.Handle.mk path .write)
  tell journal line := do
    let line := (← now).clock ++ " " ++ line
    say output line
    if let some file := journal then
      discard (attempt (file.putStr line))

end CurveArea.Console

/-- Computes the area that the task file in the first argument asks for, or that the user does. -/
def main (arguments : List String) : IO UInt32 := do
  let world := CurveArea.Console.world (← IO.getStdin) (← IO.getStdout) (← IO.getStderr)
  world.main arguments.head?
