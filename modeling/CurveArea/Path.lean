import CurveArea.FileSystem

/-!
# Paths

What a path means in a file system. A path is followed part by part from the root or from the
working folder, through folders and links. It ends at a folder, or at something that is none: a
device, a file, or a name that is still free.
-/

namespace CurveArea

/-- What a path ends at that is no folder. -/
inductive Leaf
  | device (device : Device)
  | file (place : List String) (content : ByteArray) (refusal : Option FileFault)
  /-- There is nothing of this name in the folder. -/
  | free (folder : List String) (name : String)

/-- What a path leads to. The flag tells whether a slash follows the last name. -/
inductive Target
  | folder
  | leaf (leaf : Leaf) (slash : Bool)

/-- Where a text goes that is written to a path: into the file at a place, to a standard stream, or
nowhere. -/
inductive Sink
  | file (place : List String)
  | output
  | errors
  | nowhere
  deriving DecidableEq, Repr

/-- What a device gives to a reader. -/
def Device.read (input : ByteArray) : Device → Except FileFault ByteArray
  | .input => .ok input
  | .other (some fault) _ => .error fault
  | _ => .ok .empty

/-- What becomes of a text that is written to a device. -/
def Device.sink : Device → Except FileFault Sink
  | .output => .ok .output
  | .errors => .ok .errors
  | .other _ (some fault) => .error fault
  | _ => .ok .nowhere

namespace Path

/-- The parts of a path between its slashes. -/
def parts (path : String) : List (List Char) :=
  (path.toList.splitOn '/').filter (· ≠ [])

/-- Whether a path starts at the root. -/
def isAbsolute (path : String) : Bool := path.toList.head? = some '/'

/-- Whether a slash ends a path. -/
def endsInSlash (path : String) : Bool := path.toList.getLast? = some '/'

/-- Whether a name is too long for a file. -/
def isLongName (name : String) : Bool := 255 < name.utf8ByteSize

/-- Whether a path is too long for a system. -/
def isLong (path : String) : Bool := 4096 ≤ path.utf8ByteSize

/-- How many links a path may lead through. -/
def linkBound : Nat := 40

/-- Where a path starts that is looked at from a folder. -/
def start (folder : List String) (path : String) : List String :=
  if isAbsolute path then [] else folder

end Path

namespace FileSystem

variable (system : FileSystem)

/-- Follows the parts of a path from a folder. The root is above itself. A link is left to `jump`,
with the folder where its path starts and the parts that are then to follow. -/
def walk (jump : Bool → List String → List (List Char) → Except FileFault Target) (slash : Bool) :
    List String → List (List Char) → Except FileFault Target
  | _, [] => .ok .folder
  | folder, part :: parts =>
    if part = ['.'] then walk jump slash folder parts
    else if part = ['.', '.'] then walk jump slash folder.dropLast parts
    else
      let name := String.ofList part
      let place := folder ++ [name]
      match system.get? place with
      | some (.folder _) => walk jump slash place parts
      | some (.link path) =>
        jump (slash || parts.isEmpty && Path.endsInSlash path) (Path.start folder path)
          (Path.parts path ++ parts)
      | some (.device device) =>
        if parts.isEmpty then .ok (.leaf (.device device) slash) else .error .notFolder
      | some (.file content refusal) =>
        if parts.isEmpty then .ok (.leaf (.file place content refusal) slash)
        else .error .notFolder
      | none =>
        if parts.isEmpty then .ok (.leaf (.free folder name) slash)
        else if Path.isLongName name then .error .nameTooLong
        else .error .missing

/-- Follows the parts of a path through so many links at most. -/
def follow : Nat → Bool → List String → List (List Char) → Except FileFault Target
  | 0 => system.walk fun _ _ _ => .error .tooManyLinks
  | links + 1 => system.walk (follow links)

/-- What a path means, or why it leads nowhere. -/
def resolve (path : String) : Except FileFault Target :=
  if path.isEmpty then .error .missing
  else if path.toList.any (· == '\x00') then .error .badName
  else if Path.isLong path then .error .nameTooLong
  else
    system.follow Path.linkBound (Path.endsInSlash path) (Path.start system.working path)
      (Path.parts path)

/-- What a run with some standard input reads at a path. -/
def read (input : ByteArray) (path : String) : Except FileFault ByteArray := do
  match ← system.resolve path with
  | .folder => .error .isFolder
  | .leaf (.free _ name) _ =>
    if Path.isLongName name then .error .nameTooLong else .error .missing
  | .leaf _ true => .error .notFolder
  | .leaf (.file _ content _) false => .ok content
  | .leaf (.device device) false => device.read input

/-- Where a text goes for which a file is created at a path. A file that is there
is used again. -/
def sink (path : String) : Except FileFault Sink := do
  match ← system.resolve path with
  | .folder => .error .isFolder
  | .leaf _ true => .error .isFolder
  | .leaf (.device device) false => device.sink
  | .leaf (.file place _ refusal) false => refusal.elim (.ok (.file place)) .error
  | .leaf (.free folder name) false =>
    if Path.isLongName name then .error .nameTooLong
    else (system.refusal folder).elim (.ok (.file (folder ++ [name]))) .error

end FileSystem

end CurveArea
