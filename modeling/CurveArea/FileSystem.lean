/-!
# File systems

What a run finds on the machine that it runs on: the folders, files, devices and links, each at its
place. A system is whatever map of entries it is; nothing here says what stands where. How the
reading or the creating of a file fails is a fault with the message that is shown for it. A file
that can be created takes any text.
-/

namespace CurveArea

/-- Why a file could not be read or created. -/
inductive FileFault
  /-- The system refused, with the number of its error. -/
  | system (number : Nat)
  /-- The path holds a character that no path may hold. -/
  | badName
  /-- The content of a file is no text. -/
  | notText
  deriving DecidableEq, Repr

namespace FileFault

/-- No file has this name. -/
def missing : FileFault := system 2

/-- The path leads through something that is no folder. -/
def notFolder : FileFault := system 20

/-- There is a folder where a file is asked for. -/
def isFolder : FileFault := system 21

/-- A name or a path is too long. -/
def nameTooLong : FileFault := system 36

/-- A path leads through too many links. -/
def tooManyLinks : FileFault := system 40

/-- What a system calls its errors, by their numbers (`strerror`). -/
def names : List (Nat × String) :=
  [(1, "Operation not permitted"), (2, "No such file or directory"), (4, "Interrupted system call"),
    (5, "Input/output error"), (6, "No such device or address"), (9, "Bad file descriptor"),
    (11, "Resource temporarily unavailable"), (12, "Cannot allocate memory"),
    (13, "Permission denied"), (16, "Device or resource busy"), (17, "File exists"),
    (19, "No such device"), (20, "Not a directory"), (21, "Is a directory"),
    (22, "Invalid argument"), (23, "Too many open files in system"), (24, "Too many open files"),
    (26, "Text file busy"), (27, "File too large"), (28, "No space left on device"),
    (30, "Read-only file system"), (32, "Broken pipe"), (36, "File name too long"),
    (40, "Too many levels of symbolic links"), (75, "Value too large for defined data type"),
    (122, "Disk quota exceeded")]

/-- The text for an error of the system. -/
def describe (number : Nat) : String :=
  (names.lookup number).getD ("Unknown error " ++ toString number)

/-- The message that is shown for a file that could not be read or created. -/
def message : FileFault → String
  | system number => describe number ++ " (os error " ++ toString number ++ ")"
  | badName => "file name contained an unexpected NUL byte"
  | notText => "stream did not contain valid UTF-8"

end FileFault

/-- The devices of a system: those by which a run reaches its own standard streams, and those that
give nothing, forget what is written to them, or refuse the one or the other. -/
inductive Device
  | input
  | output
  | errors
  | other (onRead onWrite : Option FileFault)
  deriving DecidableEq, Repr

/-- What stands at a place of a system. A folder may refuse new files, and a file may refuse to be
written. A link stands for another path. -/
inductive Entry
  | folder (refusal : Option FileFault)
  | file (content : ByteArray) (refusal : Option FileFault)
  | device (device : Device)
  | link (path : String)

/-- The entries of a system by their places, and the folder that a run works in. A place is the list
of the names that lead to it from the root. -/
structure FileSystem where
  entries : List (List String × Entry)
  working : List String

namespace FileSystem

/-- What stands at a place. -/
def get? (system : FileSystem) (place : List String) : Option Entry := system.entries.lookup place

/-- The system with an entry at a place, instead of what stood there. -/
def put (system : FileSystem) (place : List String) (entry : Entry) : FileSystem :=
  { system with entries := (place, entry) :: system.entries.filter (·.1 != place) }

/-- The system after a file has been written at a place. -/
def write (system : FileSystem) (place : List String) (content : ByteArray) : FileSystem :=
  system.put place (.file content none)

/-- The content of the file at a place; there is none where no file is. -/
def content (system : FileSystem) (place : List String) : ByteArray :=
  match system.get? place with
  | some (.file content _) => content
  | _ => .empty

/-- Why a place takes no new file: there is no folder, or one that refuses. -/
def refusal (system : FileSystem) (place : List String) : Option FileFault :=
  match system.get? place with
  | some (.folder refusal) => refusal
  | _ => some .missing

end FileSystem

end CurveArea
