import CurveArea.Path

/-!
# Folders

The files of one folder, and a system that holds nothing of interest but this folder: it is the
working folder, and around it stands what POSIX asks of every system.
-/

namespace CurveArea

/-- The files of a folder by name. -/
structure Folder where
  files : List (String × ByteArray) := []

namespace Folder

/-- Where the folder is. -/
def place : List String := ["tmp", "run"]

/-- What stands around the folder. -/
def surroundings : List (List String × Entry) :=
  [([], .folder none), (["dev"], .folder none), (["tmp"], .folder none), (place, .folder none),
    (["dev", "null"], .device (.other none none)), (["dev", "stdin"], .device .input),
    (["dev", "stdout"], .device .output), (["dev", "stderr"], .device .errors)]

/-- The system of a run in the folder. -/
def system (folder : Folder) : FileSystem where
  entries := folder.files.map (fun file => (place ++ [file.1], .file file.2 none)) ++ surroundings
  working := place

instance : Coe Folder FileSystem := ⟨system⟩

/-- What a run in the folder reads at a path. -/
def read (folder : Folder) : ByteArray → String → Except FileFault ByteArray := folder.system.read

/-- Where a text goes for which a run in the folder creates a file. -/
def sink (folder : Folder) : String → Except FileFault Sink := folder.system.sink

end Folder

/-- The files of the working folder. -/
def FileSystem.folder (system : FileSystem) : Folder where
  files := system.entries.filterMap fun
    | (place, .file content _) =>
      if place.dropLast = system.working then place.getLast?.map (·, content) else none
    | _ => none

end CurveArea
