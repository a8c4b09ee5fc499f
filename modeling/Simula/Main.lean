import Simula.CommandLine

/-!
# The program

Reads the folder of the library, runs the command on it and prints what the run leaves behind.
Files outside the folder are read when an entry leads to them.
-/

namespace Simula

/-- The file or folder behind an entry of a folder, with all below it. Links to folders are
not followed. -/
partial def readEntry (folder : Position) (e : IO.FS.DirEntry) :
    IO (List (Position × Option Bytes)) := do
  let position := folder ++ [e.fileName]
  if ← e.path.isDir then
    if (← e.path.symlinkMetadata).type == .symlink then return []
    let inner ← (← e.path.readDir).toList.mapM (readEntry position)
    return (position, none) :: inner.flatten
  else
    return [(position, some (← IO.FS.readBinFile e.path).toList)]

/-- The library in a folder of the file system. -/
def readLibrary (path : String) : IO (Except Error Folder) := do
  try
    let place ← IO.FS.realPath path
    let empty := Folder.empty ((FileTree.steps place.toString).filter (· ≠ ""))
    let files ← (← place.readDir).toList.mapM (readEntry empty.root)
    return .ok { empty with files := ⟨files.flatten ++ empty.files.entries⟩ }
  catch _ => return .error (.missingLibrary path)

/-- The content of a file of the file system. -/
def contentAt? (path : String) : IO (Option Bytes) := do
  try return some (← IO.FS.readBinFile path).toList catch _ => return none

/-- Adds the files to a library that an invocation needs from outside its folder. -/
partial def complete (i : CommandLine.Invocation) (folder : Folder) : IO Folder := do
  match i.missing? folder with
  | none => return folder
  | some entry =>
    match ← contentAt? (i.library ++ "/" ++ entry) with
    | none => return folder
    | some bytes =>
      match folder.stage entry (some bytes) with
      | (folder, .ok _) => complete i folder
      | (folder, .error _) => return folder

/-- Runs an invocation on the library that it names. -/
def CommandLine.Invocation.perform (i : Invocation) : IO Outcome := do
  match ← readLibrary i.library with
  | .ok folder => return i.execute (← complete i folder)
  | .error e => return .libraryFailure i.library e

end Simula

/-- Runs the command line. -/
def main (args : List String) : IO UInt32 := do
  match Simula.CommandLine.Request.ofArguments args with
  | .error misuse =>
    IO.eprintln ("error: " ++ misuse.message)
    return Simula.CommandLine.misuseCode.toUInt32
  | .ok request =>
    let outcome ← match request with
      | .version => pure Simula.CommandLine.Outcome.version
      | .invocation i => i.perform
    IO.eprint outcome.diagnostics
    IO.print outcome.output
    return outcome.code.toUInt32
