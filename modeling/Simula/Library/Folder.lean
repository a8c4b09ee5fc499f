import Simula.Library
import Simula.Library.FileTree

/-!
# Folders of attribute files

A library can be a folder of a file tree. Its entries are paths below the folder; an entry that
is no path to a file is looked for in all packages, as the end of the path of an attribute file.
-/

namespace Simula

/-- A folder of a file tree that serves as a library. -/
structure Folder where
  files : FileTree
  /-- The position of the folder. -/
  root : Position

namespace Folder

/-- An empty folder at a position in a file tree without files. -/
def empty (position : Position) : Folder where
  files := (FileTree.createFolders {} [] position).1
  root := position

/-- Whether a file name has the extension of attribute files after a name of its own. -/
def isAttributeFile (name : String) : Bool := name.endsWith ".atr" && name ≠ ".atr"

/-- The entries of all attribute files below the folder, in ascending order. -/
def attributeEntries (f : Folder) : List String :=
  let positions := (f.files.filesBelow f.root).filter fun p => p.getLast?.any isAttributeFile
  (positions.map (String.intercalate "/")).mergeSort

/-- The content of the file that an entry is a path to. -/
def fileAt? (f : Folder) (entry : String) : Option Bytes :=
  (f.files.follow f.root (FileTree.steps entry)).bind f.files.file?

/-- Reads an entry. -/
def read (f : Folder) (entry : String) : Except Error Bytes :=
  let found := (f.fileAt? entry) <|>
    (f.attributeEntries.find? fun e => e.endsWith ("/" ++ entry)).bind f.fileAt?
  match found with
  | some bytes => .ok bytes
  | none => .error (.missingAttributeFile entry)

/-- Adds an entry, or a folder if it has no content. -/
def stage (f : Folder) (entry : String) (content : Option Bytes) : Folder × Except Error Unit :=
  let (files, done) := match content with
    | none => f.files.createFolders f.root (FileTree.steps entry)
    | some bytes => f.files.writeFile f.root (FileTree.steps entry) bytes
  ({ f with files := files }, if done then .ok () else .error .io)

/-- Where a path to another folder starts: in this one, or at the root if it begins with a
slash. -/
def start (f : Folder) (path : String) : Position := if path.startsWith "/" then [] else f.root

/-- The library in the folder that a path leads to. -/
def enter (f : Folder) (path : String) : Except Error Folder :=
  match f.files.follow (f.start path) (FileTree.steps path) with
  | some p => if f.files.isFolder p then .ok ⟨f.files, p⟩ else .error (.missingLibrary path)
  | none => .error (.missingLibrary path)

/-- The library in a folder that is created if need be, and this folder afterwards. -/
def create (f : Folder) (path : String) : Folder × Except Error Folder :=
  match f.files.createFolders (f.start path) (FileTree.steps path) with
  | (files, true) => (⟨files, f.root⟩, enter ⟨files, f.root⟩ path)
  | (files, false) => (⟨files, f.root⟩, .error .io)

/-- The folder as a source of attribute files. Every entry named in a file takes up bytes of
it, so the size of all files bounds the number of different entries. -/
def library (f : Folder) : AttributeLibrary where
  read := f.read
  chainBound := f.files.totalSize + 1

end Folder

end Simula
