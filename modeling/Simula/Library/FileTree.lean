import Simula.Stream.Bytes

/-!
# File trees

The folders and files of a file system. A path leads from a folder to a file or folder by
steps; an empty step or a single dot stays where it is, and two dots lead to the folder around,
the root being around itself.

A path leads somewhere only if all its steps but the last end in folders. Names and paths are
limited in length, and a path with a zero character leads nowhere.

Creating folders along a path fills in those that are missing. A dot at the end of the path
stands for something inside the last folder, which is therefore not filled in.
-/

namespace Simula

/-- The position of a file or folder: the names from the root downwards. -/
abbrev Position := List String

/-- The files and folders below a root. -/
structure FileTree where
  /-- The content of each file; a folder has none. -/
  entries : List (Position × Option Bytes) := []
  deriving Inhabited

namespace FileTree

/-- The steps of a path. -/
def steps (path : String) : List String := (path.splitOn "/")

/-- The largest number of bytes in a name. -/
def nameLimit : Nat := 255

/-- The largest number of bytes in a path. -/
def pathLimit : Nat := 4095

/-- Whether a step is short enough to be a name. -/
def isName (name : String) : Bool := name.utf8ByteSize ≤ nameLimit

/-- Whether a path of some steps can be followed at all. -/
def isPath (names : List String) : Bool :=
  (String.intercalate "/" names).utf8ByteSize ≤ pathLimit &&
    names.all fun name => name.toList.all (· ≠ '\x00')

/-- Whether a folder is at a position. -/
def isFolder (t : FileTree) (p : Position) : Bool :=
  p.isEmpty || t.entries.lookup p == some none

/-- The content of the file at a position. -/
def file? (t : FileTree) (p : Position) : Option Bytes := (t.entries.lookup p).join

/-- Whether a step stays where it is. -/
def isIdle (name : String) : Bool := name = "" || name = "."

/-- The position that one step leads to. -/
def step (p : Position) (name : String) : Position :=
  if isIdle name then p else if name = ".." then p.dropLast else p ++ [name]

/-- The position that some steps lead to, if every step starts in a folder. -/
def walk (t : FileTree) : Position → List String → Option Position
  | p, [] => some p
  | p, name :: rest => if t.isFolder p && isName name then t.walk (step p name) rest else none

/-- The position that a path leads to from a folder. -/
def follow (t : FileTree) (start : Position) (names : List String) : Option Position :=
  if isPath names then t.walk start names else none

/-- Creates the folders along some steps, up to the first that a file or its length forbids;
tells whether there was none. -/
def createAlong : FileTree → Position → List String → FileTree × Bool
  | t, _, [] => (t, true)
  | t, p, name :: rest =>
    let q := step p name
    if t.isFolder q then t.createAlong q rest
    else if (t.file? q).isSome || !isName name then (t, false)
    else createAlong ⟨(q, none) :: t.entries⟩ q rest

/-- The steps of a path up to the last one that leads elsewhere. -/
def withoutIdleEnd (names : List String) : List String := (names.reverse.dropWhile isIdle).reverse

/-- The steps to the folder around the end of a path. -/
def parentSteps (names : List String) : List String :=
  withoutIdleEnd (withoutIdleEnd names).dropLast

/-- Whether a dot is among the idle steps at the end of a path. -/
def endsInDot (names : List String) : Bool := (names.reverse.takeWhile isIdle).contains "."

/-- Creates the folders along a path; tells whether they are all there afterwards. -/
def createFolders (t : FileTree) (start : Position) (names : List String) : FileTree × Bool :=
  if !isPath names then (t, false)
  else if endsInDot names then
    let (t, done) := t.createAlong start (parentSteps names)
    (t, done && (t.follow start names).any t.isFolder)
  else t.createAlong start names

/-- Writes a file, creating the folders around it; tells whether that was possible. -/
def writeFile (t : FileTree) (start : Position) (names : List String) (content : Bytes) :
    FileTree × Bool :=
  match t.createFolders start (parentSteps names) with
  | (t, false) => (t, false)
  | (t, true) =>
    match t.follow start names with
    | none => (t, false)
    | some p =>
      if t.isFolder p then (t, false)
      else (⟨(p, some content) :: t.entries.filter fun e => e.1 ≠ p⟩, true)

/-- The files below a folder with their positions as seen from it. -/
def filesBelow (t : FileTree) (folder : Position) : List Position :=
  t.entries.filterMap fun e =>
    if e.2.isSome && folder.isPrefixOf e.1 then some (e.1.drop folder.length) else none

/-- The number of bytes in all files. -/
def totalSize (t : FileTree) : Nat :=
  t.entries.foldl (fun n e => n + (e.2.getD []).length) 0

end FileTree

end Simula
