import Simula.Graph.Traversal
import Simula.Hierarchy
import Simula.ObjectStream.Reader
import Simula.ObjectStream.Writer

/-!
# Attribute files

An attribute file stores the declarations of one separately compiled class or procedure. It
holds the version of the format, the known super-class edges, the external declarations that
the module depends on, and the module itself.

Links from the module into the modules behind its external declarations, and to the scope
around it, are written as absent. They are found again when the module is checked after loading.
-/

namespace Simula

/-- A module that has been read, with its external declarations. -/
structure LoadedModule where
  module : NodeId
  externals : List NodeId
  deriving DecidableEq, Repr, Inhabited

namespace AttributeFile

/-- The version of the format. -/
def version : String := "SIMC-ATR 1.0"

/-- The text that ends the list of super-class edges. -/
def hierarchyEnd : String := "%%END-HIERARCHY"

/-- The module behind an external declaration. -/
def externalModule? (t : Tree) (id : NodeId) : Option NodeId :=
  match t.data id with
  | .declaration _ _ (.external _ _ module) => module
  | _ => none

/-- All nodes of the modules behind external declarations and of the modules that their
classes are prefixed by. -/
def externalGraph (t : Tree) (externals : List NodeId) : List NodeId :=
  Graph.preorder t.size (fun id => t.children id ++ (t.prefixClass? id).toList)
    (externals.filterMap (externalModule? t))

/-- The nodes that the file of a module leaves out. -/
def detached (t : Tree) (module : NodeId) (externals : List NodeId) : List NodeId :=
  (externals ++ [module]).filterMap t.declaredIn? ++ externalGraph t externals

/-- Writes super-class edges. -/
def writeEdges : List (ClassIdentity × ClassIdentity) → Encoder Unit
  | [] => Encoder.string (some hierarchyEnd)
  | (sub, sup) :: rest => do
    Encoder.string (some sub.package)
    Encoder.string (some sub.name)
    Encoder.string (some sup.package)
    Encoder.string (some sup.name)
    writeEdges rest

/-- Writes external declarations. -/
def writeExternals (t : Tree) (left : List NodeId) : List NodeId → Writer Unit
  | [] => pure ()
  | id :: rest => do
    if t.kind id ≠ .externalDeclaration then
      throw (.internal (.notAnExternalInList (t.kind id)))
    Writer.object t left (some id)
    writeExternals t left rest

/-- Writes the file of a module. -/
def writeAll (t : Tree) (module : NodeId) (externals : List NodeId) (h : ClassHierarchy) :
    Writer Unit := do
  let left := detached t module externals
  Writer.emit (Encoder.string (some version))
  Writer.emit (writeEdges h.edges)
  writeExternals t left externals
  Writer.object t left (some module)

/-- The file of a module with objects numbered from `base`, and the next free number. -/
def write (t : Tree) (module : NodeId) (externals : List NodeId) (h : ClassHierarchy)
    (base : Int) : Except Error (Bytes × Int) :=
  let kind := t.kind module
  if kind.isModule then
    match writeAll t module externals h { next := base } with
    | .ok _ s => .ok (s.out.toList, s.next)
    | .error e _ => .error e
  else .error (.internal (.notWritableAsModule kind))

end AttributeFile

/-- What loading changes: the tree, the class hierarchy and the table of loaded files. -/
structure LoadState where
  tree : Tree
  hierarchy : ClassHierarchy := {}
  loaded : List (String × LoadedModule) := []

/-- An action that loads modules. -/
abbrev Loading := EStateM Error LoadState

namespace AttributeFile

/-- A file that is being read: its object stream and what loading has changed otherwise. -/
structure FileState where
  input : Bytes
  objects : List (Int × NodeId) := []
  loading : LoadState

/-- An action that reads a file. -/
abbrev FileReader := EStateM Error FileState

/-- Reads from the object stream of the file. -/
def stream {α : Type} (r : Reader α) : FileReader α :=
  fun ⟨input, objects, ⟨tree, hierarchy, loaded⟩⟩ =>
    match r ⟨input, tree, objects⟩ with
    | .ok a s => .ok a ⟨s.input, s.objects, ⟨s.tree, hierarchy, loaded⟩⟩
    | .error e s => .error e ⟨s.input, s.objects, ⟨s.tree, hierarchy, loaded⟩⟩

/-- Loads something else while the file is being read. -/
def meanwhile {α : Type} (l : Loading α) : FileReader α := fun ⟨input, objects, loading⟩ =>
  match l loading with
  | .ok a loading => .ok a ⟨input, objects, loading⟩
  | .error e loading => .error e ⟨input, objects, loading⟩

/-- Takes a primitive value. -/
def take {α : Type} (d : Decoder α) : FileReader α := stream (Reader.take d)

/-- Takes a text of the header, which must not be absent. -/
def headerString : FileReader String := do
  match ← take Decoder.string with
  | some s => return s
  | none => throw (.format .nullHeader)

/-- Records a super-class edge. -/
def registerEdge (sub sup : ClassIdentity) : FileReader Unit :=
  modify fun s =>
    { s with
      loading := { s.loading with hierarchy := s.loading.hierarchy.registerEdge sub sup } }

/-- Takes super-class edges up to their end, at most `n` of them. Every edge takes up input, so
the length of the input is bound enough. -/
def readEdges : Nat → FileReader Unit
  | 0 => throw (.format .endOfInput)
  | n + 1 => do
    let subPackage ← headerString
    if subPackage = hierarchyEnd then return
    let subName ← headerString
    let supPackage ← headerString
    let supName ← headerString
    registerEdge ⟨subPackage, subName⟩ ⟨supPackage, supName⟩
    readEdges n

/-- An external declaration with the module behind it; other nodes stay as they are. -/
def withModule (module : NodeId) : NodeData → NodeData
  | .declaration i s (.external k file _) => .declaration i s (.external k file (some module))
  | d => d

/-- Records the module behind an external declaration. -/
def linkExternal (external module : NodeId) : FileReader Unit :=
  modify fun s =>
    { s with
      loading := { s.loading with tree := s.loading.tree.update external (withModule module) } }

/-- Takes external declarations, at most `n` of them, and loads the module behind each; gives
them with the kind tag that follows. -/
def readExternals (loadExternal : NodeId → Loading NodeId) :
    Nat → FileReader (List NodeId × Kind)
  | 0 => throw (.format .endOfInput)
  | n + 1 => do
    let kind ← take Decoder.kind
    if kind ≠ .externalDeclaration then return ([], kind)
    match ← stream (Reader.tagged kind) with
    | none => throw (.internal .nullModule)
    | some external =>
      linkExternal external (← meanwhile (loadExternal external))
      let (externals, kind) ← readExternals loadExternal n
      return (external :: externals, kind)

/-- Takes a whole file. -/
def readAll (loadExternal : NodeId → Loading NodeId) : FileReader LoadedModule := do
  let found ← take Decoder.string
  if found ≠ some version then throw (.format (.version found version))
  readEdges (← get).input.length
  let (externals, kind) ← readExternals loadExternal (← get).input.length
  if !kind.isModule then throw (.internal (.notAModuleRecord kind))
  match ← stream (Reader.tagged kind) with
  | none => throw (.internal .nullModule)
  | some module => return { module, externals }

/-- Reads a file into the tree, loading the modules behind its external declarations. -/
def read (loadExternal : NodeId → Loading NodeId) (bytes : Bytes) : Loading LoadedModule :=
  fun loading =>
    match readAll loadExternal { input := bytes, loading := loading } with
    | .ok m s => .ok m s.loading
    | .error e s => .error e s.loading

end AttributeFile

end Simula
