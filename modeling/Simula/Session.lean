import Simula.AttributeFile
import Simula.Check
import Simula.ClassLoading
import Simula.Library
import Simula.Options

/-!
# Compilation sessions

A session keeps what the compilation of several modules shares: the options, the class
hierarchy, the diagnostics and the table of attribute files already read. Its operations work
on the tree of the module at hand, and keep their changes when they fail.
-/

namespace Simula

/-- What the compilations of a session share. -/
structure Session where
  options : Options := {}
  hierarchy : ClassHierarchy := {}
  diagnostics : Diagnostics := {}
  /-- The attribute files that have been read, by entry. -/
  loaded : List (String × LoadedModule) := []

/-- A session at work on a tree. -/
structure Compilation where
  session : Session
  tree : Tree

/-- An operation of a session on a tree. -/
abbrev SessionM := EStateM Error Compilation

namespace Session

/-- The session with its options alone. -/
def reset (s : Session) : Session := { options := s.options }

/-- A tree that follows the session's case rule. -/
def newTree (s : Session) : Tree := { caseRule := s.options.caseRule }

/-- The identity of the class that a node of a tree compiles to. -/
def classIdentity (s : Session) (t : Tree) (id : NodeId) : ClassIdentity :=
  ⟨s.options.package, (t.identifier? id).getD ""⟩

/-- Records a super-class edge. -/
def registerEdge (s : Session) (sub sup : ClassIdentity) : Session :=
  { s with hierarchy := s.hierarchy.registerEdge sub sup }

/-- Records the super-class of one node of a module: every class has one, and so has a
procedure that is the module itself. -/
def registerClass (t : Tree) (module : NodeId) (s : Session) (id : NodeId) : Session :=
  match t.kind id with
  | .classDeclaration =>
    s.registerEdge (s.classIdentity t id) <|
      match t.prefixClass? id with
      | some p => s.classIdentity t p
      | none => .runtimeClass
  | .procedure =>
    if id = module then s.registerEdge (s.classIdentity t id) .runtimeProcedure else s
  | _ => s

/-- Records the super-classes of all classes of a module; of two classes with one identity the
one that stands first in the module has the last word. -/
def registerClasses (s : Session) (t : Tree) (module : NodeId) : Session :=
  (Graph.preorder t.size (fun id => (t.children id).reverse) [module]).foldl
    (registerClass t module) s

/-- Runs a check as an operation of the session. -/
def checking {α : Type} (c : CheckM α) : SessionM α := fun ⟨s, tree⟩ =>
  match c ⟨tree, s.diagnostics⟩ with
  | .ok a r => .ok a ⟨{ s with diagnostics := r.diagnostics }, r.tree⟩
  | .error e r => .error e ⟨{ s with diagnostics := r.diagnostics }, r.tree⟩

/-- Checks a module; fails when the session has any error to report. -/
def check (module : NodeId) : SessionM Unit := do
  checking (CheckM.check module)
  let errors := (← get).session.diagnostics.errorCount
  if errors > 0 then throw (.aborted "check" errors)

/-- The attribute file of a module and its entry, with the classes of the module recorded. -/
def emit (s : Session) (t : Tree) (module : NodeId) (externals : List NodeId) :
    Session × Except Error (String × Bytes) :=
  let s := s.registerClasses t module
  let entry := attributeEntry s.options.package ((t.identifier? module).getD "")
  (s, (AttributeFile.write t module externals s.hierarchy s.options.sequenceBase).map
    fun (bytes, _) => (entry, bytes))

/-- Gives the module of an entry that has been read, refuses one that is being read, and
otherwise does what it takes to read it. -/
def remembered (inProgress : List String) (entry : String) (read : Loading LoadedModule) :
    Loading LoadedModule := do
  match (← get).loaded.lookup entry with
  | some m => return m
  | none =>
    if entry ∈ inProgress then throw (.format (.selfReference entry))
    let m ← read
    modify fun s => { s with loaded := (entry, m) :: s.loaded }
    return m

/-- The module behind an external declaration, which must be of the declared kind. -/
def loadExternal (load : String → Loading LoadedModule) (external : NodeId) :
    Loading NodeId := do
  match (← get).tree.data external with
  | .declaration _ _ (.external moduleKind entry _) =>
    let m ← load entry
    let found := (← get).tree.kind m.module
    if found = moduleKind then return m.module
    else throw (.format (.wrongModule entry found moduleKind))
  | _ => throw (.internal (.notAnExternal external))

/-- Loads an entry while those in `inProgress` are being read, through at most `depth` files.
An entry beyond a chain of all entries of the library is not in the library. -/
def loadWithin (library : AttributeLibrary) : Nat → List String → String → Loading LoadedModule
  | 0, inProgress, entry => remembered inProgress entry (throw (.missingAttributeFile entry))
  | depth + 1, inProgress, entry => remembered inProgress entry do
    match library.read entry with
    | .error e => throw e
    | .ok bytes =>
      AttributeFile.read (loadExternal (loadWithin library depth (entry :: inProgress))) bytes

/-- Runs a loading action as an operation of the session. -/
def loading {α : Type} (l : Loading α) : SessionM α := fun ⟨s, tree⟩ =>
  match l ⟨tree, s.hierarchy, s.loaded⟩ with
  | .ok a r => .ok a ⟨{ s with hierarchy := r.hierarchy, loaded := r.loaded }, r.tree⟩
  | .error e r => .error e ⟨{ s with hierarchy := r.hierarchy, loaded := r.loaded }, r.tree⟩

/-- Reads an attribute file and those that it names, each at most once in a session. -/
def load (library : AttributeLibrary) (entry : String) : SessionM LoadedModule :=
  loading (loadWithin library library.chainBound [] entry)

/-- Declares a node in a scope, reporting why it was left out if it was. -/
def declare (scope decl : NodeId) : SessionM Bool := fun ⟨s, tree⟩ =>
  match tree.declare scope decl with
  | (tree, none) => .ok true ⟨s, tree⟩
  | (tree, some d) => .ok false ⟨{ s with diagnostics := s.diagnostics.report d }, tree⟩

/-- Declares nodes in a scope one after the other. -/
def declareAll (scope : NodeId) : List NodeId → SessionM Unit
  | [] => pure ()
  | id :: rest => do
    discard <| declare scope id
    declareAll scope rest

/-- Adds a block around a loaded module and its external declarations, so that the module can
be checked again. -/
def enclose (m : LoadedModule) : SessionM NodeId := do
  let block := (← get).tree.size
  modify fun c =>
    { c with tree := c.tree.push ⟨0, .declaration "library" none (.block {})⟩ }
  declareAll block (m.externals ++ [m.module])
  return block

/-- Looks an identifier up, reporting an undefined one. -/
def resolveOrReport (scope : NodeId) (identifier : String) (line : Nat) : SessionM Meaning := do
  let meaning := (← get).tree.resolve scope identifier
  unless meaning.isDefined do checking (CheckM.report line (.undefinedIdentifier identifier))
  return meaning

/-- Records the interfaces among some classes. -/
def registerInterfaces (s : Session) (queue : List PendingClass) : Session :=
  { s with
    hierarchy := (queue.filter (·.isInterface)).foldl
      (fun h p => h.registerInterface p.identity) s.hierarchy }

/-- Loads compiled classes; interfaces among them never wait for a super-class. -/
def loadClasses {σ : Type} (s : Session) (loader : ClassLoader σ) (queue : List PendingClass) :
    Session × ClassLoader.Run σ (List ClassIdentity) :=
  let s := s.registerInterfaces queue
  (s, loader.loadAll s.hierarchy s.options.maxLoadPasses queue)

end Session

end Simula
