import Simula.ObjectStream.Layout
import Simula.Tree

/-!
# Reading object streams

Every record becomes a new node of the tree. The node is registered under its sequence number
before its fields are read, so a field may refer back to a record that is still being read;
until its fields are complete the node is pending.

A failed read leaves the nodes that it had begun in the tree.
-/

namespace Simula

/-- The remaining input, the tree that grows, and the nodes known by number. -/
structure ReaderState where
  input : Bytes
  tree : Tree
  /-- The registered nodes, the latest first. -/
  objects : List (Int × NodeId) := []
  deriving DecidableEq, Repr

/-- An action that reads from an object stream. -/
abbrev Reader := EStateM Error ReaderState

namespace Reader

/-- Takes a primitive value. -/
def take {α : Type} (d : Decoder α) : Reader α := fun ⟨input, tree, objects⟩ =>
  match d input with
  | .ok a input => .ok a ⟨input, tree, objects⟩
  | .error err input => .error err ⟨input, tree, objects⟩

/-- Adds a pending node and registers it; a number must not be registered twice. -/
def register (sequence : Int) (line : Nat) : Reader NodeId := fun ⟨input, tree, objects⟩ =>
  let id := tree.size
  let s : ReaderState := ⟨input, tree.push ⟨line, .pending⟩, (sequence, id) :: objects⟩
  match objects.lookup sequence with
  | none => .ok id s
  | some _ => .error (.protocol (.reusedNumber sequence)) s

/-- Completes a pending node. -/
def complete (id : NodeId) (data : NodeData) : Reader Unit := fun ⟨input, tree, objects⟩ =>
  .ok () ⟨input, tree.setData id data, objects⟩

/-- The declaration list of nodes that are named by their own identifiers. -/
def declarationList (tree : Tree) : DeclarationList → List NodeId → Except Error DeclarationList
  | list, [] => .ok list
  | list, id :: rest =>
    match tree.identifier? id with
    | none => .error (.protocol (.undeclarable (tree.kind id)))
    | some identifier =>
      match list.insert? tree.caseRule identifier id with
      | none => .error (.protocol (.declaredTwice identifier))
      | some list => declarationList tree list rest

section

variable (readLink : Reader (Option NodeId))

/-- Takes an object that must be there. -/
def takeChild (role : String) : Reader NodeId := do
  match ← readLink with
  | some id => return id
  | none => throw (.protocol (.missing role))

/-- Takes the given number of objects that must be there. -/
def takeChildren (role : String) : Nat → Reader (List NodeId)
  | 0 => return []
  | n + 1 => do
    let id ← takeChild readLink role
    return id :: (← takeChildren role n)

/-- Takes a list of objects behind its length. -/
def takeList (role : String) : Reader (List NodeId) := do
  takeChildren readLink role (← take Decoder.count)

/-- Takes the declarations of a scope. -/
def takeDeclarations : Reader DeclarationList := do
  let ids ← takeList readLink "declaration"
  match declarationList (← get).tree {} ids with
  | .ok list => return list
  | .error e => throw e

/-- Takes one field. -/
def takeField : (s : Shape) → Reader s.Value
  | .scalar s => take s.take
  | .link => readLink
  | .child role => takeChild readLink role
  | .children role => takeList readLink role
  | .declarations => takeDeclarations readLink

/-- Takes the fields of a record. -/
def takePayload : (ss : List Shape) → Reader (Payload ss)
  | [] => return ()
  | s :: ss => do
    let v ← takeField readLink s
    return (v, ← takePayload ss)

/-- Takes the content of a node in the layout of a kind. -/
def takeData (kind : Kind) : Reader NodeData := do
  match kind.layout? with
  | none => throw (.internal .sentinelLayout)
  | some layout => return layout.build (← takePayload readLink layout.shapes)

/-- Takes an object whose kind tag has been read. -/
def takeTagged (kind : Kind) : Reader (Option NodeId) := do
  match kind with
  | .null => return none
  | .objectReference =>
    let sequence ← take Decoder.short
    match (← get).objects.lookup sequence with
    | some id => return some id
    | none => throw (.linkage sequence)
  | kind =>
    let sequence ← take Decoder.short
    let line ← take Decoder.count
    let id ← register sequence line
    complete id (← takeData readLink kind)
    return some id

end

/-- Takes an object, with at most `depth` records open at a time. Every open record has
consumed some input, so a depth of the length of the input is never used up before it ends. -/
def objectWithin : Nat → Reader (Option NodeId)
  | 0 => throw (.format .endOfInput)
  | depth + 1 => do takeTagged (objectWithin depth) (← take Decoder.kind)

/-- Takes an object. -/
def object : Reader (Option NodeId) := fun s => objectWithin s.input.length s

/-- Takes an object whose kind tag has been read. -/
def tagged (kind : Kind) : Reader (Option NodeId) := fun s =>
  takeTagged (objectWithin s.input.length) kind s

/-- Takes only the fields of a node, in the layout of a kind. -/
def fields (kind : Kind) : Reader NodeData := fun s =>
  takeData (objectWithin s.input.length) kind s

end Reader

end Simula
