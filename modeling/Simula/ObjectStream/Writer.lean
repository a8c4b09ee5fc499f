import Simula.ObjectStream.Layout
import Simula.Tree

/-!
# Writing object streams

The first time a node is written it gets the next sequence number and its whole record is
stored; every later occurrence is a reference to that number. A node is numbered before its
fields are written, so a graph with cycles is written in full and the stream stays finite.

Detached nodes are written as absent. What was written before a failure stays.
-/

namespace Simula

/-- The stream written so far and the numbers given out in it. -/
structure WriterState where
  out : Output := {}
  /-- The numbered nodes, the latest first. -/
  numbers : List (NodeId × Int) := []
  /-- The number of the next node. -/
  next : Int
  deriving DecidableEq, Repr

/-- The number under which a node has been written. -/
def WriterState.sequence? (s : WriterState) (id : NodeId) : Option Int := s.numbers.lookup id

/-- An action that extends an object stream. -/
abbrev Writer := EStateM Error WriterState

namespace Writer

/-- Appends a primitive value. -/
def emit (e : Encoder Unit) : Writer Unit := fun ⟨out, numbers, next⟩ =>
  match e out with
  | .ok _ out => .ok () ⟨out, numbers, next⟩
  | .error err out => .error err ⟨out, numbers, next⟩

/-- Gives a node the next number. The last number of the range is never given out. -/
def number (id : NodeId) : Writer Int := fun s =>
  if maxShort ≤ s.next then .error (.range (s.next + 1)) s
  else .ok s.next { s with numbers := (id, s.next) :: s.numbers, next := s.next + 1 }

section

variable (writeLink : Option NodeId → Writer Unit)

/-- Writes a list of objects one after the other. -/
def putObjects : List NodeId → Writer Unit
  | [] => pure ()
  | id :: rest => do
    writeLink (some id)
    putObjects rest

/-- Writes a list of objects behind its length. -/
def putList (ids : List NodeId) : Writer Unit := do
  emit (Encoder.count ids.length)
  putObjects writeLink ids

/-- Writes one field. -/
def putField : (s : Shape) → s.Value → Writer Unit
  | .scalar s, v => emit (s.put v)
  | .link, v => writeLink v
  | .child _, v => writeLink (some v)
  | .children _, v => putList writeLink v
  | .declarations, v => putList writeLink v.nodes

/-- Writes the fields of a record. -/
def putPayload : (ss : List Shape) → Payload ss → Writer Unit
  | [], _ => pure ()
  | s :: ss, (v, vs) => do
    putField writeLink s v
    putPayload ss vs

/-- Writes the fields of a node in the layout of a kind. -/
def putData (kind : Kind) (data : NodeData) : Writer Unit :=
  match kind.layout? with
  | none => throw (.internal (.noPayload data.kind))
  | some layout =>
    match layout.fields data with
    | none => throw (.internal (.wrongLayout kind data.kind))
    | some payload => putPayload writeLink layout.shapes payload

/-- Writes the number, the line and the fields of a node that has not been written yet. -/
def putRecord (id : NodeId) (node : Node) : Writer Unit := do
  if node.data = .pending then throw (.internal (.notMaterialized id))
  let sequence ← number id
  emit (Encoder.kind node.data.kind)
  emit (Encoder.short sequence)
  emit (Encoder.count (min node.line maxShort))
  putData writeLink node.data.kind node.data

end

/-- Writes an object: a mark for an absent or detached one, a reference for one already
numbered, and otherwise its record. -/
def putObject (detached : List NodeId) (record : NodeId → Writer Unit) :
    Option NodeId → Writer Unit
  | none => emit (Encoder.kind .null)
  | some id => do
    if id ∈ detached then emit (Encoder.kind .null)
    else
      match (← get).sequence? id with
      | some sequence =>
        emit (Encoder.kind .objectReference)
        emit (Encoder.short sequence)
      | none => record id

/-- Writes the record of a node, with at most `depth` records open at a time. A record opened
inside the records of all nodes can only be that of a node outside the tree. -/
def record (tree : Tree) (detached : List NodeId) : Nat → NodeId → Writer Unit
  | 0, id => throw (.internal (.notInTree id))
  | depth + 1, id =>
    match tree.nodes[id]? with
    | none => throw (.internal (.notInTree id))
    | some node => putRecord (putObject detached (record tree detached depth)) id node

/-- Writes an object of a tree. -/
def object (tree : Tree) (detached : List NodeId) (link : Option NodeId) : Writer Unit :=
  putObject detached (record tree detached tree.size) link

/-- Writes objects one after the other. -/
def objects (tree : Tree) (detached : List NodeId) (links : List (Option NodeId)) :
    Writer Unit :=
  links.forM (object tree detached)

/-- Writes only the fields of a node, in the layout of a kind. -/
def fields (tree : Tree) (kind : Kind) (id : NodeId) : Writer Unit :=
  putData (object tree []) kind (tree.data id)

end Writer

end Simula
