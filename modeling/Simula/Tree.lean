import Simula.Identifier
import Simula.Node

/-!
# The syntax tree

A tree is a growing sequence of nodes together with the case rule for its identifiers. Nodes
are only appended or changed in place, so a node number stays valid.

Reading a number that the tree does not have gives a pending node on line 0.
-/

namespace Simula

/-- A syntax tree. -/
structure Tree where
  nodes : Array Node := #[]
  caseRule : CaseRule := .insensitive
  deriving DecidableEq, Repr, Inhabited

namespace Tree

/-- The number of nodes. -/
def size (t : Tree) : Nat := t.nodes.size

/-- The content of a node. -/
def data (t : Tree) (id : NodeId) : NodeData :=
  match t.nodes[id]? with
  | some n => n.data
  | none => .pending

/-- The source line of a node. -/
def line (t : Tree) (id : NodeId) : Nat :=
  match t.nodes[id]? with
  | some n => n.line
  | none => 0

/-- Appends a node. -/
def push (t : Tree) (n : Node) : Tree := { t with nodes := t.nodes.push n }

/-- Appends a node and tells its number. -/
def add (t : Tree) (line : Nat) (data : NodeData) : NodeId × Tree :=
  (t.size, t.push ⟨line, data⟩)

/-- Changes the content of a node. -/
def update (t : Tree) (id : NodeId) (f : NodeData → NodeData) : Tree :=
  { t with nodes := t.nodes.modify id fun n => { n with data := f n.data } }

/-- Replaces the content of a node. -/
def setData (t : Tree) (id : NodeId) (data : NodeData) : Tree := t.update id fun _ => data

/-- The kind of a node. -/
def kind (t : Tree) (id : NodeId) : Kind := (t.data id).kind

/-- The identifier that a node declares or uses. -/
def identifier? (t : Tree) (id : NodeId) : Option String := (t.data id).identifier?

/-- The scope in which a node is declared. -/
def declaredIn? (t : Tree) (id : NodeId) : Option NodeId := (t.data id).declaredIn?

/-- The nodes directly below a node. -/
def children (t : Tree) (id : NodeId) : List NodeId := (t.data id).children

/-- The parts of a class. -/
def class? (t : Tree) (id : NodeId) : Option ClassParts := (t.data id).class?

/-- Whether a node is a class. -/
def isClass (t : Tree) (id : NodeId) : Bool := (t.class? id).isSome

/-- The prefix class of a class. -/
def prefixClass? (t : Tree) (id : NodeId) : Option NodeId :=
  (t.class? id).bind (·.prefixClass)

/-- The spelling under which the tree stores an identifier. -/
def normalize (t : Tree) (identifier : String) : String := t.caseRule.normalize identifier

/-- Whether two spellings name the same identifier in the tree. -/
def sameIdentifier (t : Tree) (a b : String) : Bool := t.caseRule.same a b

end Tree

end Simula
