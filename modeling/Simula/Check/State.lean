import Simula.Diagnostic
import Simula.Meaning

/-!
# The state of a check

Checking a module changes its tree, by recording what names denote and inserting conversions,
and reports mistakes. Only misuse of the tree ends a check early, and the changes and reports
up to that point stay.
-/

namespace Simula

/-- The tree under check and the mistakes found so far. -/
structure CheckState where
  tree : Tree
  diagnostics : Diagnostics := {}
  deriving DecidableEq, Repr

/-- A step of a check. -/
abbrev CheckM := EStateM Error CheckState

namespace CheckState

/-- Reports a finding on a line. -/
def report (s : CheckState) (line : Nat) (f : Finding) : CheckState :=
  { s with diagnostics := s.diagnostics.report (f.onLine line) }

/-- Changes the content of a node. -/
def update (s : CheckState) (id : NodeId) (f : NodeData → NodeData) : CheckState :=
  { s with tree := s.tree.update id f }

end CheckState

namespace CheckM

/-- The tree under check. -/
def tree : CheckM Tree := return (← get).tree

/-- Reports a finding on a line. -/
def report (line : Nat) (f : Finding) : CheckM Unit := modify fun s => s.report line f

/-- Changes the content of a node. -/
def update (id : NodeId) (f : NodeData → NodeData) : CheckM Unit :=
  modify fun s => s.update id f

/-- Runs an action on the tree alone. -/
def onTree {α : Type} (action : EStateM Error Tree α) : CheckM α := fun ⟨tree, diagnostics⟩ =>
  match action tree with
  | .ok a tree => .ok a ⟨tree, diagnostics⟩
  | .error e tree => .error e ⟨tree, diagnostics⟩

end CheckM

end Simula
